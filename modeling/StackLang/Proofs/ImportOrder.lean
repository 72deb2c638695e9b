import Mathlib.Data.List.Basic
import StackLang.Build.Compile

/-! The order of first occurrences in a list, and the order of files by where a list of units
imports them first. -/
namespace StackLang

section FirstOccurrences

variable {α : Type} [DecidableEq α]

theorem eraseDups_concat (items : List α) (item : α) :
    (items ++ [item]).eraseDups =
      if item ∈ items then items.eraseDups else items.eraseDups ++ [item] := by
  rw [List.eraseDups_append]
  by_cases known : item ∈ items <;> simp [List.removeAll, known, List.eraseDups_cons]

theorem mem_eraseDups_removeAll {items excluded : List α} {item : α} :
    item ∈ (items.removeAll excluded).eraseDups ↔ item ∈ items ∧ item ∉ excluded := by
  simp [List.removeAll]

/-- First occurrences keep the order in which they stand, whatever is left out. -/
theorem pairwise_idxOf_eraseDups (items excluded : List α) :
    (items.removeAll excluded).eraseDups.Pairwise fun item other =>
      items.idxOf item < items.idxOf other := by
  induction items generalizing excluded with
  | nil => simp [List.removeAll]
  | cons first items ih =>
    -- Without the first item all others have moved on by one place.
    have moved {excluded : List α} (out : first ∈ excluded) :
        (items.removeAll excluded).eraseDups.Pairwise fun item other =>
          (first :: items).idxOf item < (first :: items).idxOf other := by
      refine (ih excluded).imp_of_mem ?_
      intro item other member member' before
      have apart : first ≠ item := by
        rintro rfl
        exact (mem_eraseDups_removeAll.mp member).2 out
      have apart' : first ≠ other := by
        rintro rfl
        exact (mem_eraseDups_removeAll.mp member').2 out
      rw [List.idxOf_cons_ne _ apart, List.idxOf_cons_ne _ apart']
      exact Nat.succ_lt_succ before
    by_cases out : first ∈ excluded
    · have skipped : (first :: items).removeAll excluded = items.removeAll excluded := by
        simp [List.removeAll, out]
      rw [skipped]
      exact moved out
    · have kept : ((first :: items).removeAll excluded).eraseDups =
          first :: (items.removeAll (first :: excluded)).eraseDups := by
        simp [List.removeAll, out, List.eraseDups_cons, List.filter_filter, beq_eq_decide]
      rw [kept, List.pairwise_cons]
      refine ⟨?_, moved List.mem_cons_self⟩
      intro other member
      have apart : first ≠ other := by
        rintro rfl
        exact (mem_eraseDups_removeAll.mp member).2 List.mem_cons_self
      rw [List.idxOf_cons_self, List.idxOf_cons_ne _ apart]
      exact Nat.succ_pos _

theorem nodup_eraseDups (items : List α) : items.eraseDups.Nodup := by
  have ordered := pairwise_idxOf_eraseDups items []
  rw [show items.removeAll [] = items by simp [List.removeAll]] at ordered
  refine ordered.imp ?_
  rintro item other before rfl
  exact Nat.lt_irrefl _ before

end FirstOccurrences

def SourceUnit.requests (unit : SourceUnit) : List Request :=
  ((unit.tree.map SourceTree.imports).getD []).map fun target => ⟨target.path, some target.name⟩

def SourceUnit.importPaths (unit : SourceUnit) : List Path :=
  unit.requests.map (·.path)

/-- Where some units import a file first: the number of the unit, and of the import in it. -/
def importedAt (units : List SourceUnit) (path : Path) : Nat × Nat :=
  let importer := units.findIdx fun unit => path ∈ unit.importPaths
  (importer, ((units[importer]?.map SourceUnit.importPaths).getD []).idxOf path)

theorem importedAt_cons_of_mem {unit : SourceUnit} {path : Path}
    (here : path ∈ unit.importPaths) (units : List SourceUnit) :
    importedAt (unit :: units) path = (0, unit.importPaths.idxOf path) := by
  simp [importedAt, List.findIdx_cons, here]

theorem importedAt_cons_of_not_mem {unit : SourceUnit} {path : Path}
    (elsewhere : path ∉ unit.importPaths) (units : List SourceUnit) :
    importedAt (unit :: units) path =
      ((importedAt units path).1 + 1, (importedAt units path).2) := by
  simp [importedAt, List.findIdx_cons, elsewhere]

/-- The files in the order of all imports are in the order of their first importers, and those of
one importer in the order in which it imports them. -/
theorem importedAt_of_idxOf {units : List SourceUnit} {path other : Path}
    (before : (units.flatMap SourceUnit.importPaths).idxOf path <
      (units.flatMap SourceUnit.importPaths).idxOf other) :
    Prod.Lex (· < ·) (· < ·) (importedAt units path) (importedAt units other) := by
  induction units with
  | nil => simp at before
  | cons unit units ih =>
    rw [List.flatMap_cons] at before
    by_cases here : path ∈ unit.importPaths <;> by_cases there : other ∈ unit.importPaths
    · rw [List.idxOf_append_of_mem here, List.idxOf_append_of_mem there] at before
      rw [importedAt_cons_of_mem here, importedAt_cons_of_mem there]
      exact .right _ before
    · rw [importedAt_cons_of_mem here, importedAt_cons_of_not_mem there]
      exact .left _ _ (Nat.succ_pos _)
    · rw [List.idxOf_append_of_notMem here, List.idxOf_append_of_mem there] at before
      have short := List.idxOf_lt_length_of_mem there
      omega
    · rw [List.idxOf_append_of_notMem here, List.idxOf_append_of_notMem there] at before
      rw [importedAt_cons_of_not_mem here, importedAt_cons_of_not_mem there]
      rcases Prod.lex_def.mp (ih (Nat.lt_of_add_lt_add_left before)) with earlier | ⟨same, earlier⟩
      · exact .left _ _ (Nat.succ_lt_succ earlier)
      · rw [same]
        exact .right _ earlier

end StackLang
