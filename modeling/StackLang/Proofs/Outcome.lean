import Mathlib.Control.Monad.Basic
import Mathlib.Data.List.Forall2

/-! Computations that stop at their first error: what the parts of one have done, seen from its
end. -/
namespace StackLang.Outcome

variable {ε α β : Type}

theorem bind_ok {first : Except ε α} {next : α → Except ε β} {result : β}
    (done : (first >>= next) = .ok result) :
    ∃ value, first = .ok value ∧ next value = .ok result := by
  cases first with
  | error error => cases done
  | ok value => exact ⟨value, rfl, done⟩

theorem bind_error {first : Except ε α} {next : α → Except ε β} {error : ε}
    (failed : (first >>= next) = .error error) :
    first = .error error ∨ ∃ value, first = .ok value ∧ next value = .error error := by
  cases first with
  | error found => cases failed; exact .inl rfl
  | ok value => exact .inr ⟨value, rfl, failed⟩

theorem eq_ok_of_toOption {outcome : Except ε α} {value : α}
    (found : outcome.toOption = some value) : outcome = .ok value := by
  cases outcome with
  | error error => cases found
  | ok result => cases found; rfl

theorem mapM_error {step : α → Except ε β} {items : List α} {error : ε}
    (failed : items.mapM step = .error error) : ∃ item ∈ items, step item = .error error := by
  induction items with
  | nil => cases failed
  | cons item items ih =>
    rw [List.mapM_cons] at failed
    rcases bind_error failed with first | ⟨value, _, failed⟩
    · exact ⟨item, List.mem_cons_self, first⟩
    · rcases bind_error failed with later | ⟨values, _, failed⟩
      · obtain ⟨found, member, refused⟩ := ih later
        exact ⟨found, List.mem_cons_of_mem _ member, refused⟩
      · cases failed

theorem mapM_ok_iff {step : α → Except ε β} {items : List α} {results : List β} :
    items.mapM step = .ok results ↔
      List.Forall₂ (fun item result => step item = .ok result) items results := by
  induction items generalizing results with
  | nil =>
    rw [List.mapM_nil, List.forall₂_nil_left_iff]
    exact ⟨fun done => (Except.ok.inj done).symm, fun done => congrArg Except.ok done.symm⟩
  | cons item items ih =>
    rw [List.mapM_cons, List.forall₂_cons_left_iff]
    constructor
    · intro done
      obtain ⟨value, first, done⟩ := bind_ok done
      obtain ⟨values, others, done⟩ := bind_ok done
      cases done
      exact ⟨value, values, first, ih.mp others, rfl⟩
    · rintro ⟨value, values, first, others, rfl⟩
      rw [first, ih.mpr others]
      rfl

theorem mapM_congr {step other : α → Except ε β} {items : List α}
    (same : ∀ item ∈ items, step item = other item) : items.mapM step = items.mapM other := by
  induction items with
  | nil => rfl
  | cons item items ih =>
    obtain ⟨first, others⟩ := List.forall_mem_cons.mp same
    rw [List.mapM_cons, List.mapM_cons, first, ih others]

theorem exists_of_forall₂ {made : α → β → Prop} {items : List α} {results : List β} {result : β}
    (all : List.Forall₂ made items results) (member : result ∈ results) :
    ∃ item ∈ items, made item result := by
  induction all with
  | nil => cases member
  | cons first _ ih =>
    rcases List.mem_cons.mp member with rfl | later
    · exact ⟨_, List.mem_cons_self, first⟩
    · obtain ⟨item, among, done⟩ := ih later
      exact ⟨item, List.mem_cons_of_mem _ among, done⟩

theorem forM_ok {step : α → Except ε Unit} {items : List α} (done : items.forM step = .ok ()) :
    ∀ item ∈ items, step item = .ok () := by
  induction items with
  | nil => simp
  | cons item items ih =>
    obtain ⟨_, first, others⟩ := bind_ok done
    exact List.forall_mem_cons.mpr ⟨first, ih others⟩

theorem forM_of_all {step : α → Except ε Unit} {items : List α}
    (all : ∀ item ∈ items, step item = .ok ()) : items.forM step = .ok () := by
  induction items with
  | nil => rfl
  | cons item items ih =>
    obtain ⟨first, others⟩ := List.forall_mem_cons.mp all
    rw [List.forM, first]
    exact ih others

theorem foldlM_keeps {step : β → α → Except ε β} {kept : β → Prop}
    {items : List α}
    (keeps : ∀ item ∈ items, ∀ before after, kept before → step before item = .ok after →
      kept after)
    {start result : β} (begun : kept start) (done : items.foldlM step start = .ok result) :
    kept result := by
  induction items generalizing start with
  | nil => cases done; exact begun
  | cons item items ih =>
    obtain ⟨here, later⟩ := List.forall_mem_cons.mp keeps
    obtain ⟨between, first, others⟩ := bind_ok done
    exact ih later (here start between begun first) others

end StackLang.Outcome
