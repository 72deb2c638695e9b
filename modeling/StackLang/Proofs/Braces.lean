import Mathlib.Data.List.Infix
import StackLang.Token.Lexeme

/-! Blocks in braces. A text is balanced if no block is closed before it is opened and all are
closed in the end; the same is said by a count of the open blocks that goes through the text, and
the count can be continued from one text to the next. C code is cut at the brace that closes its
block, so it is balanced. -/
namespace StackLang.Text

/-- No part in front of a text closes more blocks than it opens, and the whole closes them all. -/
structure Balanced (text : List Char) : Prop where
  opened : ∀ front, front <+: text → front.count '\x7d' ≤ front.count '\x7b'
  closed : text.count '\x7b' = text.count '\x7d'

/-- The open blocks behind a character, unless it closes one that is not there. -/
def nestPast? (depth : Nat) (c : Char) : Option Nat :=
  if c = '\x7b' then some (depth + 1)
  else if c = '\x7d' then (if depth = 0 then none else some (depth - 1))
  else some depth

/-- The open blocks behind a text. -/
def nest? (depth : Nat) (text : List Char) : Option Nat := text.foldlM nestPast? depth

@[simp] theorem nest?_nil (depth : Nat) : nest? depth [] = some depth := rfl

theorem nest?_cons (depth : Nat) (c : Char) (text : List Char) :
    nest? depth (c :: text) = (nestPast? depth c).bind fun inner => nest? inner text := rfl

theorem nest?_append (depth : Nat) (front back : List Char) :
    nest? depth (front ++ back) = (nest? depth front).bind fun inner => nest? inner back :=
  List.foldlM_append

def Braceless (text : List Char) : Prop := '\x7b' ∉ text ∧ '\x7d' ∉ text

instance (text : List Char) : Decidable (Braceless text) := inferInstanceAs (Decidable (_ ∧ _))

@[simp] theorem braceless_nil : Braceless [] := by decide

@[simp] theorem braceless_append {front back : List Char} :
    Braceless (front ++ back) ↔ Braceless front ∧ Braceless back := by
  simp only [Braceless, List.mem_append, not_or]
  exact and_and_and_comm

theorem Braceless.nest? {text : List Char} (plain : Braceless text) (depth : Nat) :
    nest? depth text = some depth := by
  induction text with
  | nil => rfl
  | cons c text ih =>
    obtain ⟨opens, closes⟩ := plain
    rw [List.mem_cons, not_or] at opens closes
    have past : nestPast? depth c = some depth := by
      rw [nestPast?, if_neg (Ne.symm opens.1), if_neg (Ne.symm closes.1)]
    rw [nest?_cons, past]
    exact ih ⟨opens.2, closes.2⟩

theorem braceless_of_forall {text : List Char} {test : Char → Bool}
    (all : ∀ c ∈ text, test c = true) (opens : test '\x7b' = false) (closes : test '\x7d' = false) :
    Braceless text := by
  constructor
  · intro member
    rw [all _ member] at opens
    cases opens
  · intro member
    rw [all _ member] at closes
    cases closes

theorem braceless_intercalate {separator : List Char} {pieces : List (List Char)}
    (between : Braceless separator) (all : ∀ piece ∈ pieces, Braceless piece) :
    Braceless (separator.intercalate pieces) := by
  induction pieces with
  | nil => exact braceless_nil
  | cons piece pieces ih =>
    obtain ⟨first, others⟩ := List.forall_mem_cons.mp all
    cases pieces with
    | nil =>
      rw [List.intercalate_singleton]
      exact first
    | cons next pieces =>
      rw [List.intercalate_cons_cons, braceless_append, braceless_append]
      exact ⟨⟨first, between⟩, ih others⟩

theorem nestPast?_eq_some_iff {depth inner : Nat} {c : Char} :
    nestPast? depth c = some inner ↔
      inner + [c].count '\x7d' = depth + [c].count '\x7b' := by
  unfold nestPast?
  split_ifs with opening closing outside
  · simp [opening]
    omega
  · simp [closing, outside]
  · simp [closing]
    omega
  · simp [opening, closing]
    omega

/-- The count in terms of how often either brace stands in the parts of a text. -/
theorem nest?_eq_some_iff {depth inner : Nat} {text : List Char} :
    nest? depth text = some inner ↔
      (∀ front, front <+: text → front.count '\x7d' ≤ depth + front.count '\x7b') ∧
        inner + text.count '\x7d' = depth + text.count '\x7b' := by
  induction text generalizing depth with
  | nil =>
    simp only [nest?_nil, Option.some.injEq, List.prefix_nil, forall_eq, List.count_nil]
    omega
  | cons c text ih =>
    have counted (brace : Char) (front : List Char) :
        (c :: front).count brace = [c].count brace + front.count brace := by
      rw [← List.count_append, List.singleton_append]
    simp only [nest?_cons, Option.bind_eq_some_iff, nestPast?_eq_some_iff, ih, counted _ text]
    constructor
    · rintro ⟨middle, first, others, whole⟩
      refine ⟨?_, by omega⟩
      intro front part
      rcases List.prefix_cons_iff.mp part with rfl | ⟨rest, rfl, inside⟩
      · simp
      · have := others rest inside
        rw [counted _ rest, counted _ rest]
        omega
    · rintro ⟨parts, whole⟩
      have first := parts [c] (by simp)
      refine ⟨depth + [c].count '\x7b' - [c].count '\x7d', by omega, ?_, by omega⟩
      intro front part
      have := parts (c :: front) (List.prefix_cons_inj c |>.mpr part)
      rw [counted _ front, counted _ front] at this
      omega

theorem balanced_iff_nest? {text : List Char} : Balanced text ↔ nest? 0 text = some 0 := by
  simp only [nest?_eq_some_iff, Nat.zero_add]
  exact ⟨fun balanced => ⟨balanced.opened, balanced.closed.symm⟩,
    fun counted => ⟨counted.1, counted.2.symm⟩⟩

/-- Blocks around a text do not matter to it. -/
theorem nest?_add {depth inner : Nat} {text : List Char} (counted : nest? depth text = some inner)
    (around : Nat) : nest? (around + depth) text = some (around + inner) := by
  rw [nest?_eq_some_iff] at counted ⊢
  obtain ⟨parts, whole⟩ := counted
  refine ⟨?_, by omega⟩
  intro front part
  have := parts front part
  omega

theorem Balanced.nest? {text : List Char} (balanced : Balanced text) (around : Nat) :
    nest? around text = some around :=
  nest?_add (balanced_iff_nest?.mp balanced) around

end StackLang.Text

namespace StackLang.Lexeme

open Text (nestPast? nest?)

theorem braced?_cons_of_inside {depth middle : Nat} {c : Char}
    (past : nestPast? depth c = some middle) (text : List Char) :
    braced? depth (c :: text) = (braced? middle text).map (c :: ·) := by
  unfold nestPast? at past
  conv_lhs => unfold braced?
  split_ifs at past ⊢ with opening closing outside
  · cases past
    rfl
  · obtain ⟨outer, rfl⟩ := Nat.exists_eq_succ_of_ne_zero outside
    cases past
    rfl
  · cases past
    rfl

theorem braced?_cons_of_outside {depth : Nat} {c : Char} (past : nestPast? depth c = none)
    (text : List Char) : c = '\x7d' ∧ depth = 0 ∧ braced? depth (c :: text) = some [] := by
  unfold nestPast? at past
  split_ifs at past with opening closing outside
  subst closing outside
  exact ⟨rfl, rfl, rfl⟩

/-- A block goes up to the first brace that closes it. -/
theorem braced?_eq_some_iff {depth : Nat} {text code : List Char} :
    braced? depth text = some code ↔
      ∃ rest, text = code ++ '\x7d' :: rest ∧ nest? depth code = some 0 := by
  induction text generalizing depth code with
  | nil => simp [braced?]
  | cons c text ih =>
    cases past : nestPast? depth c with
    | some middle =>
      simp only [braced?_cons_of_inside past, Option.map_eq_some_iff, ih]
      constructor
      · rintro ⟨inner, ⟨rest, rfl, counted⟩, rfl⟩
        refine ⟨rest, rfl, ?_⟩
        rw [Text.nest?_cons, past]
        exact counted
      · rintro ⟨rest, parted, counted⟩
        cases code with
        | nil =>
          obtain ⟨rfl, rfl⟩ := List.cons.inj parted
          -- the empty block ends in front of a brace that leaves no block open
          rw [Text.nest?_nil, Option.some.injEq] at counted
          subst counted
          cases past
        | cons first inner =>
          obtain ⟨rfl, rfl⟩ := List.cons.inj parted
          rw [Text.nest?_cons, past] at counted
          exact ⟨inner, ⟨rest, rfl, counted⟩, rfl⟩
    | none =>
      obtain ⟨rfl, rfl, closed⟩ := braced?_cons_of_outside past text
      rw [closed, Option.some.injEq]
      constructor
      · rintro rfl
        exact ⟨text, rfl, rfl⟩
      · rintro ⟨rest, parted, counted⟩
        cases code with
        | nil => rfl
        | cons first inner =>
          obtain ⟨rfl, rfl⟩ := List.cons.inj parted
          rw [Text.nest?_cons, past] at counted
          cases counted

end StackLang.Lexeme
