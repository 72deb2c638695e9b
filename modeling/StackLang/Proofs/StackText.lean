import Mathlib.Data.List.Induction
import StackLang.Output.Lower
import StackLang.Proofs.NumberConstants
import StackLang.Proofs.Stack
import StackLang.Proofs.WholeNumbers

/-! Texts that are pushed and taken again. The length of a text is looked for from above, as the
first cell that counts the cells passed; the text comes back unless one of its own characters has
the number of characters behind it as its code. -/
namespace StackLang.Machine

section Cells

variable {α : Type} [Cell α] {machine : Machine α}

/-- No cell counts the cells behind it. -/
def uncounted : List α → Bool
  | [] => true
  | value :: rest => !Cell.same value (Cell.ofNat rest.length) && uncounted rest

theorem uncounted_append {front rest : List α} (plain : uncounted (front ++ rest) = true) :
    uncounted rest = true := by
  induction front with
  | nil => exact plain
  | cons value front ih =>
    rw [List.cons_append, uncounted, Bool.and_eq_true] at plain
    exact ih plain.2

theorem findCount_step {lower rest : List α} {value zero : α}
    (holds : machine.Holds (lower ++ value :: (rest ++ [zero]))) (remaining : Nat) :
    findCount rest.length (remaining + 1) machine =
      if Cell.same value (Cell.ofNat rest.length) then .ok (some rest.length, machine)
      else findCount (rest.length + 1) remaining machine := by
  have topped : top ((rest.length : Int) + 1) machine = .ok (value, machine) := by
    simpa using holds.top
  rw [findCount, bind_ran topped]
  split <;> rfl

theorem findCount_eq {lower front rest : List α} {marker zero : α}
    (holds : machine.Holds (lower ++ marker :: (front ++ rest ++ [zero])))
    (counts : Cell.same marker (Cell.ofNat (front ++ rest).length) = true)
    (plain : uncounted (front ++ rest) = true) (extra : Nat) :
    findCount rest.length (front.length + 1 + extra) machine =
      .ok (some (front ++ rest).length, machine) := by
  -- The cells nearest to the top are passed first, so the front is taken apart from its end.
  induction front using List.reverseRecOn generalizing rest with
  | nil =>
    rw [List.nil_append] at holds counts ⊢
    rw [List.length_nil, Nat.zero_add, Nat.add_comm, findCount_step holds, if_pos counts]
  | append_singleton front value ih =>
    have split : front ++ [value] ++ rest = front ++ value :: rest := by simp
    rw [split] at holds counts plain ⊢
    have passed : ¬Cell.same value (Cell.ofNat rest.length) = true := by
      have here := uncounted_append plain
      rw [uncounted, Bool.and_eq_true] at here
      simpa using here.1
    have amount : (front ++ [value]).length + 1 + extra = (front.length + 1 + extra) + 1 := by
      simp
      omega
    have above : machine.Holds ((lower ++ marker :: front) ++ value :: (rest ++ [zero])) := by
      simpa using holds
    rw [amount, findCount_step above, if_neg passed]
    exact ih holds counts plain

theorem copyText_eq {lower done values upper : List α} {buffer : Array UInt8}
    (holds : machine.Holds (lower ++ (done ++ values) ++ upper))
    (room : done.length + values.length ≤ buffer.size) :
    ∃ stored, copyText lower.length done.length values.length buffer machine =
        .ok (stored, machine) ∧
      stored.toList = buffer.toList.take done.length ++ values.map Cell.toByte ++
        buffer.toList.drop (done.length + values.length) := by
  induction values generalizing done buffer with
  | nil => exact ⟨buffer, rfl, by simp⟩
  | cons value values ih =>
    rw [List.length_cons] at room
    have next : done.length < buffer.size := by omega
    have fetched : cell ((lower.length : Int) + done.length) machine = .ok (value, machine) := by
      have found : (lower ++ (done ++ value :: values) ++ upper)[lower.length + done.length]? =
          some value := by simp
      exact holds.cell found
    obtain ⟨stored, copied, bytes⟩ := @ih (done ++ [value])
      (buffer.set done.length (Cell.toByte value) next) (by simpa using holds)
      (by simp only [List.length_append, List.length_singleton, Array.size_set]; omega)
    refine ⟨stored, ?_, ?_⟩
    · rw [List.length_cons, copyText, bind_ran fetched, bind_ran (setByte_inside next _)]
      simpa using copied
    · rw [bytes, Array.toList_set, List.length_append, List.length_singleton,
        take_succ_set (by simpa using next), List.drop_set_of_lt (by omega)]
      simp [Nat.add_assoc, Nat.add_comm 1]

/-- The text between a cell that counts its characters and a zero on the top. -/
theorem popText_eq {below back : List α} {marker : α} {buffer : Array UInt8} {size : Int}
    (holds : machine.Holds (below ++ marker :: (back ++ [Cell.ofNat 0])))
    (closed : Cell.same (Cell.ofNat 0 : α) (Cell.ofNat 0) = true)
    (counts : Cell.same marker (Cell.ofNat back.length) = true) (plain : uncounted back = true)
    (longer : back.length < size) (fits : size ≤ buffer.size) :
    ∃ stored after, popText buffer size machine = .ok ((back.length, stored), after) ∧
      after.Holds below ∧
      stored.toList = back.map Cell.toByte ++ 0 :: buffer.toList.drop (back.length + 1) := by
  have length : (below ++ marker :: (back ++ [Cell.ofNat 0])).length =
      below.length + back.length + 2 := by simp; omega
  have demanded : demand 2 machine = .ok ((), machine) := by
    rw [demand, bind_ran holds.height, if_neg (by omega)]
    rfl
  have sentinel : top 0 machine = .ok (Cell.ofNat 0, machine) := by
    have last : machine.Holds ((below ++ marker :: back) ++ Cell.ofNat 0 :: []) := by
      simpa using holds
    exact last.top
  have found : findCount 0 ((below ++ marker :: (back ++ [Cell.ofNat 0])).length - 1 : Int).toNat
      machine = .ok (some back.length, machine) := by
    rw [show ((below ++ marker :: (back ++ [Cell.ofNat 0])).length - 1 : Int).toNat =
      back.length + 1 + below.length by omega]
    simpa using @findCount_eq _ _ machine below back [] marker (Cell.ofNat 0) (by simpa using holds)
      (by simpa using counts) (by simpa using plain) below.length
  have base : ((below ++ marker :: (back ++ [Cell.ofNat 0])).length : Int) - 2 - back.length =
      below.length := by omega
  have taken : min back.length (size - 1).toNat = back.length := by omega
  obtain ⟨copied, copying, bytes⟩ := @copyText_eq _ _ machine (below ++ [marker]) [] back
    [Cell.ofNat 0] buffer (by simpa using holds) (by simp; omega)
  have ending : back.length < copied.size := by
    rw [← Array.length_toList, bytes]
    simp
    omega
  obtain ⟨after, lowered, held⟩ := holds.setHeight
  refine ⟨copied.set back.length 0 ending, after, ?_, held, ?_⟩
  · rw [popText, bind_ran demanded, bind_ran sentinel, closed]
    rw [show (!true) = false from rfl, if_neg Bool.false_ne_true, bind_ran holds.height,
      bind_ran found]
    dsimp only
    have copiedBack : copyText (below.length + 1 : Int) 0 back.length buffer machine =
        .ok (copied, machine) := by simpa using copying
    rw [base, taken, bind_ran copiedBack, bind_ran (setByte_inside ending 0), bind_ran lowered]
    rfl
  · rw [Array.toList_set, bytes]
    have inside : back.length < buffer.toList.length := by
      have length : buffer.toList.length = buffer.size := Array.length_toList
      omega
    simp [List.drop_eq_getElem_cons inside]

end Cells

/-! ### Texts -/

/-- Whether the code of a character is the number of characters behind it. -/
def hidesCount : List Char → Bool
  | [] => false
  | c :: rest => c.toNat == rest.length || hidesCount rest

/-- The last character that counts those behind it. -/
theorem exists_last_count {text : List Char} (hides : hidesCount text = true) :
    ∃ front c back, text = front ++ c :: back ∧ c.toNat = back.length ∧
      hidesCount back = false := by
  induction text with
  | nil => cases hides
  | cons c rest ih =>
    cases later : hidesCount rest with
    | true =>
      obtain ⟨front, last, back, rfl, found⟩ := ih later
      exact ⟨c :: front, last, back, rfl, found⟩
    | false =>
      rw [hidesCount, later, Bool.or_false, beq_iff_eq] at hides
      exact ⟨[], c, rest, rfl, hides, later⟩

def cellsOf (text : List Char) : List Float := text.map fun c => Cell.ofNat c.toNat

theorem length_cellsOf (text : List Char) : (cellsOf text).length = text.length :=
  List.length_map _

def bytesOf (text : List Char) : List UInt8 := text.map fun c => UInt8.ofNat c.toNat

/-- Characters of one byte that is positive if it is signed. -/
def Ascii (text : List Char) : Prop := ∀ c ∈ text, c.toNat < 128

theorem uncounted_cellsOf {text : List Char} (ascii : Ascii text)
    (plain : hidesCount text = false) : uncounted (cellsOf text) = true := by
  induction text with
  | nil => rfl
  | cons c rest ih =>
    obtain ⟨first, others⟩ := List.forall_mem_cons.mp ascii
    rw [hidesCount, Bool.or_eq_false_iff] at plain
    have unlike : ¬Cell.same (Cell.ofNat c.toNat : Float) (Cell.ofNat rest.length) = true := by
      intro same
      have counts := (Number.ofNat_beq_iff (by omega) _).mp same
      simp [counts] at plain
    change (!Cell.same (Cell.ofNat c.toNat : Float) (Cell.ofNat (cellsOf rest).length) &&
      uncounted (cellsOf rest)) = true
    rw [length_cellsOf, ih others plain.2, Bool.and_true, Bool.not_eq_true', ← Bool.not_eq_true]
    exact unlike

theorem toByte_cellsOf {text : List Char} (ascii : Ascii text) :
    (cellsOf text).map Cell.toByte = bytesOf text := by
  rw [cellsOf, List.map_map]
  exact List.map_congr_left fun c member => Number.toByte_ofNat (ascii c member)

/-- What is taken from a stack on which a text stands behind a cell that counts it. -/
theorem popText_cellsOf {machine : Machine Float} {below : List Float} {marker : Nat}
    {text : List Char} {buffer : Array UInt8} {size : Int}
    (holds : machine.Holds (below ++ Cell.ofNat marker :: (cellsOf text ++ [Cell.ofNat 0])))
    (counts : marker = text.length) (ascii : Ascii text) (plain : hidesCount text = false)
    (longer : text.length < size) (fits : size ≤ buffer.size) :
    ∃ stored after, popText buffer size machine = .ok ((text.length, stored), after) ∧
      after.Holds below ∧
      stored.toList = bytesOf text ++ 0 :: buffer.toList.drop (text.length + 1) := by
  have counted :
      Cell.same (Cell.ofNat marker : Float) (Cell.ofNat (cellsOf text).length) = true := by
    rw [length_cellsOf, counts]
    exact Number.ofNat_beq_self _
  obtain ⟨stored, after, popped, held, bytes⟩ := popText_eq holds (Number.ofNat_beq_self 0) counted
    (uncounted_cellsOf ascii plain) (by rwa [length_cellsOf]) fits
  rw [length_cellsOf] at popped bytes
  rw [toByte_cellsOf ascii] at bytes
  exact ⟨stored, after, popped, held, bytes⟩

/-- A text of one-byte characters that is pushed onto a stack with room for it comes back in full,
and leaves the stack as it was, if and only if none of its characters has as its code the number
of characters behind it. Otherwise only what is behind the last such character comes back. What is
pushed is written in C as constants of the very codes. -/
theorem text_comes_back_iff_no_character_counts (frame : Frame) (depth : Nat) {text : String}
    (ascii : Ascii text.toList) {machine : Machine Float} (low : 0 ≤ machine.pointer)
    (room : machine.pointer + text.length + 2 ≤ machine.cells.size) {buffer : Array UInt8}
    {size : Int} (longer : text.length < size) (fits : size ≤ buffer.size) :
    ∃ (codes : List Nat) (count : Nat) (stored : Array UInt8) (after : Machine Float),
      frame.cells depth (.string text) = .ok (codes.map .code) ∧
      (∀ integers : CIntegers, text.length ≤ integers.signed → ∀ code ∈ codes,
        ∃ constant, (Expression.code code).text = Expression.cast constant ∧
          CNumber integers constant.toList code) ∧
      (do pushAll (codes.map Cell.ofNat); popText buffer size) machine =
        .ok ((count, stored), after) ∧
      ((count = text.length ∧
          stored.toList = bytesOf text.toList ++ 0 :: buffer.toList.drop (text.length + 1) ∧
          after.pointer = machine.pointer ∧ after.live = machine.live) ↔
        hidesCount text.toList = false) ∧
      (hidesCount text.toList = true → ∃ front c back, text.toList = front ++ c :: back ∧
        c.toNat = back.length ∧ hidesCount back = false ∧ count = back.length ∧
        stored.toList = bytesOf back ++ 0 :: buffer.toList.drop (back.length + 1) ∧
        after.live = machine.live ++ Cell.ofNat text.length :: cellsOf front) := by
  let codes := text.length :: text.toList.map Char.toNat ++ [0]
  have lowered : frame.cells depth (.string text) = .ok (codes.map .code) := by
    simp [Frame.cells, Frame.textCells, codes]
  have written : ∀ integers : CIntegers, text.length ≤ integers.signed → ∀ code ∈ codes,
      ∃ constant, (Expression.code code).text = Expression.cast constant ∧
        CNumber integers constant.toList code := by
    intro integers short code member
    have wide := integers.signed_wide
    have fits : code = text.length ∨ code = 0 ∨ ∃ c ∈ text.toList, c.toNat = code := by
      simpa [codes, or_left_comm, or_comm] using member
    rcases fits with rfl | rfl | ⟨c, inside, rfl⟩
    · exact Expression.text_code short
    · exact Expression.text_code (Nat.zero_le _)
    · have small := ascii c inside
      exact Expression.text_code (by omega)
  have values : codes.map (Cell.ofNat : Nat → Float) =
      Cell.ofNat text.length :: (cellsOf text.toList ++ [Cell.ofNat 0]) := by
    simp [codes, cellsOf]
  have before : machine.Holds machine.live := .of_pointer low (by omega)
  have height := before.pointer
  obtain ⟨between, pushed, held, _⟩ := before.pushAll (codes.map Cell.ofNat) (by
    simp only [codes, List.length_map, List.length_append, List.length_cons, List.length_nil,
      String.length_toList]
    omega)
  rw [values] at held
  rw [← String.length_toList] at longer ⊢
  refine ⟨codes, ?_⟩
  cases hides : hidesCount text.toList with
  | false =>
    obtain ⟨stored, after, popped, restored, bytes⟩ :=
      popText_cellsOf held String.length_toList.symm ascii hides longer fits
    refine ⟨_, stored, after, lowered, written, (bind_ran pushed).trans popped, ?_, by simp⟩
    simp [bytes, restored.live, restored.pointer, height]
  | true =>
    obtain ⟨front, c, back, split, counts, plain⟩ := exists_last_count hides
    have shorter : back.length < text.toList.length := by
      rw [split]
      simp
      omega
    have behind : Ascii back := fun other member => ascii other (by rw [split]; simp [member])
    have marked : between.Holds ((machine.live ++ Cell.ofNat text.length :: cellsOf front) ++
        Cell.ofNat c.toNat :: (cellsOf back ++ [Cell.ofNat 0])) := by
      rw [split] at held
      simpa [cellsOf] using held
    obtain ⟨stored, after, popped, left, bytes⟩ :=
      popText_cellsOf marked counts behind plain (by omega) fits
    refine ⟨_, stored, after, lowered, written, (bind_ran pushed).trans popped, ?_, ?_⟩
    · simp only [Bool.true_eq_false, iff_false]
      rintro ⟨same, _⟩
      omega
    · rintro -
      exact ⟨front, c, back, split, counts, plain, rfl, bytes, by
        rw [left.live, String.length_toList]⟩

/-- A tab has nine as its code, and nine characters are behind it. -/
theorem text_behind_a_tab_comes_back_without_it :
    Ascii "\tusage: qd".toList ∧ hidesCount "\tusage: qd".toList = true ∧
      ∃ (codes : List Nat) (count : Nat) (stored : Array UInt8) (after : Machine Float),
        Frame.cells ⟨⟨"main", none, {}⟩, "main", true⟩ 0 (.string "\tusage: qd") =
          .ok (codes.map .code) ∧
        (do pushAll (codes.map Cell.ofNat); popText (Array.replicate 16 0) 16)
          (fresh { stack := 16 } []) = .ok ((count, stored), after) ∧ count < 10 := by
  have ascii : Ascii "\tusage: qd".toList := by
    have all : ("\tusage: qd".toList.all fun c => c.toNat < 128) = true := by decide
    intro c member
    exact of_decide_eq_true (List.all_eq_true.mp all c member)
  have hides : hidesCount "\tusage: qd".toList = true := by decide
  obtain ⟨codes, count, stored, after, lowered, _, ran, _, cut⟩ :=
    @text_comes_back_iff_no_character_counts ⟨⟨"main", none, {}⟩, "main", true⟩ 0 "\tusage: qd"
      ascii (fresh { stack := 16 } []) (by decide) (by decide) (Array.replicate 16 0) 16
      (by decide) (by decide)
  obtain ⟨front, c, back, split, _, _, rfl, _⟩ := cut hides
  refine ⟨ascii, hides, codes, _, stored, after, lowered, ran, ?_⟩
  have length := congrArg List.length split
  simp only [List.length_append, List.length_cons] at length
  have ten : "\tusage: qd".toList.length = 10 := by decide
  omega

end StackLang.Machine
