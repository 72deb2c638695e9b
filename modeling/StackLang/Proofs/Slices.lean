import Mathlib.Data.String.Basic
import StackLang.Text.Source

/-! Parts of a text between two offsets. Offsets count bytes, so an offset that was reached by going
through characters never splits one, and what is cut out between two of them are the characters that
were passed in between. -/
namespace StackLang.Text

open String (utf8Len)

theorem Position.offset_through (place : Position) (run : List Char) :
    (place.through run).offset = place.offset + utf8Len run := by
  induction run generalizing place with
  | nil => simp
  | cons c run ih =>
    have past : (place.past c).offset = place.offset + c.utf8Size := by
      unfold Position.past
      split
      · next lineEnd =>
        subst lineEnd
        rfl
      · rfl
    rw [Position.through_cons, ih, past, String.utf8Len_cons]
    omega

/-- The offset reached at the end of a text from its start is the number of its bytes. -/
theorem Position.offset_start_through (run : List Char) :
    (Position.start.through run).offset = utf8Len run := by
  rw [offset_through]
  exact Nat.zero_add _

theorem dropBytes?_cons (c : Char) (count : Nat) (rest : List Char) :
    dropBytes? (c.utf8Size + count) (c :: rest) = dropBytes? count rest := by
  obtain ⟨size, more⟩ := Nat.exists_eq_add_one_of_ne_zero (Nat.ne_of_gt c.utf8Size_pos)
  have total : c.utf8Size + count = size + count + 1 := by omega
  rw [total, dropBytes?, if_pos (by omega)]
  congr 1
  omega

theorem takeBytes?_cons (c : Char) (count : Nat) (rest : List Char) :
    takeBytes? (c.utf8Size + count) (c :: rest) = (takeBytes? count rest).map (c :: ·) := by
  obtain ⟨size, more⟩ := Nat.exists_eq_add_one_of_ne_zero (Nat.ne_of_gt c.utf8Size_pos)
  have total : c.utf8Size + count = size + count + 1 := by omega
  have left : size + count + 1 - c.utf8Size = count := by omega
  rw [total, takeBytes?, if_pos (by omega), left]

theorem dropBytes?_append (front rest : List Char) :
    dropBytes? (utf8Len front) (front ++ rest) = some rest := by
  induction front with
  | nil => cases rest <;> rfl
  | cons c front ih => rw [String.utf8Len_cons, Nat.add_comm, List.cons_append, dropBytes?_cons, ih]

theorem takeBytes?_append (front rest : List Char) :
    takeBytes? (utf8Len front) (front ++ rest) = some front := by
  induction front with
  | nil => cases rest <;> rfl
  | cons c front ih =>
    rw [String.utf8Len_cons, Nat.add_comm, List.cons_append, takeBytes?_cons, ih]
    rfl

theorem slice?_append (front middle back : List Char) :
    slice? (front ++ (middle ++ back)) (utf8Len front) (utf8Len (front ++ middle)) =
      some middle := by
  have left : utf8Len (front ++ middle) - utf8Len front = utf8Len middle := by
    rw [String.utf8Len_append]
    omega
  rw [slice?, if_pos (by simp), dropBytes?_append, left]
  exact takeBytes?_append middle back

theorem le_of_slice? {text part : List Char} {start stop : Nat}
    (cut : slice? text start stop = some part) : start ≤ stop := by
  rw [slice?] at cut
  split_ifs at cut with ordered
  exact ordered

theorem lt_of_slice? {text part : List Char} {start stop : Nat}
    (cut : slice? text start stop = some part) (nonempty : part ≠ []) : start < stop := by
  have ordered := le_of_slice? cut
  have apart : start ≠ stop := by
    rintro rfl
    rw [slice?, if_pos ordered, Nat.sub_self, Option.bind_eq_some_iff] at cut
    obtain ⟨rest, _, taken⟩ := cut
    rw [takeBytes?] at taken
    exact nonempty (Option.some.inj taken).symm
  omega

end StackLang.Text
