import StackLang.Proofs.ReadPositions
import StackLang.Token.Stream

/-! Where a malformed text is reported. Its longest well-formed beginning is cut off in bytes, and
line and column are counted there once more, in bytes and by reading the last line on its own. Both
counts agree with those of a scanner, because the byte of a line end is part of no other
character. -/
namespace StackLang

open Text (Position)

/-! ### Well-formed beginnings -/

namespace Text.Utf8

theorem encode_cons (c : Char) (text : List Char) :
    encode (c :: text) = String.utf8EncodeChar c ++ encode text :=
  List.flatMap_cons

theorem encode_append (front back : List Char) :
    encode (front ++ back) = encode front ++ encode back :=
  List.flatMap_append

theorem isValidUTF8_iff {bytes : List UInt8} :
    bytes.toByteArray.IsValidUTF8 ↔ ∃ text, encode text = bytes := by
  constructor
  · rintro ⟨text, same⟩
    refine ⟨text, ?_⟩
    have listed := congrArg (·.data.toList) same
    simp only [List.utf8Encode, List.data_toByteArray] at listed
    exact listed.symm
  · rintro ⟨text, rfl⟩
    exact ⟨text, rfl⟩

theorem first?_append (c : Char) (rest : List UInt8) :
    first? (String.utf8EncodeChar c ++ rest) = some c := by
  have short : (String.utf8EncodeChar c).length ≤ 4 := by
    rw [String.length_utf8EncodeChar]
    exact c.utf8Size_le_four
  rw [first?, List.take_append, List.take_of_length_le short, List.toByteArray_append]
  exact ByteArray.utf8DecodeChar?_utf8EncodeChar_append

theorem exists_of_first? {bytes : List UInt8} {c : Char} (found : first? bytes = some c) :
    ∃ rest, bytes = String.utf8EncodeChar c ++ rest := by
  obtain ⟨rest, split⟩ := ByteArray.exists_of_utf8DecodeChar?_eq_some found
  refine ⟨rest.data.toList ++ bytes.drop 4, ?_⟩
  have front := congrArg (·.data.toList) split
  simp only [List.data_toByteArray, ByteArray.data_append, Array.toList_append] at front
  rw [← List.append_assoc, ← front, List.take_append_drop]

theorem drop_utf8Size (c : Char) (rest : List UInt8) :
    (String.utf8EncodeChar c ++ rest).drop c.utf8Size = rest := by
  rw [← String.length_utf8EncodeChar, List.drop_left]

/-- The bytes of a character are the first ones, as both ways of reading look for them. -/
theorem exists_cons_of_character (c : Char) (rest : List UInt8) :
    ∃ byte more, String.utf8EncodeChar c ++ rest = byte :: more ∧
      first? (byte :: more) = some c ∧ (byte :: more).drop c.utf8Size = rest := by
  have found := first?_append c rest
  have left := drop_utf8Size c rest
  cases bytes : String.utf8EncodeChar c ++ rest with
  | nil => exact absurd (List.append_eq_nil_iff.mp bytes).1 String.utf8EncodeChar_ne_nil
  | cons byte more =>
    rw [bytes] at found left
    exact ⟨byte, more, rfl, found, left⟩

theorem read_nil : read [] = ([], []) := by rw [read]

theorem read_cons (c : Char) (rest : List UInt8) :
    read (String.utf8EncodeChar c ++ rest) = (c :: (read rest).1, (read rest).2) := by
  obtain ⟨byte, more, split, found, left⟩ := exists_cons_of_character c rest
  rw [split, read, found]
  dsimp only
  rw [left]

/-- A well-formed beginning is read whatever stands behind it. -/
theorem read_append (text : List Char) (rest : List UInt8) :
    read (encode text ++ rest) = (text ++ (read rest).1, (read rest).2) := by
  induction text with
  | nil => rfl
  | cons c text ih => rw [encode_cons, List.append_assoc, read_cons, ih, List.cons_append]

theorem encode_read (bytes : List UInt8) : encode (read bytes).1 ++ (read bytes).2 = bytes := by
  fun_induction read bytes with
  | case1 => rfl
  | case2 => rfl
  | case3 byte more c found characters left rest ih =>
    obtain ⟨behind, split⟩ := exists_of_first? found
    rw [split, drop_utf8Size] at rest
    rw [split, drop_utf8Size, rest] at ih
    rw [encode_cons, List.append_assoc, ih, split]

/-- Nothing is replaced in a well-formed text. -/
theorem readLossy_encode (text : List Char) : readLossy (encode text) = text := by
  induction text with
  | nil =>
    change readLossy [] = []
    rw [readLossy]
  | cons c text ih =>
    obtain ⟨byte, more, split, found, left⟩ := exists_cons_of_character c (encode text)
    rw [encode_cons, split, readLossy, found]
    dsimp only
    rw [left, ih]

structure IsLongestValid (front bytes : List UInt8) : Prop where
  starts : front <+: bytes
  valid : front.toByteArray.IsValidUTF8
  longest : ∀ other, other <+: bytes → other.toByteArray.IsValidUTF8 → other.length ≤ front.length

theorem isLongestValid_read (bytes : List UInt8) :
    IsLongestValid (encode (read bytes).1) bytes where
  starts := ⟨_, encode_read bytes⟩
  valid := isValidUTF8_iff.mpr ⟨_, rfl⟩
  longest := by
    rintro other ⟨rest, rfl⟩ valid
    obtain ⟨text, rfl⟩ := isValidUTF8_iff.mp valid
    rw [read_append, encode_append, List.length_append]
    exact Nat.le_add_right _ _

theorem isValidUTF8_iff_read {bytes : List UInt8} :
    bytes.toByteArray.IsValidUTF8 ↔ (read bytes).2 = [] := by
  rw [isValidUTF8_iff]
  constructor
  · rintro ⟨text, rfl⟩
    have all := read_append text []
    rw [List.append_nil, read_nil] at all
    rw [all]
  · intro ended
    refine ⟨(read bytes).1, ?_⟩
    have all := encode_read bytes
    rwa [ended, List.append_nil] at all

/-! ### Lines and columns in bytes -/

/-- The byte of a line end stands for nothing else, neither alone nor inside a character. -/
theorem mem_utf8EncodeChar_iff {c : Char} : 10 ∈ String.utf8EncodeChar c ↔ c = '\n' := by
  constructor
  · intro member
    obtain ⟨index, inside, byte⟩ := List.getElem_of_mem member
    have leads : (10 : UInt8).IsUTF8FirstByte := by decide
    rw [← byte, UInt8.isUTF8FirstByte_getElem_utf8EncodeChar] at leads
    subst leads
    obtain ⟨more, split⟩ :
        ∃ more, String.utf8EncodeChar c = String.utf8EncodeChar '\n' ++ more := by
      cases bytes : String.utf8EncodeChar c with
      | nil => exact absurd bytes String.utf8EncodeChar_ne_nil
      | cons first more =>
        simp only [bytes, List.getElem_cons_zero] at byte
        exact ⟨more, by rw [byte]; rfl⟩
    have found := first?_append c []
    rw [List.append_nil, split, first?_append] at found
    exact (Option.some.inj found).symm
  · rintro rfl
    decide

theorem count_encode (text : List Char) : (encode text).count 10 = text.count '\n' := by
  induction text with
  | nil => rfl
  | cons c text ih =>
    rw [encode_cons, List.count_append, ih]
    by_cases lineEnd : c = '\n'
    · subst lineEnd
      rw [List.count_cons_self, Nat.add_comm]
      rfl
    · have none := List.count_eq_zero.mpr (mt mem_utf8EncodeChar_iff.mp lineEnd)
      rw [List.count_cons_of_ne lineEnd, none, Nat.zero_add]

theorem lineBehind_encode (text : List Char) :
    lineBehind (encode text) = (Position.behind text).line := by
  rw [lineBehind, count_encode, Nat.add_comm]
  rfl

theorem lastLine_append {bytes run : List UInt8} (inLine : 10 ∉ run) :
    lastLine (bytes ++ run) = lastLine bytes ++ run := by
  have kept : ∀ byte ∈ run.reverse, decide (byte ≠ 10) = true := by
    intro byte member
    refine decide_eq_true ?_
    rintro rfl
    exact inLine (List.mem_reverse.mp member)
  rw [lastLine, List.reverse_append, List.takeWhile_append_of_pos kept, List.reverse_append,
    List.reverse_reverse]
  rfl

/-- The last line can be cut off before or after reading. -/
theorem lastLine_encode (text : List Char) :
    lastLine (encode text) = encode (text.rtakeWhile (· ≠ '\n')) := by
  induction text using List.reverseRecOn with
  | nil => rfl
  | append_singleton text c ih =>
    rw [encode_append]
    by_cases lineEnd : c = '\n'
    · subst lineEnd
      rw [List.rtakeWhile_concat_neg _ _ _ (by decide)]
      have single : encode ['\n'] = [10] := by decide
      rw [single, lastLine, List.reverse_append]
      rfl
    · have inLine : 10 ∉ encode [c] := by
        rw [encode, List.flatMap_singleton]
        exact mt mem_utf8EncodeChar_iff.mp lineEnd
      rw [lastLine_append inLine, ih, ← encode_append,
        List.rtakeWhile_concat_pos (fun c => decide (c ≠ '\n')) _ c (decide_eq_true lineEnd)]

theorem columnBehind_encode (text : List Char) :
    columnBehind (encode text) = (Position.behind text).column := by
  rw [columnBehind, lastLine_encode, readLossy_encode, Nat.add_comm]
  rfl

end Text.Utf8

/-! ### The complaint -/

namespace TokenStream

open Text.Utf8

theorem decode_malformed {bytes : List UInt8} (malformed : ¬bytes.toByteArray.IsValidUTF8)
    (path : Path) :
    decode path bytes = .error ⟨.notUtf8, path, (Position.behind (read bytes).1).line,
      (Position.behind (read bytes).1).column⟩ := by
  rw [isValidUTF8_iff_read] at malformed
  have whole := encode_read bytes
  cases parted : read bytes with
  | mk text rest =>
    rw [parted] at whole malformed
    cases rest with
    | nil => exact absurd rfl malformed
    | cons byte more =>
      have front : bytes.take (bytes.length - (byte :: more).length) = encode text := by
        rw [← whole, List.length_append, Nat.add_sub_cancel, List.take_left]
      simp only [decode, parted, front, lineBehind_encode, columnBehind_encode]

/-- A file that is not well-formed is refused with the position at which a scanner ends that advances
through the longest beginning that is well-formed. -/
theorem malformed_text_is_reported_where_advancing_ends {bytes : List UInt8}
    (malformed : ¬bytes.toByteArray.IsValidUTF8) (files : Files) (search : Search) (path : Path) :
    ∃ text, IsLongestValid (encode text) bytes ∧
      let reached := (Scanner.ofText path text search).afterAll
        (List.replicate text.length .advance)
      reached.rest = [] ∧
      ∃ error, ofBytes files search path bytes = (.error error, search) ∧
        error.message = "invalid UTF-8 in source file" ∧ error.path = path ∧
        error.line = reached.here.line ∧ error.column = reached.here.column := by
  refine ⟨(read bytes).1, isLongestValid_read bytes, ?_⟩
  obtain ⟨ended, here⟩ := Scanner.afterAll_advance (.ofText path (read bytes).1 search)
  have here := here.trans (Position.start_through (read bytes).1)
  refine ⟨ended, ⟨.notUtf8, path, (Position.behind (read bytes).1).line,
    (Position.behind (read bytes).1).column⟩, ?_, rfl, rfl, congrArg Position.line here.symm,
    congrArg Position.column here.symm⟩
  rw [ofBytes, decode_malformed malformed path]

/-- A letter of two bytes and a carriage return in the second line, and then a character that is cut
off. -/
def cutOff : List UInt8 := "a\né\r".toUTF8.toList ++ [0xe2, 0x82]

theorem character_that_is_cut_off_is_reported_behind_its_line :
    ¬cutOff.toByteArray.IsValidUTF8 ∧
      ofBytes ⟨[], []⟩ ⟨[], []⟩ ⟨"/w/main.qd"⟩ cutOff =
        (.error ⟨.notUtf8, ⟨"/w/main.qd"⟩, 2, 3⟩, ⟨[], []⟩) ∧
      ∃ text, IsLongestValid (encode text) cutOff ∧
        let reached := (Scanner.ofText ⟨"/w/main.qd"⟩ text ⟨[], []⟩).afterAll
          (List.replicate text.length .advance)
        reached.rest = [] ∧ reached.here.line = 2 ∧ reached.here.column = 3 := by
  have malformed : ¬cutOff.toByteArray.IsValidUTF8 := by
    rw [isValidUTF8_iff_read]
    decide +kernel
  have answer : (ofBytes ⟨[], []⟩ ⟨[], []⟩ ⟨"/w/main.qd"⟩ cutOff).1 =
      .error ⟨.notUtf8, ⟨"/w/main.qd"⟩, 2, 3⟩ := by decide +kernel
  obtain ⟨text, longest, ended, error, failed, _, _, line, column⟩ :=
    malformed_text_is_reported_where_advancing_ends malformed ⟨[], []⟩ ⟨[], []⟩ ⟨"/w/main.qd"⟩
  rw [failed] at answer
  obtain rfl := Except.error.inj answer
  exact ⟨malformed, failed, text, longest, ended, line.symm, column.symm⟩

end TokenStream

end StackLang
