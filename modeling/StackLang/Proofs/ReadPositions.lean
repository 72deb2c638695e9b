import Mathlib.Data.List.DropRight
import StackLang.Proofs.Slices
import StackLang.Token.Scanner

/-! The positions of a scanner are those of the text it has read. Whatever a scanner is asked for,
in any order and whether it succeeds or not, it reads some of the characters before it and counts
them as it goes, and the token it is at starts at a place where it has been before. -/
namespace StackLang

open String (utf8Len)
open Text (Position)

/-! ### The position behind a text -/

namespace Text.Position

/-- The position behind a text: its line ends, the characters behind the last of them, and its
bytes. -/
def behind (text : List Char) : Position where
  line := 1 + text.count '\n'
  column := 1 + (text.rtakeWhile (· ≠ '\n')).length
  offset := utf8Len text

theorem past_behind (text : List Char) (c : Char) :
    (behind text).past c = behind (text ++ [c]) := by
  rw [past]
  split
  · next lineEnd =>
    subst lineEnd
    simp only [behind, List.count_append, List.count_singleton_self, String.utf8Len_append]
    rw [List.rtakeWhile_concat_neg _ _ _ (by decide)]
    rfl
  · next inLine =>
    have kept : decide (c ≠ '\n') = true := decide_eq_true inLine
    have none : List.count '\n' [c] = 0 := List.count_eq_zero.mpr (by simpa using Ne.symm inLine)
    simp only [behind, List.count_append, none, String.utf8Len_append, String.utf8Len_cons,
      String.utf8Len_nil, Nat.zero_add]
    rw [List.rtakeWhile_concat_pos (fun c => decide (c ≠ '\n')) _ c kept, List.length_append]
    rfl

/-- Going through a text from its start leads behind it. -/
theorem start_through (text : List Char) : start.through text = behind text := by
  induction text using List.reverseRecOn with
  | nil => rfl
  | append_singleton text c ih => rw [through_append, ih, ← past_behind, through_cons, through_nil]

end Text.Position

namespace Scanner

/-! ### Moves of a scanner -/

/-- What a scanner can be asked for. The files are those that imports are looked up in, which may be
others from one token to the next. -/
inductive Move where
  | advance
  | peek (ahead : Nat)
  | next (files : Files)
  | number (first : Char)
  | string
  | inlineC

def after (scanner : Scanner) : Move → Scanner
  | .advance => scanner.advance.2
  | .peek _ => scanner
  | .next files => (scanner.next files).2
  | .number first => (scanner.number first).2
  | .string => scanner.string.2
  | .inlineC => scanner.inlineC.2

def afterAll (scanner : Scanner) (moves : List Move) : Scanner := moves.foldl after scanner

theorem afterAll_advance (scanner : Scanner) :
    (scanner.afterAll (List.replicate scanner.rest.length .advance)).rest = [] ∧
      (scanner.afterAll (List.replicate scanner.rest.length .advance)).here =
        scanner.here.through scanner.rest := by
  induction before : scanner.rest generalizing scanner with
  | nil => exact ⟨before, rfl⟩
  | cons c more ih =>
    have left : (scanner.consume 1).rest = more := by
      rw [rest_consume, before, List.drop_one, List.tail_cons]
    have passed : (scanner.consume 1).here = scanner.here.past c := by
      simp only [consume, before, List.take_succ_cons, List.take_zero, Position.through_cons,
        Position.through_nil]
    have rest := ih (scanner.consume 1) left
    rw [passed] at rest
    exact rest

/-- A scanner that has read the front of a text. Its token starts behind a part of that, where it
has been before. -/
structure HasRead (text front earlier : List Char) (scanner : Scanner) : Prop where
  whole : front ++ scanner.rest = text
  here : scanner.here = Position.start.through front
  begun : earlier <+: front
  mark : scanner.mark = Position.start.through earlier

def InText (text : List Char) (scanner : Scanner) : Prop :=
  ∃ front earlier, scanner.HasRead text front earlier

variable {text : List Char} {scanner : Scanner}

theorem inText_ofText (path : Path) (text : List Char) (search : Search) :
    (ofText path text search).InText text :=
  ⟨[], [], rfl, rfl, List.prefix_rfl, rfl⟩

theorem InText.consume (inText : scanner.InText text) (count : Nat) :
    (scanner.consume count).InText text := by
  obtain ⟨front, earlier, read⟩ := inText
  refine ⟨front ++ scanner.rest.take count, earlier, ?_, ?_, ?_, read.mark⟩
  · rw [rest_consume, List.append_assoc, List.take_append_drop, read.whole]
  · rw [Position.through_append, ← read.here]
    rfl
  · exact read.begun.trans (List.prefix_append _ _)

theorem InText.marked (inText : scanner.InText text) : scanner.marked.InText text := by
  obtain ⟨front, earlier, read⟩ := inText
  exact ⟨front, front, read.whole, read.here, List.prefix_rfl, read.here⟩

/-- Only the text before a scanner and its two positions matter. -/
theorem InText.congr (inText : scanner.InText text) {other : Scanner}
    (rest : other.rest = scanner.rest) (here : other.here = scanner.here)
    (mark : other.mark = scanner.mark) : other.InText text := by
  obtain ⟨front, earlier, read⟩ := inText
  exact ⟨front, earlier, rest ▸ read.whole, here ▸ read.here, read.begun, mark ▸ read.mark⟩

theorem InText.take (inText : scanner.InText text) (reading : Lexeme.Reading) :
    (scanner.take reading).2.InText text := by
  cases reading with
  | token kind literal extent => exact inText.consume extent
  | failure complaint extent => exact inText.consume extent

theorem InText.commentEnd (inText : scanner.InText text) : scanner.commentEnd.2.InText text := by
  have content : InText text { scanner with commented := false } := inText.congr rfl rfl rfl
  dsimp only [Scanner.commentEnd]
  split
  · exact content.consume _
  · exact ((content.consume _).marked).consume 2

/-- Looking up an import moves nothing. -/
theorem InText.settle (inText : scanner.InText text) (files : Files) (token : Token) :
    (scanner.settle files token).2.InText text := by
  unfold Scanner.settle
  dsimp only
  repeat' split
  all_goals exact inText.congr rfl rfl rfl

theorem InText.next (inText : scanner.InText text) (files : Files) :
    (scanner.next files).2.InText text := by
  unfold Scanner.next
  split
  · exact inText.commentEnd
  · have start := (inText.consume (Lexeme.blanks false scanner.rest).length).marked
    dsimp only
    split
    · exact start
    · next c more _ =>
      have taken := (start.consume 1).take (Lexeme.read c more)
      split
      · next failed =>
        rw [failed] at taken
        exact taken
      · next token behind scanned =>
        rw [scanned] at taken
        have entered : (behind.entering token).InText text := taken.congr rfl rfl rfl
        have settled := entered.settle files token
        split
        · next failed =>
          rw [failed] at settled
          exact settled
        · next done =>
          rw [done] at settled
          exact settled

/-- No move leaves the text. -/
theorem InText.after (inText : scanner.InText text) (move : Move) :
    (scanner.after move).InText text := by
  cases move with
  | advance => exact inText.consume 1
  | peek => exact inText
  | next files => exact inText.next files
  | number first => exact inText.take _
  | string => exact inText.take _
  | inlineC => exact inText.take _

theorem InText.afterAll (inText : scanner.InText text) (moves : List Move) :
    (scanner.afterAll moves).InText text := by
  induction moves generalizing scanner with
  | nil => exact inText
  | cons move moves ih => exact ih (inText.after move)

/-- However a scanner is moved, it is at the position behind the text it has read, and its mark is at
the position behind a beginning of that text. -/
theorem positions_are_those_of_the_text_read (path : Path) (text : List Char) (search : Search)
    (moves : List Move) :
    let scanner := (ofText path text search).afterAll moves
    ∃ front, front ++ scanner.rest = text ∧ scanner.here = .behind front ∧
      ∃ earlier, earlier <+: front ∧ scanner.mark = .behind earlier := by
  obtain ⟨front, earlier, read⟩ := (inText_ofText path text search).afterAll moves
  refine ⟨front, read.whole, ?_, earlier, read.begun, ?_⟩
  · rw [read.here, Position.start_through]
  · rw [read.mark, Position.start_through]

-- C code that does not start takes a character, and a string that does not end all others.
example :
    ((ofText ⟨"/w"⟩ "(é\nü".toList ⟨[], []⟩).afterAll
      [.next ⟨[], []⟩, .inlineC, .string]).span = ⟨⟨1, 1, 0⟩, ⟨2, 2, 6⟩⟩ := by decide

end Scanner

end StackLang
