import StackLang.Proofs.Tiling

/-! The places of tokens. Both ends of a token are positions that are reached by going through the
text from its start, so tokens that are in order by their bytes are in order by their lines and
columns as well. -/
namespace StackLang

open String (utf8Len)
open Text (Position Span)

/-! ### The order of positions -/

namespace Text

/-- A position is not behind another one, in bytes and in lines and columns. -/
instance : LE Position where
  le first second := first.offset ≤ second.offset ∧
    (first.line < second.line ∨ first.line = second.line ∧ first.column ≤ second.column)

namespace Position

theorem le_refl (place : Position) : place ≤ place :=
  ⟨Nat.le_refl _, .inr ⟨rfl, Nat.le_refl _⟩⟩

theorem le_trans {first second third : Position} (before : first ≤ second)
    (later : second ≤ third) : first ≤ third := by
  obtain ⟨offset, lines⟩ := before
  obtain ⟨offset', lines'⟩ := later
  exact ⟨by omega, by omega⟩

theorem le_past (place : Position) (c : Char) : place ≤ place.past c := by
  unfold past
  split
  · exact ⟨Nat.le_add_right _ _, .inl (Nat.lt_succ_self _)⟩
  · exact ⟨Nat.le_add_right _ _, .inr ⟨rfl, Nat.le_add_right _ _⟩⟩

theorem le_through (place : Position) (run : List Char) : place ≤ place.through run := by
  induction run generalizing place with
  | nil => exact le_refl place
  | cons c run ih => exact le_trans (le_past place c) (ih (place.past c))

/-- In one text, a position with fewer bytes before it is not behind one with more. -/
theorem le_of_offset_le {text front other : List Char} (starts : front <+: text)
    (starts' : other <+: text)
    (fewer : (start.through front).offset ≤ (start.through other).offset) :
    start.through front ≤ start.through other := by
  rcases List.prefix_or_prefix_of_prefix starts starts' with ⟨run, rfl⟩ | ⟨run, rfl⟩
  · rw [through_append]
    exact le_through _ run
  · rw [offset_start_through, offset_start_through, String.utf8Len_append] at fewer
    have none : utf8Len run = 0 := by omega
    obtain rfl : run = [] := by
      cases run with
      | nil => rfl
      | cons c run =>
        have size := c.utf8Size_pos
        rw [String.utf8Len_cons] at none
        omega
    rw [List.append_nil]
    exact le_refl _

end Position

end Text

def StandsIn (text : List Char) (token : Token) : Prop :=
  ∃ front lexeme back, text = front ++ (lexeme ++ back) ∧
    token.span = ⟨Position.start.through front, Position.start.through (front ++ lexeme)⟩

theorem StandsIn.start_le_stop {text : List Char} {token : Token} (stands : StandsIn text token) :
    token.span.start ≤ token.span.stop := by
  obtain ⟨front, lexeme, back, _, placed⟩ := stands
  rw [placed, Position.through_append]
  exact Position.le_through _ lexeme

theorem StandsIn.le_of_offset_le {text : List Char} {token later : Token}
    (stands : StandsIn text token) (stands' : StandsIn text later)
    (ordered : token.span.stop.offset ≤ later.span.start.offset) :
    token.span.stop ≤ later.span.start := by
  obtain ⟨front, lexeme, back, whole, placed⟩ := stands
  obtain ⟨front', lexeme', back', whole', placed'⟩ := stands'
  rw [placed, placed'] at ordered ⊢
  refine Position.le_of_offset_le ⟨back, ?_⟩ ⟨lexeme' ++ back', whole'.symm⟩ ordered
  rw [whole, List.append_assoc]

namespace Scanner

variable {files : Files} {search : Search} {path : Path} {text : List Char}
  {scanner behind : Scanner} {token : Token}

/-- What a scanner reads stands behind what it has read before. -/
theorem Reaches.stands (reaches : scanner.Reaches files search path text) (count : Nat)
    (read : token.span = ⟨scanner.here, (scanner.consume count).here⟩) : StandsIn text token := by
  obtain ⟨front, parted, here⟩ := reaches.place
  refine ⟨front, scanner.rest.take count, scanner.rest.drop count, ?_, ?_⟩
  · rw [List.take_append_drop, parted]
  · rw [read, Position.through_append, ← here]
    rfl

theorem Reaches.stands_next (reaches : scanner.Reaches files search path text)
    (found : scanner.next files = (.ok (some token), behind)) : StandsIn text token := by
  cases commented : scanner.commented with
  | true =>
    rw [next, if_pos commented] at found
    dsimp only [commentEnd] at found
    split at found
    · cases found
    · next body closed =>
      cases found
      exact (reaches.consume body.length).stands 2 rfl
  | false =>
    obtain ⟨first, more, kind, literal, extent, _, _, done⟩ := next_lexeme commented found
    rcases settle_cases done with ⟨rfl, _⟩ | ⟨file, _, _, rfl⟩
    · exact reaches.started.stands (extent + 1) rfl
    · exact reaches.started.stands (extent + 1) rfl

/-- The end of input stands where the scanner has come to in the end. -/
theorem Reaches.stands_end (reaches : scanner.Reaches files search path text)
    (found : scanner.next files = (.ok none, behind)) :
    StandsIn text ⟨.endOfInput, "", .point behind.here⟩ := by
  rw [next] at found
  split at found
  · dsimp only [commentEnd] at found
    split at found <;> cases found
    exact (reaches.consume scanner.rest.length).stands 0 rfl
  · dsimp only at found
    repeat' split at found
    all_goals cases found
    exact reaches.started.stands 0 rfl

end Scanner

namespace TokenStream

variable {files : Files} {search later : Search} {path : Path} {bytes : List UInt8}
  {stream : TokenStream}

theorem stands_of_scanAll {text : List Char} {scanner behind : Scanner} {tokens : List Token}
    (reaches : scanner.Reaches files search path text)
    (scanned : scanAll files scanner = (.ok tokens, behind)) :
    ∀ token ∈ tokens ++ [⟨.endOfInput, "", .point behind.here⟩], StandsIn text token := by
  fun_induction scanAll files scanner generalizing tokens behind with
  | case1 => cases scanned
  | case2 scanner last found =>
    cases scanned
    exact List.forall_mem_singleton.mpr (reaches.stands_end found)
  | case3 => cases scanned
  | case4 scanner token rest found more finished others ih =>
    cases scanned
    have later := ih (reaches.finds found).reaches others
    exact List.forall_mem_cons.mpr ⟨reaches.stands_next found, later⟩

theorem stands_of_ofBytes {source : List Char} (read : decode path bytes = .ok source)
    (scanned : ofBytes files search path bytes = (.ok stream, later)) :
    ∀ token ∈ stream.tokens, StandsIn (Expansion.expand path source) token := by
  rw [ofBytes, read] at scanned
  dsimp only [ofText] at scanned
  split at scanned
  · cases scanned
  · next tokens behind all =>
    cases scanned
    exact stands_of_scanAll (Scanner.reaches_ofText files search path _) all

/-- The tokens of a file are in order, and every one ends behind its start. -/
theorem ordered_of_ofBytes (scanned : ofBytes files search path bytes = (.ok stream, later)) :
    (stream.tokens.Pairwise fun token next => token.span.stop ≤ next.span.start) ∧
      ∀ token ∈ stream.tokens, token.span.start ≤ token.span.stop := by
  obtain ⟨source, read, tiled⟩ := tiled_of_ofBytes scanned
  have stands := stands_of_ofBytes read scanned
  refine ⟨?_, fun token member => (stands token member).start_le_stop⟩
  refine tiled.pairwise.imp_of_mem ?_
  intro token next member member' ordered
  exact (stands token member).le_of_offset_le (stands next member') ordered

theorem nonempty_of_ofBytes (scanned : ofBytes files search path bytes = (.ok stream, later)) :
    ∀ token ∈ stream.tokens, token.kind ≠ .endOfInput →
      token.span.start.offset < token.span.stop.offset := by
  obtain ⟨source, _, tiled⟩ := tiled_of_ofBytes scanned
  intro token member inside
  obtain ⟨lexeme, nonempty, covers, _⟩ := tiled.covers token member inside
  exact Text.lt_of_slice? covers nonempty

end TokenStream

end StackLang
