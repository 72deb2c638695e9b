import StackLang.Proofs.Separation

/-! C code in a text. Behind the word that introduces it stands a block in braces, with nothing but
white space in front. There is one way at most to find where the block ends, since the code in it
closes all its own blocks; and if there is none, the scanner says whether the block was not opened
or not closed, at the word. -/
namespace StackLang

namespace Lexeme

/-- A text that starts with white space and a block in braces, with the code in the block and the
text behind it. -/
structure CodeBlock (text code rest : List Char) : Prop where
  balanced : Text.Balanced code
  parts : ∃ blank, (∀ c ∈ blank, Text.isWhiteSpace c = true) ∧
    text = blank ++ '\x7b' :: (code ++ '\x7d' :: rest)

/-- The first character that is no white space opens a block. -/
def OpensBlock (text : List Char) : Prop :=
  (text.dropWhile Text.isWhiteSpace).head? = some '\x7b'

section Blocks

variable {text code rest : List Char}

theorem CodeBlock.opens (block : CodeBlock text code rest) : OpensBlock text := by
  obtain ⟨blank, blanks, rfl⟩ := block.parts
  rw [OpensBlock, List.dropWhile_append_of_pos blanks]
  rfl

theorem CodeBlock.read (block : CodeBlock text code rest) :
    ∃ extent, readInlineC text = .token .inlineC code extent ∧ text.drop extent = rest := by
  obtain ⟨blank, blanks, parted⟩ := block.parts
  have whole : inlineText blank code ++ rest = text := by
    rw [parted]
    simp [inlineText]
  have made := readInlineC_of_block blanks block.balanced rest
  rw [whole] at made
  exact ⟨_, made, drop_length_of_append whole⟩

theorem codeBlock_of_readInlineC {kind : TokenKind} {extent : Nat}
    (made : readInlineC text = .token kind code extent) :
    kind = .inlineC ∧ CodeBlock text code (text.drop extent) := by
  obtain ⟨kind, balanced, blank, blanks, taken, _⟩ := readInlineC_iff.mp made
  refine ⟨kind, balanced, blank, blanks, ?_⟩
  calc text = text.take extent ++ text.drop extent := (List.take_append_drop extent text).symm
    _ = blank ++ '\x7b' :: (code ++ '\x7d' :: text.drop extent) := by
      rw [taken]
      simp [inlineText]

/-- The reader is a function of the text, so that the text is cut in one way only. -/
theorem CodeBlock.unique {code' rest' : List Char} (block : CodeBlock text code rest)
    (block' : CodeBlock text code' rest') : code = code' ∧ rest = rest' := by
  obtain ⟨extent, made, rfl⟩ := block.read
  obtain ⟨extent', made', rfl⟩ := block'.read
  obtain ⟨_, rfl, rfl⟩ := Reading.token.inj (made.symm.trans made')
  exact ⟨rfl, rfl⟩

/-- The characters that are tried behind the white space. -/
theorem drop_whiteSpace (text : List Char) :
    text.drop (text.takeWhile Text.isWhiteSpace).length = text.dropWhile Text.isWhiteSpace :=
  drop_length_of_append List.takeWhile_append_dropWhile

theorem readInlineC_of_not_opens (shut : ¬OpensBlock text) :
    ∃ extent, readInlineC text = .failure .inlineNotOpened extent := by
  rw [OpensBlock] at shut
  rw [readInlineC, drop_whiteSpace]
  cases behind : text.dropWhile Text.isWhiteSpace with
  | nil => exact ⟨_, rfl⟩
  | cons c inside =>
    have other : ¬c = '\x7b' := by simpa [behind] using shut
    exact ⟨_, if_neg other⟩

theorem readInlineC_of_opens (opens : OpensBlock text)
    (endless : ¬∃ code rest, CodeBlock text code rest) :
    ∃ extent, readInlineC text = .failure .inlineNotClosed extent := by
  obtain ⟨inside, behind⟩ := List.head?_eq_some_iff.mp opens
  have never : ∀ code extent, readInlineC text ≠ .token .inlineC code extent :=
    fun code extent made => endless ⟨code, _, (codeBlock_of_readInlineC made).2⟩
  rw [readInlineC, drop_whiteSpace, behind] at never ⊢
  dsimp only at never ⊢
  rw [if_pos rfl] at never ⊢
  cases closed : braced? 0 inside with
  | none => exact ⟨_, rfl⟩
  | some code =>
    rw [closed] at never
    exact absurd rfl (never _ _)

/-- The word before C code is read together with the block. -/
theorem read_inlineC (ended : ∀ c ∈ text.head?, isWordPart c = false) :
    read '_' ('_' :: 'c' :: text) = (readInlineC text).behind 2 := by
  have parts : ∀ c ∈ ['_', 'c'], isWordPart c = true := List.all_eq_true.mp rfl
  have word : wordTail ('_' :: 'c' :: text) = ['_', 'c'] := takeWhile_run parts ended
  rw [read_of_isWordStart (by decide), readWord, word]
  exact if_pos rfl

end Blocks

end Lexeme

namespace Scanner

open Lexeme (CodeBlock OpensBlock)

variable {scanner : Scanner} {files : Files}

/-- A token that is no name stays as it is, also where the name of a module is awaited. -/
theorem settle_unnamed (scanner : Scanner) (files : Files) (token : Token)
    (unnamed : token.kind ≠ .string ∧ token.kind ≠ .identifier) :
    ∃ finished, scanner.settle files token = (.ok token, finished) ∧
      finished.rest = scanner.rest := by
  have kept := scanner.rest_settle files token
  unfold settle at kept ⊢
  simp only [unnamed, decide_false, Bool.or_self, Bool.false_eq_true, if_false] at kept ⊢
  split_ifs at kept ⊢
  · exact ⟨_, rfl, kept⟩
  · exact ⟨_, rfl, kept⟩
  · exact ⟨_, rfl, kept⟩

/-- What is wrong with a lexeme is said at its first character. -/
theorem next_of_failure {first : Char} {more : List Char} {complaint : Complaint} {extent : Nat}
    (outside : scanner.commented = false) (starts : scanner.started.rest = first :: more)
    (read : Lexeme.read first more = .failure complaint extent) :
    ∃ behind, scanner.next files =
      (.error (.atSpan complaint scanner.path (.point scanner.started.here)), behind) := by
  rw [started] at starts
  rw [next, outside, if_neg Bool.false_ne_true]
  dsimp only
  rw [starts]
  dsimp only
  rw [read]
  exact ⟨_, rfl⟩

theorem fails_with_iff {error : SyntaxError} {behind : Scanner}
    (failed : scanner.next files = (.error error, behind)) (message : String) :
    (∃ error behind, scanner.next files = (.error error, behind) ∧ error.message = message) ↔
      error.message = message := by
  constructor
  · rintro ⟨error', behind', failed', rfl⟩
    cases failed.symm.trans failed'
    rfl
  · exact fun same => ⟨error, behind, failed, same⟩

section Blocks

variable {text : List Char} (files) (outside : scanner.commented = false)
  (starts : scanner.started.rest = '_' :: '_' :: 'c' :: text)
  (ended : ∀ c ∈ text.head?, Lexeme.isWordPart c = false)

include outside starts ended

theorem next_of_codeBlock {code rest : List Char} (block : CodeBlock text code rest) :
    ∃ token behind, scanner.next files = (.ok (some token), behind) ∧ token.kind = .inlineC ∧
      token.literal = String.ofList code ∧ behind.rest = rest := by
  obtain ⟨extent, made, left⟩ := block.read
  have read : Lexeme.read '_' ('_' :: 'c' :: text) = .token .inlineC code (2 + extent) := by
    rw [Lexeme.read_inlineC ended, made]
    rfl
  obtain ⟨finished, settled, kept⟩ := settle_unnamed
    { scanner.started.consume (2 + extent + 1) with
      commented := TokenKind.inlineC == .commentBegin } files
    ⟨.inlineC, String.ofList code,
      ⟨scanner.started.here, (scanner.started.consume (2 + extent + 1)).here⟩⟩
    (by simp)
  have width : 2 + extent + 1 = extent + 3 := by omega
  refine ⟨_, finished, next_of_read outside starts read settled, rfl, rfl, ?_⟩
  calc finished.rest = ('_' :: '_' :: 'c' :: text).drop (extent + 3) := by
        rw [kept, ← starts, ← width]
        rfl
    _ = text.drop extent := rfl
    _ = rest := left

theorem next_of_readInlineC {complaint : Complaint} {extent : Nat}
    (made : Lexeme.readInlineC text = .failure complaint extent) :
    ∃ behind, scanner.next files =
      (.error (.atSpan complaint scanner.path (.point scanner.started.here)), behind) := by
  have read : Lexeme.read '_' ('_' :: 'c' :: text) = .failure complaint (2 + extent) := by
    rw [Lexeme.read_inlineC ended, made]
    rfl
  exact next_of_failure outside starts read

/-- The three texts behind the word before C code: one that starts with a block, one in which no
block is opened, and one in which the block is never closed. -/
theorem next_inlineC_cases :
    (∃ code token behind, CodeBlock text code behind.rest ∧
      scanner.next files = (.ok (some token), behind) ∧ token.literal = String.ofList code) ∨
    (¬OpensBlock text ∧ ∃ behind, scanner.next files =
      (.error (.atSpan .inlineNotOpened scanner.path (.point scanner.started.here)), behind)) ∨
    ((OpensBlock text ∧ ¬∃ code rest, CodeBlock text code rest) ∧ ∃ behind, scanner.next files =
      (.error (.atSpan .inlineNotClosed scanner.path (.point scanner.started.here)), behind)) := by
  by_cases opens : OpensBlock text
  · by_cases ends : ∃ code rest, CodeBlock text code rest
    · obtain ⟨code, rest, block⟩ := ends
      obtain ⟨token, behind, found, _, literal, rfl⟩ :=
        next_of_codeBlock files outside starts ended block
      exact .inl ⟨code, token, behind, block, found, literal⟩
    · obtain ⟨extent, made⟩ := Lexeme.readInlineC_of_opens opens ends
      exact .inr (.inr ⟨⟨opens, ends⟩, next_of_readInlineC files outside starts ended made⟩)
  · obtain ⟨extent, made⟩ := Lexeme.readInlineC_of_not_opens opens
    exact .inr (.inl ⟨opens, next_of_readInlineC files outside starts ended made⟩)

end Blocks

/-- Behind the word before C code, the scanner makes a token of a block in braces and nothing else,
goes on right behind it, and otherwise complains at the first character of that word. -/
theorem inline_code_is_the_block_in_braces {text : List Char} (files : Files)
    (outside : scanner.commented = false)
    (starts : scanner.started.rest = '_' :: '_' :: 'c' :: text)
    (ended : ∀ c ∈ text.head?, Lexeme.isWordPart c = false) :
    (∀ code rest, (∃ token behind, scanner.next files = (.ok (some token), behind) ∧
        token.kind = .inlineC ∧ token.literal = String.ofList code ∧ behind.rest = rest) ↔
      CodeBlock text code rest) ∧
    (∀ code code' rest rest', CodeBlock text code rest → CodeBlock text code' rest' →
      code = code' ∧ rest = rest') ∧
    ((∃ error behind, scanner.next files = (.error error, behind) ∧
        error.message = "expected '\x7b' after '__c'") ↔ ¬OpensBlock text) ∧
    ((∃ error behind, scanner.next files = (.error error, behind) ∧
        error.message = "unterminated inline C block") ↔
      OpensBlock text ∧ ¬∃ code rest, CodeBlock text code rest) ∧
    ∀ error behind, scanner.next files = (.error error, behind) →
      error.path = scanner.path ∧ error.line = scanner.started.here.line ∧
        error.column = scanner.started.here.column := by
  have makes : ∀ code rest, CodeBlock text code rest →
      ∃ token behind, scanner.next files = (.ok (some token), behind) ∧ token.kind = .inlineC ∧
        token.literal = String.ofList code ∧ behind.rest = rest :=
    fun code rest => next_of_codeBlock files outside starts ended
  have one : ∀ code code' rest rest', CodeBlock text code rest → CodeBlock text code' rest' →
      code = code' ∧ rest = rest' := fun _ _ _ _ => CodeBlock.unique
  -- The step is known in each case, and with it either side of every equivalence.
  rcases next_inlineC_cases files outside starts ended with
    ⟨code, token, behind, block, found, literal⟩ | ⟨shut, behind, failed⟩ |
    ⟨⟨opens, endless⟩, behind, failed⟩
  · refine ⟨fun code' rest => ⟨?_, makes code' rest⟩, one, ?_, ?_, ?_⟩
    · rintro ⟨token', behind', found', _, literal', rfl⟩
      cases found.symm.trans found'
      cases String.ofList_injective (literal.symm.trans literal')
      exact block
    · simp [found, block.opens]
    · simp only [found, Prod.mk.injEq, reduceCtorEq, false_and, exists_false, false_iff, not_and]
      exact fun _ endless => endless ⟨_, _, block⟩
    · simp [found]
  · refine ⟨fun code rest => ⟨?_, makes code rest⟩, one, ?_, ?_, ?_⟩
    · simp [failed]
    · rw [fails_with_iff failed]
      exact iff_of_true rfl shut
    · have other : Complaint.inlineNotOpened.message ≠ "unterminated inline C block" := by decide
      rw [fails_with_iff failed]
      exact iff_of_false other fun opened => shut opened.1
    · intro error behind' failed'
      cases failed.symm.trans failed'
      exact ⟨rfl, rfl, rfl⟩
  · refine ⟨fun code rest => ⟨?_, makes code rest⟩, one, ?_, ?_, ?_⟩
    · simp [failed]
    · have other : Complaint.inlineNotClosed.message ≠ "expected '\x7b' after '__c'" := by decide
      rw [fails_with_iff failed]
      exact iff_of_false other fun shut => shut opens
    · rw [fails_with_iff failed]
      exact iff_of_true rfl ⟨opens, endless⟩
    · intro error behind' failed'
      cases failed.symm.trans failed'
      exact ⟨rfl, rfl, rfl⟩

/-- White space over two lines, a block in the block and a letter of two bytes. -/
theorem block_behind_a_line_break_is_inline_code :
    ∃ token behind,
      (ofText ⟨"/w/main.qd"⟩ " __c\n \x7bé\x7b\x7d\x7d;".toList ⟨[], []⟩).next ⟨[], []⟩ =
        (.ok (some token), behind) ∧ token.kind = .inlineC ∧
      token.literal = String.ofList "é\x7b\x7d".toList ∧ behind.rest = [';'] := by
  have ended : ∀ c ∈ "\n \x7bé\x7b\x7d\x7d;".toList.head?, Lexeme.isWordPart c = false := by
    intro c starts
    cases starts
    rfl
  refine ((inline_code_is_the_block_in_braces _ rfl rfl ended).1 _ _).mpr ?_
  exact ⟨Text.balanced_iff_nest?.mpr rfl, ['\n', ' '], List.all_eq_true.mp rfl, rfl⟩

end Scanner

end StackLang
