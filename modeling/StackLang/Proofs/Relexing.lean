import StackLang.Proofs.Tiling

/-! Tokens read on their own. A lexeme was found with the text around it in sight: what follows a
number, a colon or a word decides where it ends. Cut out of that text and given to a fresh scanner,
it is the same token again and nothing besides. -/
namespace StackLang

open Text (Position slice?)

namespace Scanner

/-- A scanner with nothing left to read finds no token. -/
theorem next_of_rest {scanner : Scanner} (ended : scanner.rest = []) (files : Files) :
    ∃ behind, scanner.next files = (.ok none, behind) := by
  rw [next, commentEnd]
  cases scanner.commented with
  | true => simp [ended, Lexeme.commentBody?]
  | false => simp [ended, Lexeme.blanks, marked, rest_consume]

theorem settle_of_not_awaiting (scanner : Scanner) (idle : scanner.awaiting = false)
    (files : Files) (token : Token) :
    ∃ finished, scanner.settle files token = (.ok token, finished) ∧
      finished.rest = scanner.rest := by
  have kept := scanner.rest_settle files token
  unfold settle at kept ⊢
  simp only [idle, Bool.not_false, if_true] at kept ⊢
  split_ifs at kept ⊢ with importing
  · exact ⟨_, rfl, kept⟩
  · exact ⟨_, rfl, kept⟩

/-- The lexeme behind the blanks is the next token, if nothing is wrong with it once it is settled. -/
theorem next_of_read {scanner finished : Scanner} {files : Files} {first : Char}
    {more literal : List Char} {kind : TokenKind} {extent : Nat} {token : Token}
    (outside : scanner.commented = false) (starts : scanner.started.rest = first :: more)
    (read : Lexeme.read first more = .token kind literal extent)
    (settled : settle { scanner.started.consume (extent + 1) with
      commented := kind == .commentBegin } files
        ⟨kind, String.ofList literal,
          ⟨scanner.started.here, (scanner.started.consume (extent + 1)).here⟩⟩ =
        (.ok token, finished)) :
    scanner.next files = (.ok (some token), finished) := by
  rw [started] at starts
  rw [next, outside, if_neg Bool.false_ne_true]
  dsimp only
  rw [starts]
  dsimp only
  rw [read]
  dsimp only [take]
  rw [consume_consume, Nat.add_comm 1]
  exact settled ▸ rfl

theorem next_ofText {kind : TokenKind} {first : Char} {tail literal : List Char}
    (spelled : Lexeme.Spelled kind (first :: tail) literal) (outside : kind ≠ .commentEnd)
    (files : Files) (search : Search) (path : Path) :
    ∃ behind, (ofText path (first :: tail) search).next files =
        (.ok (some ⟨kind, String.ofList literal,
          ⟨.start, Position.start.through (first :: tail)⟩⟩), behind) ∧
      behind.rest = [] := by
  obtain ⟨extent, read, whole⟩ := Lexeme.read_of_spelled spelled outside
  have taken : (first :: tail).take (extent + 1) = first :: tail :=
    List.take_of_length_le (Nat.succ_le_succ whole)
  have left : (first :: tail).drop (extent + 1) = [] :=
    List.drop_of_length_le (Nat.succ_le_succ whole)
  have fresh : (ofText path (first :: tail) search).started =
      ofText path (first :: tail) search := by
    have text : (ofText path (first :: tail) search).rest = first :: tail := rfl
    rw [started, text, Lexeme.blanks_of_read read]
    rfl
  have here : ((ofText path (first :: tail) search).started.consume (extent + 1)).here =
      Position.start.through (first :: tail) := by
    rw [fresh]
    exact congrArg Position.start.through taken
  obtain ⟨finished, settled, rest⟩ := settle_of_not_awaiting
    { (ofText path (first :: tail) search).started.consume (extent + 1) with
      commented := kind == .commentBegin } rfl files
    ⟨kind, String.ofList literal, ⟨.start, Position.start.through (first :: tail)⟩⟩
  refine ⟨finished, next_of_read rfl (congrArg Scanner.rest fresh) read ?_, ?_⟩
  · have start : (ofText path (first :: tail) search).started.here = .start :=
      congrArg Scanner.here fresh
    rw [start, here]
    exact settled
  · rw [rest, fresh]
    exact left

end Scanner

namespace TokenStream

theorem scanAll_lexeme {kind : TokenKind} {lexeme literal : List Char}
    (spelled : Lexeme.Spelled kind lexeme literal) (nonempty : lexeme ≠ [])
    (outside : kind ≠ .commentEnd) (files : Files) (search : Search) (path : Path) :
    ∃ behind, scanAll files (.ofText path lexeme search) =
      (.ok [⟨kind, String.ofList literal, ⟨.start, Position.start.through lexeme⟩⟩], behind) := by
  obtain ⟨first, tail, rfl⟩ := List.exists_cons_of_ne_nil nonempty
  obtain ⟨behind, found, ended⟩ := Scanner.next_ofText spelled outside files search path
  obtain ⟨finished, nothing⟩ := Scanner.next_of_rest ended files
  refine ⟨finished, ?_⟩
  have rest : scanAll files behind = (.ok [], finished) := by
    rw [scanAll_eq, nothing]
  rw [scanAll_eq, found]
  dsimp only
  rw [rest]

/-- The stretch of a token is read as the same single token on its own, whatever the files, the path
and the search. The end of the text, imports and the ends of comments are left out. -/
theorem tokens_are_read_alike_on_their_own {files : Files} {search later : Search} {path : Path}
    {bytes : List UInt8} {stream : TokenStream}
    (scanned : ofBytes files search path bytes = (.ok stream, later)) :
    ∃ source, decode path bytes = .ok source ∧ ∀ token ∈ stream.tokens,
      token.kind ∉ [.endOfInput, .module, .commentEnd] →
      ∃ lexeme, slice? (Expansion.expand path source) token.span.start.offset
          token.span.stop.offset = some lexeme ∧
        ∀ files' search' path', ∃ behind,
          scanAll files' (.ofText path' lexeme search') =
            (.ok [⟨token.kind, token.literal, ⟨.start, Position.start.through lexeme⟩⟩], behind) := by
  obtain ⟨source, read, tiled⟩ := tiled_of_ofBytes scanned
  refine ⟨source, read, ?_⟩
  intro token member plain
  simp only [List.mem_cons, List.not_mem_nil, or_false, not_or] at plain
  obtain ⟨inside, imported, outside⟩ := plain
  obtain ⟨lexeme, nonempty, covers, meaning⟩ := tiled.covers token member inside
  refine ⟨lexeme, covers, ?_⟩
  intro files' search' path'
  cases meaning with
  | lexeme spelled literal =>
    rw [literal]
    exact scanAll_lexeme spelled nonempty outside files' search' path'
  | module _ _ _ found => exact absurd found imported

theorem number_that_a_word_follows_is_read_alike :
    ∃ stream later source,
      ofBytes ⟨[], []⟩ ⟨[], []⟩ ⟨"/w/main.qd"⟩ "-1.5e3x:::\"é".toUTF8.toList = (.ok stream, later) ∧
      decode ⟨"/w/main.qd"⟩ "-1.5e3x:::\"é".toUTF8.toList = .ok source ∧
      stream.tokens.map (fun token => (token.kind, token.literal)) =
        [(.number, "-1.5e3"), (.identifier, "x"), (.doubleColon, "::"), (.colon, ":"),
          (.string, "é"), (.endOfInput, "")] ∧
      ∀ token ∈ stream.tokens.dropLast, ∃ lexeme,
        slice? (Expansion.expand ⟨"/w/main.qd"⟩ source) token.span.start.offset
          token.span.stop.offset = some lexeme ∧
        ∀ files search path, ∃ behind, scanAll files (.ofText path lexeme search) =
          (.ok [⟨token.kind, token.literal, ⟨.start, Position.start.through lexeme⟩⟩], behind) := by
  have read : (do
      let stream ← (ofBytes ⟨[], []⟩ ⟨[], []⟩ ⟨"/w/main.qd"⟩
        "-1.5e3x:::\"é".toUTF8.toList).1.toOption
      return (stream.tokens.map (fun token => (token.kind, token.literal)),
        stream.tokens.dropLast.map Token.kind)) =
      some ([(.number, "-1.5e3"), (.identifier, "x"), (.doubleColon, "::"), (.colon, ":"),
        (.string, "é"), (.endOfInput, "")], [.number, .identifier, .doubleColon, .colon, .string]) := by
    decide +kernel
  obtain ⟨stream, scanned, read⟩ := Option.bind_eq_some_iff.mp read
  obtain ⟨tokens, kinds⟩ := Prod.mk.inj (Option.some.inj read)
  have scanned : ofBytes ⟨[], []⟩ ⟨[], []⟩ ⟨"/w/main.qd"⟩ "-1.5e3x:::\"é".toUTF8.toList =
      (.ok stream, _) := Prod.ext (Outcome.eq_ok_of_toOption scanned) rfl
  obtain ⟨source, decoded, alike⟩ := tokens_are_read_alike_on_their_own scanned
  refine ⟨stream, _, source, scanned, decoded, tokens, ?_⟩
  intro token member
  apply alike token (List.mem_of_mem_dropLast member)
  have kind : token.kind ∈ [.number, .identifier, .doubleColon, .colon, .string] := by
    rw [← kinds]
    exact List.mem_map_of_mem member
  have plain : ∀ kind ∈ [TokenKind.number, .identifier, .doubleColon, .colon, .string],
      kind ∉ [.endOfInput, .module, .commentEnd] := by decide
  exact plain _ kind

end TokenStream

end StackLang
