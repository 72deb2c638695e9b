import StackLang.Proofs.FileDirective
import StackLang.Proofs.ImportHeaders
import StackLang.Proofs.Spellings

/-! Texts that differ in their blanks. The lexemes of a text are cut out of it and written down
again with one blank between two of them: what was skipped before, line comments and the contents of
block comments included, is gone, and blanks stand where there were none. The tokens are the
same. -/
namespace StackLang

open Text (Position slice?)

namespace Lexeme

theorem extent_le_of_readWord {first : Char} {text literal : List Char} {kind : TokenKind}
    {extent : Nat} (made : readWord first text = .token kind literal extent) :
    extent ≤ text.length := by
  have tail : (wordTail text).length ≤ text.length := (List.takeWhile_prefix _).length_le
  unfold readWord at made
  dsimp only at made
  split_ifs at made with inline
  · obtain ⟨width, code, rfl⟩ := behind_eq_token.mp made
    obtain ⟨_, _, blank, _, taken, size⟩ := readInlineC_iff.mp code
    have room : width ≤ (text.drop (wordTail text).length).length := by
      rw [size, ← taken]
      exact (List.take_prefix _ _).length_le
    rw [List.length_drop] at room
    omega
  · cases made
    exact tail

/-- Only a string can take the end of the text along. -/
theorem extent_le_of_read {first : Char} {text literal : List Char} {kind : TokenKind}
    {extent : Nat} (other : first ≠ '"')
    (made : read first text = .token kind literal extent) : extent ≤ text.length := by
  have one {c : Char} (second : text.head? = some c) : 1 ≤ text.length := by
    obtain ⟨rest, rfl⟩ := List.head?_eq_some_iff.mp second
    exact Nat.succ_le_succ (Nat.zero_le _)
  unfold read at made
  split at made
  · cases made
    exact Nat.zero_le _
  · split_ifs at made with colon twice comment numeric starts
    · cases made
      exact one twice
    · cases made
      exact Nat.zero_le _
    · cases made
      exact one (by simpa using (Bool.and_eq_true_iff.mp comment).2)
    · cases made
      obtain ⟨_, _, behind, _, parted, _⟩ := numberTail_parts text
      exact List.IsPrefix.length_le ⟨behind, parted⟩
    · exact extent_le_of_readWord made

/-- A lexeme is read alike if what follows it is cut off. -/
theorem read_cut {first : Char} {text literal : List Char} {kind : TokenKind} {extent : Nat}
    (made : read first text = .token kind literal extent) (inside : extent ≤ text.length) :
    read first (text.take extent) = .token kind literal extent := by
  have length : (text.take extent).length = extent := List.length_take_of_le inside
  by_cases quote : first = '"'
  · subst quote
    have whole : readString (text.take extent ++ text.drop extent) =
        .token kind literal extent := by
      rw [List.take_append_drop]
      exact made
    exact ((readString_append_iff (text.drop extent)).mp ⟨whole, length.ge⟩).1
  · obtain ⟨width, again, covered⟩ :=
      read_of_spelled (spelled_of_read made) (read_ne_commentEnd made)
    have room := extent_le_of_read quote again
    obtain rfl : width = extent := by omega
    exact again

/-- A lexeme is read alike in front of a separator, or at the end of a text if it ended there. -/
theorem read_respaced {first : Char} {text literal more : List Char} {kind : TokenKind}
    {extent : Nat} (made : read first text = .token kind literal extent)
    (apart : ∀ c ∈ more.head?, separates c = true ∧ extent ≤ text.length) :
    read first (text.take extent ++ more) = .token kind literal extent := by
  cases more with
  | nil =>
    rw [List.append_nil]
    rcases Nat.le_total extent text.length with inside | beyond
    · exact read_cut made inside
    · rwa [List.take_of_length_le beyond]
  | cons d rest =>
    obtain ⟨apart, inside⟩ := apart d rfl
    have length : (text.take extent).length = extent := List.length_take_of_le inside
    exact ((read_append_iff apart rest).mpr ⟨read_cut made inside, length.ge⟩).1

theorem drop_respaced {text more : List Char} {extent : Nat}
    (inside : ∀ c ∈ more.head?, extent ≤ text.length) :
    (text.take extent ++ more).drop extent = more := by
  cases more with
  | nil =>
    rw [List.append_nil, List.drop_eq_nil_iff]
    exact List.length_take_le _ _
  | cons d rest => exact List.drop_left' (List.length_take_of_le (inside d rfl))

/-- A comment that holds nothing but blanks. -/
theorem commentBody?_blanks {run : List Char} (blank : ∀ c ∈ run, isBlank c = true)
    (more : List Char) : commentBody? (run ++ '*' :: '/' :: more) = some run := by
  induction run with
  | nil => rfl
  | cons c run ih =>
    obtain ⟨first, others⟩ := List.forall_mem_cons.mp blank
    rw [List.cons_append, commentBody?.eq_2, ih others]
    · rfl
    · rintro _ rfl
      exact absurd first (by decide)

/-- What stands between the first of some words and the others: a blank, or nothing if there are no
others. -/
theorem intercalate_blank (word : List Char) (words : List (List Char)) :
    ∃ gap, [' '].intercalate (word :: words) = word ++ (gap ++ [' '].intercalate words) ∧
      (∀ c ∈ gap, isBlank c = true) ∧ (words = [] → gap = []) ∧
      ∀ c ∈ (gap ++ [' '].intercalate words).head?, c = ' ' ∧ words ≠ [] := by
  cases words with
  | nil => exact ⟨[], by simp [List.intercalate], by simp, fun _ => rfl, by simp [List.intercalate]⟩
  | cons other words =>
    refine ⟨[' '], ?_, List.forall_mem_singleton.mpr rfl, by simp, by simp⟩
    simp [List.intercalate]

end Lexeme

namespace Scanner

/-- Scanners of one file that are in the same mode and find the same files, whatever they have
before them. -/
structure InStep (files : Files) (scanner other : Scanner) : Prop where
  path : other.path = scanner.path
  awaiting : other.awaiting = scanner.awaiting
  commented : other.commented = scanner.commented
  imports : other.imports = scanner.imports
  answers : ∀ name, (other.search.resolve files scanner.path name).1 =
    (scanner.search.resolve files scanner.path name).1

variable {files : Files} {scanner other behind : Scanner} {token : Token}

theorem InStep.settle (step : InStep files scanner other) {token' settled : Token}
    (same : token'.content = token.content)
    (done : scanner.settle files token = (.ok settled, behind)) :
    ∃ settled' behind', other.settle files token' = (.ok settled', behind') ∧
      settled'.content = settled.content ∧ InStep files behind behind' := by
  obtain ⟨kind, literal⟩ := Prod.mk.inj same
  unfold Scanner.settle at done ⊢
  rw [kind, literal, step.awaiting]
  dsimp only at done ⊢
  rw [step.path]
  split_ifs at done ⊢ with importing idle named
  · cases done
    exact ⟨_, _, rfl, same, rfl, rfl, step.commented, step.imports, step.answers⟩
  · cases done
    exact ⟨_, _, rfl, same, step⟩
  · split at done
    · next file search found =>
      cases done
      have answer : (other.search.resolve files scanner.path token.literal).1 = .ok file := by
        rw [step.answers, found]
      obtain ⟨search', found'⟩ : ∃ search', other.search.resolve files scanner.path token.literal =
          (.ok file, search') := ⟨_, Prod.ext answer rfl⟩
      have learned := scanner.search.resolve_behind files scanner.path token.literal
      have learned' := other.search.resolve_behind files scanner.path token.literal
      rw [found] at learned
      rw [found'] at learned'
      rw [found']
      refine ⟨_, _, rfl, rfl, rfl, rfl, step.commented, ?_, ?_⟩
      · exact congrArg (· ++ _) step.imports
      · intro name
        exact (learned' name).trans ((step.answers name).trans (learned name).symm)
    · cases done
  · cases done
    exact ⟨_, _, rfl, same, rfl, rfl, step.commented, step.imports, step.answers⟩

/-- A lexeme that makes a token of the same kind and literal wherever it stands, if there are only
blanks in front of it and a separator behind it. At the end of a text it makes that token even if
it was not closed. -/
def Recurs (files : Files) (scanner : Scanner) (token : Token) (behind : Scanner)
    (lexeme : List Char) : Prop :=
  ∀ other run more, InStep files scanner other → (∀ c ∈ run, Lexeme.isBlank c = true) →
    other.rest = run ++ (lexeme ++ more) →
    (∀ c ∈ more.head?, Lexeme.separates c = true ∧ behind.rest ≠ []) →
    ∃ token' behind', other.next files = (.ok (some token'), behind') ∧
      token'.content = token.content ∧ InStep files behind behind' ∧ behind'.rest = more

variable {search : Search} {path : Path} {text : List Char}

theorem Reaches.recurs_in_comment (reaches : scanner.Reaches files search path text)
    (commented : scanner.commented = true)
    (found : scanner.next files = (.ok (some token), behind)) :
    ∃ lexeme, slice? text token.span.start.offset token.span.stop.offset = some lexeme ∧
      Recurs files scanner token behind lexeme := by
  obtain ⟨body, closed, rfl, rfl⟩ := (next_comment_iff commented).mp found
  obtain ⟨⟨rest, parted⟩, _⟩ := Lexeme.commentBody?_some closed
  have marker : (scanner.consume body.length).rest.take 2 = ['*', '/'] := by
    rw [rest_consume, Lexeme.drop_length_of_append parted]
    rfl
  refine ⟨['*', '/'], ((reaches.consume body.length).cut 2).trans (congrArg some marker), ?_⟩
  intro other run more step blank starts _
  have closed' : Lexeme.commentBody? other.rest = some run := by
    rw [starts]
    exact Lexeme.commentBody?_blanks blank more
  have commented' : other.commented = true := step.commented.trans commented
  refine ⟨_, _, (next_comment_iff commented').mpr ⟨run, closed', rfl, rfl⟩, rfl, ?_, ?_⟩
  · exact ⟨step.path, step.awaiting, rfl, step.imports, step.answers⟩
  · have left : other.rest.drop run.length = '*' :: '/' :: more := by
      rw [starts, List.drop_left]
      rfl
    exact congrArg (List.drop 2) left

/-- Blanks are skipped up to a lexeme. -/
theorem rest_started {first : Char} {run more literal : List Char} {kind : TokenKind} {extent : Nat}
    (blank : ∀ c ∈ run, Lexeme.isBlank c = true) (starts : scanner.rest = run ++ first :: more)
    (read : Lexeme.read first more = .token kind literal extent) :
    scanner.started.rest = first :: more := by
  have skipped : Lexeme.blanks false scanner.rest = run := by
    rw [starts, Lexeme.blanks_run blank, Lexeme.blanks_of_read read, List.append_nil]
  have left : scanner.started.rest = scanner.rest.drop run.length := by
    rw [started, skipped]
    rfl
  rw [left, starts, List.drop_left]

theorem rest_settled {first : Char} {tail literal : List Char} {kind : TokenKind} {extent : Nat}
    (starts : scanner.started.rest = first :: tail)
    (done : settle { scanner.started.consume (extent + 1) with commented := kind == .commentBegin }
        files ⟨kind, String.ofList literal,
          ⟨scanner.started.here, (scanner.started.consume (extent + 1)).here⟩⟩ =
        (.ok token, behind)) : behind.rest = tail.drop extent := by
  have kept : behind.rest = (scanner.started.consume (extent + 1)).rest := by
    rw [settle_keeps done]
  exact kept.trans (congrArg (List.drop (extent + 1)) starts)

theorem Reaches.recurs_lexeme (reaches : scanner.Reaches files search path text)
    (outside : scanner.commented = false)
    (found : scanner.next files = (.ok (some token), behind)) :
    ∃ lexeme, slice? text token.span.start.offset token.span.stop.offset = some lexeme ∧
      Recurs files scanner token behind lexeme := by
  obtain ⟨first, tail, kind, literal, extent, starts, read, done⟩ := next_lexeme outside found
  have covers := reaches.started.cut (extent + 1)
  rw [starts, List.take_succ_cons] at covers
  have span : token.span =
      ⟨scanner.started.here, (scanner.started.consume (extent + 1)).here⟩ := by
    rcases settle_cases done with ⟨rfl, _⟩ | ⟨_, _, _, rfl⟩ <;> rfl
  refine ⟨first :: tail.take extent, by rw [span]; exact covers, ?_⟩
  intro other run more step blank starts' apart
  have closed : ∀ c ∈ more.head?, Lexeme.separates c = true ∧ extent ≤ tail.length := by
    intro c member
    obtain ⟨separates, unread⟩ := apart c member
    rw [rest_settled starts done, ne_eq, List.drop_eq_nil_iff] at unread
    exact ⟨separates, by omega⟩
  have read' : Lexeme.read first (tail.take extent ++ more) = .token kind literal extent :=
    Lexeme.read_respaced read closed
  have starts' : other.started.rest = first :: (tail.take extent ++ more) :=
    rest_started blank starts' read'
  have begun : InStep files
      { scanner.started.consume (extent + 1) with commented := kind == .commentBegin }
      { other.started.consume (extent + 1) with commented := kind == .commentBegin } :=
    ⟨step.path, step.awaiting, rfl, step.imports, step.answers⟩
  have content : Token.content ⟨kind, String.ofList literal,
        ⟨other.started.here, (other.started.consume (extent + 1)).here⟩⟩ =
      Token.content ⟨kind, String.ofList literal,
        ⟨scanner.started.here, (scanner.started.consume (extent + 1)).here⟩⟩ := rfl
  obtain ⟨settled, finished, done', same, step'⟩ := begun.settle content done
  have outside' : other.commented = false := step.commented.trans outside
  refine ⟨settled, finished, next_of_read outside' starts' read' done', same, step', ?_⟩
  rw [rest_settled starts' done']
  exact Lexeme.drop_respaced fun c member => (closed c member).2

theorem Reaches.recurs (reaches : scanner.Reaches files search path text)
    (found : scanner.next files = (.ok (some token), behind)) :
    ∃ lexeme, slice? text token.span.start.offset token.span.stop.offset = some lexeme ∧
      Recurs files scanner token behind lexeme := by
  cases commented : scanner.commented with
  | true => exact reaches.recurs_in_comment commented found
  | false => exact reaches.recurs_lexeme commented found

end Scanner

namespace TokenStream

open Scanner (InStep)

variable {files : Files} {search : Search} {path : Path} {text : List Char}
  {scanner behind : Scanner}

/-- No token is found at the end of a text. -/
theorem eq_nil_of_scanAll {tokens : List Token} (ended : scanner.rest = [])
    (scanned : scanAll files scanner = (.ok tokens, behind)) : tokens = [] := by
  obtain ⟨last, found⟩ := Scanner.next_of_rest ended files
  rw [scanAll_eq, found] at scanned
  cases scanned
  rfl

/-- The lexemes that a scanner still finds, written down with one blank between two of them. -/
theorem scanAll_respaced {tokens : List Token} (reaches : scanner.Reaches files search path text)
    (scanned : scanAll files scanner = (.ok tokens, behind)) :
    ∃ lexemes, tokens.mapM (fun token =>
        slice? text token.span.start.offset token.span.stop.offset) = some lexemes ∧
      ∀ other run, InStep files scanner other → (∀ c ∈ run, Lexeme.isBlank c = true) →
        (lexemes = [] → run = []) → other.rest = run ++ [' '].intercalate lexemes →
        ∃ tokens' finished, scanAll files other = (.ok tokens', finished) ∧
          tokens'.map Token.content = tokens.map Token.content ∧
          finished.imports = behind.imports := by
  induction tokens generalizing scanner with
  | nil =>
    have found := next_of_scanAll_nil scanned
    refine ⟨[], rfl, ?_⟩
    intro other run step _ empty starts
    have ended : other.rest = [] := by
      rw [starts, empty rfl]
      rfl
    obtain ⟨finished, nothing⟩ := Scanner.next_of_rest ended files
    refine ⟨[], finished, by rw [scanAll_eq, nothing], rfl, ?_⟩
    rw [Scanner.imports_of_none nothing, Scanner.imports_of_none found, step.imports]
  | cons token tokens ih =>
    obtain ⟨middle, found, others⟩ := next_of_scanAll_cons scanned
    obtain ⟨lexeme, covers, recurs⟩ := reaches.recurs found
    obtain ⟨lexemes, cut, again⟩ := ih (reaches.finds found).reaches others
    refine ⟨lexeme :: lexemes, ?_, ?_⟩
    · rw [List.mapM_cons, covers, cut]
      rfl
    · intro other run step blank _ starts
      obtain ⟨gap, parted, blank', empty, apart⟩ := Lexeme.intercalate_blank lexeme lexemes
      rw [parted] at starts
      -- A lexeme that took the end of the text along is the last one.
      have unread : lexemes ≠ [] → middle.rest ≠ [] := by
        intro more ended
        obtain rfl := eq_nil_of_scanAll ended others
        exact more (Option.some.inj cut).symm
      obtain ⟨token', middle', found', same, step', left⟩ := recurs other run _ step blank starts
        fun c member => by
          obtain ⟨rfl, more⟩ := apart c member
          exact ⟨rfl, unread more⟩
      obtain ⟨tokens', finished, scanned', others', imports⟩ :=
        again middle' gap step' blank' empty left
      refine ⟨token' :: tokens', finished, ?_, ?_, imports⟩
      · rw [scanAll_eq, found']
        dsimp only
        rw [scanned']
      · rw [List.map_cons, List.map_cons, same, others']

/-- Scanning a text does not change what a name means in it. -/
theorem answers_of_scanAll {tokens : List Token} (reaches : scanner.Reaches files search path text)
    (scanned : scanAll files scanner = (.ok tokens, behind)) (name : String) :
    (behind.search.resolve files path name).1 = (search.resolve files path name).1 := by
  induction tokens generalizing scanner with
  | nil =>
    rw [← reaches.answers, ← reaches.file]
    rcases Scanner.search_next (next_of_scanAll_nil scanned) with same | ⟨other, learned⟩
    · rw [same]
    · rw [learned, Search.resolve_behind]
  | cons token tokens ih =>
    obtain ⟨middle, found, others⟩ := next_of_scanAll_cons scanned
    exact ih (reaches.finds found).reaches others

/-- A text that is scanned without complaint can be written down lexeme by lexeme with one blank
between two of them. It is scanned again into tokens of the same kinds and literals, with the search
as it was or as it is now, and with any other one of the same roots that remembers nothing false. -/
theorem tokens_do_not_depend_on_blanks {tokens : List Token}
    (scanned : scanAll files (.ofText path text search) = (.ok tokens, behind)) :
    ∃ lexemes, tokens.mapM (fun token =>
        slice? text token.span.start.offset token.span.stop.offset) = some lexemes ∧
      ∀ other, (other = search ∨ other = behind.search ∨
          ∃ roots, search.Truthful files roots ∧ other.Truthful files roots) →
        ∃ tokens' finished,
          scanAll files (.ofText path ([' '].intercalate lexemes) other) = (.ok tokens', finished) ∧
          tokens'.map Token.content = tokens.map Token.content ∧
          finished.imports = behind.imports := by
  have reaches := Scanner.reaches_ofText files search path text
  obtain ⟨lexemes, cut, again⟩ := scanAll_respaced reaches scanned
  refine ⟨lexemes, cut, ?_⟩
  intro other related
  have answers (name : String) :
      (other.resolve files path name).1 = (search.resolve files path name).1 := by
    rcases related with rfl | rfl | ⟨roots, truthful, truthful'⟩
    · rfl
    · exact answers_of_scanAll reaches scanned name
    · rw [(truthful.resolve path name).1, (truthful'.resolve path name).1]
  exact again (.ofText path ([' '].intercalate lexemes) other) [] ⟨rfl, rfl, rfl, rfl, answers⟩
    (by simp) (fun _ => rfl) rfl

/-- A text with hardly a blank in it: an import, a line comment and a block comment, C code, a
number that a word follows, colons, and a string that is not closed. -/
def crowded : List Char :=
  "use tool// é\n/* ü **/__c\x7b a\x7b\x7d \x7d-1.5x::y:\"open".toList

theorem crowded_text_is_respaced :
    ∃ tokens finished, scanAll ⟨[], []⟩ (.ofText ⟨"/w/main.qd"⟩
        "use tool \n /* */ __c\x7b a\x7b\x7d \x7d -1.5 x :: y : \"open".toList
        ⟨[], [⟨⟨"/w"⟩, "tool", ⟨"/w/tool.qd"⟩⟩]⟩) = (.ok tokens, finished) ∧
      tokens.map Token.content =
        [(.useWord, "use"), (.module, "/w/tool.qd"), (.newLine, "\n"), (.commentBegin, "/*"),
          (.commentEnd, "*/"), (.inlineC, " a\x7b\x7d "), (.number, "-1.5"), (.identifier, "x"),
          (.doubleColon, "::"), (.identifier, "y"), (.colon, ":"), (.string, "open")] := by
  have read : (scanAll ⟨[], []⟩ (.ofText ⟨"/w/main.qd"⟩ crowded
      ⟨[], [⟨⟨"/w"⟩, "tool", ⟨"/w/tool.qd"⟩⟩]⟩)).1.toOption.map (fun tokens =>
        (tokens.map Token.content, (tokens.mapM fun token =>
          slice? crowded token.span.start.offset token.span.stop.offset).map
            [' '].intercalate)) =
      some ([(.useWord, "use"), (.module, "/w/tool.qd"), (.newLine, "\n"), (.commentBegin, "/*"),
          (.commentEnd, "*/"), (.inlineC, " a\x7b\x7d "), (.number, "-1.5"), (.identifier, "x"),
          (.doubleColon, "::"), (.identifier, "y"), (.colon, ":"), (.string, "open")],
        some "use tool \n /* */ __c\x7b a\x7b\x7d \x7d -1.5 x :: y : \"open".toList) := by
    decide +kernel
  obtain ⟨tokens, accepted, seen⟩ := Option.map_eq_some_iff.mp read
  obtain ⟨contents, joined⟩ := Prod.mk.inj seen
  obtain ⟨lexemes, cut, again⟩ := tokens_do_not_depend_on_blanks
    (Prod.ext (Outcome.eq_ok_of_toOption accepted) rfl)
  obtain ⟨tokens', finished, scanned, same, _⟩ := again _ (.inl rfl)
  rw [cut] at joined
  rw [Option.some.inj joined] at scanned
  exact ⟨tokens', finished, scanned, same.trans contents⟩

end TokenStream

end StackLang
