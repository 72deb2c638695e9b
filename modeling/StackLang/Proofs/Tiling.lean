import Mathlib.Data.List.Infix
import StackLang.Proofs.Lexemes
import StackLang.Proofs.Searching
import StackLang.Proofs.Slices

/-! Tokens tile the text. Between two tokens stand only blanks and line comments, behind the
beginning of a block comment its content up to the first end marker, and the text that a token covers
says what its literal is. A scanner knows how far it has gone into the text; each token it finds is
a step of that kind, and a file is scanned step by step to its end. -/
namespace StackLang

open String (utf8Len)
open Text (Position slice?)

namespace Lexeme

/-- What is skipped in front of a token, or in front of the end of the text: blanks, and a line
comment that goes on to the end of its line. -/
inductive Gap (behind : List Char) : List Char → Prop
  | none : Gap behind []
  | blank {c : Char} {rest : List Char} (blank : c = ' ' ∨ c = '\t' ∨ c = '\r')
    (more : Gap behind rest) : Gap behind (c :: rest)
  | comment {words : List Char} (inLine : '\n' ∉ words)
    (ends : behind.head? = none ∨ behind.head? = some '\n') : Gap behind ('/' :: '/' :: words)

theorem blanks_comment (text : List Char) : ∃ behind, blanks true text ++ behind = text ∧
    '\n' ∉ blanks true text ∧ (behind.head? = none ∨ behind.head? = some '\n') := by
  induction text with
  | nil => exact ⟨[], rfl, List.not_mem_nil, .inl rfl⟩
  | cons c text ih =>
    obtain ⟨behind, parted, inLine, ends⟩ := ih
    rw [blanks, if_pos rfl]
    split_ifs with lineEnd
    · exact ⟨c :: text, rfl, List.not_mem_nil, .inr (congrArg some lineEnd)⟩
    · refine ⟨behind, congrArg (c :: ·) parted, ?_, ends⟩
      rw [List.mem_cons, not_or]
      exact ⟨Ne.symm lineEnd, inLine⟩

theorem blanks_gap (text : List Char) :
    ∃ behind, blanks false text ++ behind = text ∧ Gap behind (blanks false text) := by
  induction text with
  | nil => exact ⟨[], rfl, .none⟩
  | cons c text ih =>
    rw [blanks, if_neg Bool.false_ne_true]
    split_ifs with blank comment
    · obtain ⟨behind, parted, gap⟩ := ih
      refine ⟨behind, congrArg (c :: ·) parted, .blank ?_ gap⟩
      simpa [isBlank, or_assoc] using blank
    · obtain ⟨slash, more⟩ : c = '/' ∧ text.head? = some '/' := by simpa using comment
      obtain ⟨words, rfl⟩ := List.head?_eq_some_iff.mp more
      obtain ⟨behind, parted, inLine, ends⟩ := blanks_comment words
      have skipped : blanks true ('/' :: words) = '/' :: blanks true words := rfl
      rw [slash, skipped]
      exact ⟨behind, congrArg ('/' :: '/' :: ·) parted, .comment inLine ends⟩
    · exact ⟨c :: text, rfl, .none⟩

/-- The content of a block comment goes up to the first end marker. -/
theorem commentBody?_some {text body : List Char} (closed : commentBody? text = some body) :
    (∃ behind, body ++ (['*', '/'] ++ behind) = text) ∧ ¬ ['*', '/'] <:+: body ++ ['*'] := by
  fun_induction commentBody? text generalizing body with
  | case1 behind =>
    cases closed
    exact ⟨⟨behind, rfl⟩, by decide⟩
  | case2 c rest other ih =>
    obtain ⟨inner, found, rfl⟩ := Option.map_eq_some_iff.mp closed
    obtain ⟨⟨behind, parted⟩, never⟩ := ih found
    refine ⟨⟨behind, congrArg (c :: ·) parted⟩, ?_⟩
    rw [List.cons_append, List.infix_cons_iff, not_or]
    refine ⟨?_, never⟩
    rw [List.cons_prefix_cons]
    rintro ⟨rfl, slash⟩
    cases inner with
    | nil => exact absurd slash (by decide)
    | cons first inner =>
      rw [List.cons_append, List.cons_prefix_cons] at slash
      obtain ⟨rfl, _⟩ := slash
      exact other _ rfl parted.symm
  | case3 => cases closed

theorem commentBody?_none {text : List Char} (unclosed : commentBody? text = none) :
    ¬ ['*', '/'] <:+: text := by
  fun_induction commentBody? text with
  | case1 => cases unclosed
  | case2 c rest other ih =>
    rw [List.infix_cons_iff, not_or]
    refine ⟨?_, ih (Option.map_eq_none_iff.mp unclosed)⟩
    rw [List.cons_prefix_cons]
    rintro ⟨rfl, slash⟩
    cases rest with
    | nil => exact absurd slash (by decide)
    | cons first rest =>
      rw [List.cons_prefix_cons] at slash
      obtain ⟨rfl, _⟩ := slash
      exact other rest rfl rfl
  | case3 => decide

theorem read_ne_commentEnd {first : Char} {text literal : List Char} {kind : TokenKind}
    {extent : Nat} (made : read first text = .token kind literal extent) : kind ≠ .commentEnd := by
  rintro rfl
  obtain ⟨rfl, _⟩ := List.cons.inj (spelled_of_read made).told
  cases made

end Lexeme

/-! ### The tiling of a text -/

/-- What stands between an offset and the token that comes next, in or outside of a comment. -/
inductive Leads (text : List Char) (place : Nat) (next : Token) : Bool → Prop
  | gap {gap behind : List Char} (cut : slice? text place next.span.start.offset = some gap)
    (more : slice? text next.span.start.offset (utf8Len text) = some behind)
    (skipped : Lexeme.Gap behind gap) (outside : next.kind ≠ .commentEnd) : Leads text place next false
  | closed {content : List Char} (cut : slice? text place next.span.start.offset = some content)
    (first : ¬ ['*', '/'] <:+: content ++ ['*']) (ends : next.kind = .commentEnd) :
    Leads text place next true
  | unclosed {content : List Char} (cut : slice? text place next.span.start.offset = some content)
    (never : ¬ ['*', '/'] <:+: content) (ends : next.kind = .endOfInput) :
    Leads text place next true

/-- What the characters under a token say: they spell it, or they spell the name of a module and the
token is the file that is found for it. -/
inductive Means (files : Files) (search : Search) (path : Path) (token : Token)
    (lexeme : List Char) : Prop
  | lexeme (spelled : Lexeme.Spelled token.kind lexeme (Lexeme.contentOf token.kind lexeme))
    (literal : token.literal = String.ofList (Lexeme.contentOf token.kind lexeme))
  | module {kind : TokenKind} {file : Path} (named : kind = .string ∨ kind = .identifier)
    (spelled : Lexeme.Spelled kind lexeme (Lexeme.contentOf kind lexeme))
    (found : (search.resolve files path (String.ofList (Lexeme.contentOf kind lexeme))).1 = .ok file)
    (imported : token.kind = .module) (literal : token.literal = file.text)

/-- Tokens that cover a text from an offset to its end, with what they mean. -/
inductive Tiled (means : Token → List Char → Prop) (text : List Char) :
    Nat → Bool → List Token → Prop
  | ended {place : Nat} {commented : Bool} {last : Token}
    (leads : Leads text place last commented) (kind : last.kind = .endOfInput)
    (literal : last.literal = "") (start : last.span.start.offset = utf8Len text)
    (stop : last.span.stop.offset = utf8Len text) : Tiled means text place commented [last]
  | token {place : Nat} {commented : Bool} {token : Token} {others : List Token}
    {lexeme : List Char} (leads : Leads text place token commented)
    (inside : token.kind ≠ .endOfInput) (nonempty : lexeme ≠ [])
    (covers : slice? text token.span.start.offset token.span.stop.offset = some lexeme)
    (meaning : means token lexeme)
    (more : Tiled means text token.span.stop.offset (token.kind == .commentBegin) others) :
    Tiled means text place commented (token :: others)

section Order

variable {means : Token → List Char → Prop} {text : List Char} {place : Nat} {commented : Bool}
  {tokens : List Token}

theorem Leads.place_le {next : Token} (leads : Leads text place next commented) :
    place ≤ next.span.start.offset := by
  cases leads with
  | gap cut => exact Text.le_of_slice? cut
  | closed cut => exact Text.le_of_slice? cut
  | unclosed cut => exact Text.le_of_slice? cut

theorem Tiled.covers (tiled : Tiled means text place commented tokens) :
    ∀ token ∈ tokens, token.kind ≠ .endOfInput → ∃ lexeme, lexeme ≠ [] ∧
      slice? text token.span.start.offset token.span.stop.offset = some lexeme ∧
      means token lexeme := by
  induction tiled with
  | ended _ kind => simp [kind]
  | token _ _ nonempty covers meaning _ ih =>
    exact List.forall_mem_cons.mpr ⟨fun _ => ⟨_, nonempty, covers, meaning⟩, ih⟩

theorem Tiled.place_le (tiled : Tiled means text place commented tokens) :
    ∀ token ∈ tokens, place ≤ token.span.start.offset := by
  induction tiled with
  | ended leads => simpa using leads.place_le
  | token leads _ _ covers _ _ ih =>
    have behind := Text.le_of_slice? covers
    refine List.forall_mem_cons.mpr ⟨leads.place_le, ?_⟩
    intro later member
    exact leads.place_le.trans (behind.trans (ih later member))

/-- Tokens that tile a text are in order and do not overlap. -/
theorem Tiled.pairwise (tiled : Tiled means text place commented tokens) :
    tokens.Pairwise fun token later => token.span.stop.offset ≤ later.span.start.offset := by
  induction tiled with
  | ended => exact List.pairwise_singleton _ _
  | token _ _ _ _ _ more ih => exact List.pairwise_cons.mpr ⟨more.place_le, ih⟩

end Order

/-! ### A scanner in a text -/

namespace Scanner

theorem consume_consume (scanner : Scanner) (count more : Nat) :
    (scanner.consume count).consume more = scanner.consume (count + more) := by
  simp only [consume, List.drop_drop, List.take_add, Position.through_append]

theorem settle_keeps {scanner finished : Scanner} {files : Files} {token settled : Token}
    (done : scanner.settle files token = (.ok settled, finished)) :
    finished = { scanner with
      awaiting := finished.awaiting, imports := finished.imports, search := finished.search } := by
  unfold settle at done
  dsimp only at done
  repeat' split at done
  all_goals cases done
  all_goals rfl

/-- How far a scanner has gone into a text, and what it finds for the names of modules. -/
structure Reaches (files : Files) (search : Search) (path : Path) (text : List Char)
    (scanner : Scanner) : Prop where
  place : ∃ front, front ++ scanner.rest = text ∧ scanner.here = Position.start.through front
  file : scanner.path = path
  answers : ∀ name,
    (scanner.search.resolve files path name).1 = (search.resolve files path name).1

variable {files : Files} {search : Search} {path : Path} {text : List Char}
  {scanner behind : Scanner}

theorem reaches_ofText (files : Files) (search : Search) (path : Path) (text : List Char) :
    (ofText path text search).Reaches files search path text :=
  ⟨⟨[], rfl, rfl⟩, rfl, fun _ => rfl⟩

theorem Reaches.consume (reaches : scanner.Reaches files search path text) (count : Nat) :
    (scanner.consume count).Reaches files search path text := by
  obtain ⟨front, parted, here⟩ := reaches.place
  refine ⟨⟨front ++ scanner.rest.take count, ?_, ?_⟩, reaches.file, reaches.answers⟩
  · rw [List.append_assoc]
    simpa [Scanner.consume] using parted
  · rw [Position.through_append, ← here]
    rfl

/-- The characters that a scanner reads are those between its two positions. -/
theorem Reaches.cut (reaches : scanner.Reaches files search path text) (count : Nat) :
    slice? text scanner.here.offset (scanner.consume count).here.offset =
      some (scanner.rest.take count) := by
  obtain ⟨front, parted, here⟩ := reaches.place
  have split : front ++ (scanner.rest.take count ++ scanner.rest.drop count) = text := by
    rw [List.take_append_drop, parted]
  have stop : (scanner.consume count).here =
      Position.start.through (front ++ scanner.rest.take count) := by
    rw [Position.through_append, ← here]
    rfl
  rw [stop, here, Position.offset_start_through, Position.offset_start_through, ← split]
  exact Text.slice?_append _ _ _

theorem Reaches.offset_of_rest (reaches : scanner.Reaches files search path text)
    (ended : scanner.rest = []) : scanner.here.offset = utf8Len text := by
  obtain ⟨front, parted, here⟩ := reaches.place
  rw [ended, List.append_nil] at parted
  rw [here, parted, Position.offset_start_through]

/-- All that is still to be read stands between a scanner and the end of the text. -/
theorem Reaches.cut_rest (reaches : scanner.Reaches files search path text) :
    slice? text scanner.here.offset (utf8Len text) = some scanner.rest := by
  have cut := reaches.cut scanner.rest.length
  have ended : (scanner.consume scanner.rest.length).rest = [] := by simp [Scanner.consume]
  rwa [(reaches.consume _).offset_of_rest ended, List.take_length] at cut

theorem Reaches.marked (reaches : scanner.Reaches files search path text) :
    scanner.marked.Reaches files search path text :=
  ⟨reaches.place, reaches.file, reaches.answers⟩

structure Finds (files : Files) (search : Search) (path : Path) (text : List Char)
    (scanner : Scanner) (token : Token) (behind : Scanner) : Prop where
  leads : Leads text scanner.here.offset token scanner.commented
  inside : token.kind ≠ .endOfInput
  covers : ∃ lexeme, lexeme ≠ [] ∧
    slice? text token.span.start.offset token.span.stop.offset = some lexeme ∧
    Means files search path token lexeme
  reaches : behind.Reaches files search path text
  stop : behind.here = token.span.stop
  commented : behind.commented = (token.kind == .commentBegin)

theorem Reaches.finds_in_comment (reaches : scanner.Reaches files search path text)
    (commented : scanner.commented = true) {token : Token}
    (found : scanner.next files = (.ok (some token), behind)) :
    Finds files search path text scanner token behind := by
  rw [next, if_pos commented] at found
  dsimp only [commentEnd] at found
  split at found
  · cases found
  · next body closed =>
    obtain ⟨⟨rest, parted⟩, first⟩ := Lexeme.commentBody?_some closed
    have content : scanner.rest.take body.length = body :=
      Lexeme.take_length_of_append parted
    have marker : (scanner.consume body.length).rest.take 2 = ['*', '/'] := by
      rw [rest_consume, Lexeme.drop_length_of_append parted]
      rfl
    cases found
    refine ⟨?_, nofun, ⟨['*', '/'], nofun, ?_, .lexeme .commentEnd rfl⟩, ?_, rfl, rfl⟩
    · rw [commented]
      exact .closed ((reaches.cut body.length).trans (congrArg some content)) first rfl
    · exact ((reaches.consume body.length).cut 2).trans (congrArg some marker)
    · have there := (reaches.consume body.length).consume 2
      exact ⟨there.place, there.file, there.answers⟩

def started (scanner : Scanner) : Scanner :=
  (scanner.consume (Lexeme.blanks false scanner.rest).length).marked

/-- Outside of comments the next token is the lexeme behind the blanks, once it is settled. -/
theorem next_lexeme {token : Token} (outside : scanner.commented = false)
    (found : scanner.next files = (.ok (some token), behind)) :
    ∃ first more kind literal extent, scanner.started.rest = first :: more ∧
      Lexeme.read first more = .token kind literal extent ∧
      settle { scanner.started.consume (extent + 1) with commented := kind == .commentBegin } files
        ⟨kind, String.ofList literal,
          ⟨scanner.started.here, (scanner.started.consume (extent + 1)).here⟩⟩ =
        (.ok token, behind) := by
  rw [next, outside, if_neg Bool.false_ne_true] at found
  dsimp only at found
  split at found
  · cases found
  · next first more starts =>
    cases read : Lexeme.read first more with
    | failure => rw [read] at found; cases found
    | token kind literal extent =>
      rw [read] at found
      dsimp only [take] at found
      rw [consume_consume, Nat.add_comm 1] at found
      split at found
      · cases found
      · next settled finished done =>
        cases found
        exact ⟨first, more, kind, literal, extent, starts, read, done⟩

theorem Reaches.started (reaches : scanner.Reaches files search path text) :
    scanner.started.Reaches files search path text :=
  (reaches.consume _).marked

/-- Only blanks and line comments are skipped. -/
theorem Reaches.leads_started (reaches : scanner.Reaches files search path text) {token : Token}
    (starts : token.span.start = scanner.started.here) (outside : token.kind ≠ .commentEnd) :
    Leads text scanner.here.offset token false := by
  obtain ⟨rest, parted, gap⟩ := Lexeme.blanks_gap scanner.rest
  have cut := reaches.cut (Lexeme.blanks false scanner.rest).length
  rw [Lexeme.take_length_of_append parted] at cut
  have more : slice? text scanner.started.here.offset (utf8Len text) = some rest := by
    rw [reaches.started.cut_rest]
    exact congrArg some (Lexeme.drop_length_of_append parted)
  rw [← starts] at more
  refine .gap ?_ more gap outside
  rw [starts]
  exact cut

theorem Reaches.finds_lexeme (reaches : scanner.Reaches files search path text)
    (outside : scanner.commented = false) {token : Token}
    (found : scanner.next files = (.ok (some token), behind)) :
    Finds files search path text scanner token behind := by
  obtain ⟨first, more, kind, literal, extent, starts, read, done⟩ := next_lexeme outside found
  have spelled := Lexeme.spelled_of_read read
  have content := spelled.literal_eq
  have covers := reaches.started.cut (extent + 1)
  rw [starts, List.take_succ_cons] at covers
  have there := reaches.started.consume (extent + 1)
  have kept := settle_keeps done
  rcases settle_cases done with ⟨rfl, same⟩ | ⟨file, named, resolved, rfl⟩
  · refine ⟨?_, spelled.kind_ne.1, ⟨_, List.cons_ne_nil _ _, covers, ?_⟩, ?_, ?_, ?_⟩
    · rw [outside]
      exact reaches.leads_started rfl (Lexeme.read_ne_commentEnd read)
    · exact .lexeme (content ▸ spelled) (congrArg String.ofList content)
    · rw [kept, same]
      exact ⟨there.place, there.file, there.answers⟩
    · rw [kept]
    · rw [kept]
  · refine ⟨?_, nofun, ⟨_, List.cons_ne_nil _ _, covers, ?_⟩, ?_, ?_, ?_⟩
    · rw [outside]
      exact reaches.leads_started rfl nofun
    · refine .module named (content ▸ spelled) ?_ rfl rfl
      rw [← content, ← there.answers, ← there.file]
      exact congrArg Prod.fst resolved
    · rw [kept]
      refine ⟨there.place, there.file, ?_⟩
      intro name
      rw [← there.answers]
      have later := congrArg Prod.snd resolved
      dsimp only at later ⊢
      rw [← later, ← there.file]
      exact Search.resolve_behind _ files _ _ name
    · rw [kept]
    · rw [kept]
      have named : kind = .string ∨ kind = .identifier := named
      rcases named with rfl | rfl <;> rfl

theorem Reaches.finds (reaches : scanner.Reaches files search path text) {token : Token}
    (found : scanner.next files = (.ok (some token), behind)) :
    Finds files search path text scanner token behind := by
  cases commented : scanner.commented with
  | true => exact reaches.finds_in_comment commented found
  | false => exact reaches.finds_lexeme commented found

/-- A scanner that finds no token has come to the end of the text. -/
theorem Reaches.ends (reaches : scanner.Reaches files search path text)
    (found : scanner.next files = (.ok none, behind)) :
    behind.here.offset = utf8Len text ∧
      Leads text scanner.here.offset ⟨.endOfInput, "", .point behind.here⟩ scanner.commented := by
  cases commented : scanner.commented with
  | true =>
    rw [next, if_pos commented] at found
    dsimp only [commentEnd] at found
    split at found
    · next unclosed =>
      cases found
      have cut := reaches.cut scanner.rest.length
      rw [List.take_length] at cut
      have ended : (scanner.consume scanner.rest.length).rest = [] := by simp [Scanner.consume]
      refine ⟨(reaches.consume _).offset_of_rest ended, ?_⟩
      exact .unclosed cut (Lexeme.commentBody?_none unclosed) rfl
    · cases found
  | false =>
    have stopped : scanner.started.rest = [] ∧ behind = scanner.started := by
      rw [next, commented, if_neg Bool.false_ne_true] at found
      dsimp only at found
      split at found
      · next ended =>
        cases found
        exact ⟨ended, rfl⟩
      · repeat' split at found
        all_goals cases found
    obtain ⟨ended, rfl⟩ := stopped
    have outside : TokenKind.endOfInput ≠ .commentEnd := by decide
    exact ⟨reaches.started.offset_of_rest ended, reaches.leads_started rfl outside⟩

end Scanner

/-! ### The tokens of a file -/

namespace TokenStream

/-- A scanner tiles what it still has before it. -/
theorem tiled_of_scanAll {files : Files} {search : Search} {path : Path} {text : List Char}
    {scanner behind : Scanner} {tokens : List Token}
    (reaches : scanner.Reaches files search path text)
    (scanned : scanAll files scanner = (.ok tokens, behind)) :
    Tiled (Means files search path) text scanner.here.offset scanner.commented
      (tokens ++ [⟨.endOfInput, "", .point behind.here⟩]) := by
  fun_induction scanAll files scanner generalizing tokens behind with
  | case1 => cases scanned
  | case2 scanner last found =>
    cases scanned
    obtain ⟨ended, leads⟩ := reaches.ends found
    exact .ended leads rfl rfl ended ended
  | case3 => cases scanned
  | case4 scanner token rest found more finished others ih =>
    cases scanned
    have finds := reaches.finds found
    obtain ⟨lexeme, nonempty, covers, meaning⟩ := finds.covers
    refine .token finds.leads finds.inside nonempty covers meaning ?_
    rw [← finds.stop, ← finds.commented]
    exact ih finds.reaches others

theorem tiled_of_ofBytes {files : Files} {search later : Search} {path : Path}
    {bytes : List UInt8} {stream : TokenStream}
    (scanned : ofBytes files search path bytes = (.ok stream, later)) :
    ∃ source, decode path bytes = .ok source ∧
      Tiled (Means files search path) (Expansion.expand path source) 0 false stream.tokens := by
  unfold ofBytes at scanned
  split at scanned
  · cases scanned
  · next source read =>
    unfold ofText at scanned
    split at scanned
    · cases scanned
    · next tokens behind all =>
      cases scanned
      exact ⟨source, read, tiled_of_scanAll (Scanner.reaches_ofText files search path _) all⟩

/-- The tokens of a file cut its expanded text into pieces: each is read from its own stretch, only
blanks and comments are between them, none overlaps another, and only the end is empty. -/
theorem tokens_tile_the_text {files : Files} {search later : Search} {path : Path}
    {bytes : List UInt8} {stream : TokenStream}
    (scanned : ofBytes files search path bytes = (.ok stream, later)) :
    ∃ source, decode path bytes = .ok source ∧
      Tiled (Means files search path) (Expansion.expand path source) 0 false stream.tokens ∧
      (stream.tokens.Pairwise fun token later =>
        token.span.stop.offset ≤ later.span.start.offset) ∧
      ∀ token ∈ stream.tokens, token.kind ≠ .endOfInput →
        token.span.start.offset < token.span.stop.offset := by
  obtain ⟨source, read, tiled⟩ := tiled_of_ofBytes scanned
  refine ⟨source, read, tiled, tiled.pairwise, ?_⟩
  intro token member inside
  obtain ⟨lexeme, nonempty, covers, _⟩ := tiled.covers token member inside
  exact Text.lt_of_slice? covers nonempty

/-- A text with an import, comments, C code, a number that a word follows, and characters of two
bytes. -/
def motley : List UInt8 :=
  "use \"tool\"// é\n/* ü **/__c \x7b a\x7b\x7d \x7d -1.5e3x /* é".toUTF8.toList

theorem comment_that_is_not_closed_is_tiled :
    ∃ stream later source,
      ofBytes ⟨[], []⟩ ⟨[], [⟨⟨"/w"⟩, "tool", ⟨"/w/tool.qd"⟩⟩]⟩ ⟨"/w/main.qd"⟩ motley =
        (.ok stream, later) ∧
      decode ⟨"/w/main.qd"⟩ motley = .ok source ∧
      stream.tokens.map (fun token => (token.kind, token.literal, token.span.start.offset,
          token.span.stop.offset)) =
        [(.useWord, "use", 0, 3), (.module, "/w/tool.qd", 4, 10), (.newLine, "\n", 15, 16),
          (.commentBegin, "/*", 16, 18), (.commentEnd, "*/", 23, 25),
          (.inlineC, " a\x7b\x7d ", 25, 36), (.number, "-1.5e3", 37, 43), (.identifier, "x", 43, 44),
          (.commentBegin, "/*", 45, 47), (.endOfInput, "", 50, 50)] ∧
      Tiled (Means ⟨[], []⟩ ⟨[], [⟨⟨"/w"⟩, "tool", ⟨"/w/tool.qd"⟩⟩]⟩ ⟨"/w/main.qd"⟩)
        (Expansion.expand ⟨"/w/main.qd"⟩ source) 0 false stream.tokens := by
  have read : (do
      let stream ← (ofBytes ⟨[], []⟩ ⟨[], [⟨⟨"/w"⟩, "tool", ⟨"/w/tool.qd"⟩⟩]⟩ ⟨"/w/main.qd"⟩
        motley).1.toOption
      return stream.tokens.map (fun token => (token.kind, token.literal, token.span.start.offset,
        token.span.stop.offset))) =
      some [(.useWord, "use", 0, 3), (.module, "/w/tool.qd", 4, 10), (.newLine, "\n", 15, 16),
        (.commentBegin, "/*", 16, 18), (.commentEnd, "*/", 23, 25),
        (.inlineC, " a\x7b\x7d ", 25, 36), (.number, "-1.5e3", 37, 43), (.identifier, "x", 43, 44),
        (.commentBegin, "/*", 45, 47), (.endOfInput, "", 50, 50)] := by decide +kernel
  obtain ⟨stream, scanned, read⟩ := Option.bind_eq_some_iff.mp read
  have scanned : ofBytes ⟨[], []⟩ ⟨[], [⟨⟨"/w"⟩, "tool", ⟨"/w/tool.qd"⟩⟩]⟩ ⟨"/w/main.qd"⟩ motley =
      (.ok stream, _) := Prod.ext (Outcome.eq_ok_of_toOption scanned) rfl
  obtain ⟨source, decoded, tiled, _⟩ := tokens_tile_the_text scanned
  exact ⟨stream, _, source, scanned, decoded, Option.some.inj read, tiled⟩

end TokenStream

end StackLang
