import StackLang.Module
import StackLang.SyntaxError
import StackLang.Token.Basic
import StackLang.Token.Lexeme

/-! Scanning a text into tokens, one at a time. A scanner holds the text still
to be read and its position; an import is looked up as soon as its name has
been read, so a scanner also holds the search for modules. -/
namespace StackLang

open Text (Position Span)

structure Scanner where
  path : Path
  rest : List Char
  here : Position := .start
  /-- The start of the token being read. -/
  mark : Position := .start
  /-- The next token is the name of a module. -/
  awaiting : Bool := false
  /-- The text goes on inside a block comment. -/
  commented : Bool := false
  imports : List Path := []
  search : Search

/-- A step of scanning keeps the scanner even if it fails. -/
abbrev Scanned (α : Type) := Except SyntaxError α × Scanner

namespace Scanner

def ofText (path : Path) (text : List Char) (search : Search) : Scanner :=
  { path, rest := text, search }

def span (scanner : Scanner) : Span := ⟨scanner.mark, scanner.here⟩

def consume (scanner : Scanner) (count : Nat) : Scanner :=
  { scanner with
    rest := scanner.rest.drop count
    here := scanner.here.through (scanner.rest.take count) }

def advance (scanner : Scanner) : Option Char × Scanner :=
  (scanner.rest.head?, scanner.consume 1)

/-- The character `ahead` characters behind the next one. -/
def peek? (scanner : Scanner) (ahead : Nat) : Option Char :=
  scanner.rest[ahead]?

/-- A token starts here. -/
def marked (scanner : Scanner) : Scanner :=
  { scanner with mark := scanner.here }

def complain (scanner : Scanner) (complaint : Complaint) : SyntaxError :=
  .atSpan complaint scanner.path (.point scanner.mark)

def token (scanner : Scanner) (kind : TokenKind) (literal : String) : Token :=
  ⟨kind, literal, scanner.span⟩

def take (scanner : Scanner) (reading : Lexeme.Reading) : Scanned Token :=
  match reading with
  | .token kind literal extent =>
    let behind := scanner.consume extent
    (.ok (behind.token kind (String.ofList literal)), behind)
  | .failure complaint extent =>
    let behind := scanner.consume extent
    (.error (behind.complain complaint), behind)

/-- A number whose first character has been read. -/
def number (scanner : Scanner) (first : Char) : Scanned Token :=
  scanner.take (Lexeme.readNumber first scanner.rest)

/-- A string whose opening quote has been read. -/
def string (scanner : Scanner) : Scanned Token :=
  scanner.take (Lexeme.readString scanner.rest)

/-- C code whose introducing word has been read. -/
def inlineC (scanner : Scanner) : Scanned Token :=
  scanner.take (Lexeme.readInlineC scanner.rest)

/-- The end of the block comment around the text, if it has one. -/
def commentEnd (scanner : Scanner) : Option Token × Scanner :=
  let content := { scanner with commented := false }
  match Lexeme.commentBody? content.rest with
  | none => (none, content.consume content.rest.length)
  | some body =>
    let behind := (content.consume body.length).marked.consume 2
    (some (behind.token .commentEnd "*/"), behind)

/-- A token that was awaited as the name of a module becomes the file it means. -/
def settle (scanner : Scanner) (files : Files) (token : Token) : Scanned Token :=
  if token.kind = .useWord then (.ok token, { scanner with awaiting := true })
  else if !scanner.awaiting then (.ok token, scanner)
  else
    let settled := { scanner with awaiting := false }
    if token.kind = .string || token.kind = .identifier then
      match settled.search.resolve files settled.path token.literal with
      | (.ok file, search) =>
        (.ok ⟨.module, file.text, token.span⟩,
          { settled with search, imports := settled.imports ++ [file] })
      | (.error failure, search) =>
        (.error (.atSpan (.moduleNotFound failure.name) settled.path token.span), { settled with search })
    else (.ok token, settled)

/-- Behind the beginning of a block comment the text goes on inside it. -/
def entering (scanner : Scanner) (token : Token) : Scanner :=
  { scanner with commented := token.kind == .commentBegin }

/-- The next token, or none at the end of the text. -/
def next (scanner : Scanner) (files : Files) : Scanned (Option Token) :=
  if scanner.commented then
    let (token, behind) := scanner.commentEnd
    (.ok token, behind)
  else
    let start := (scanner.consume (Lexeme.blanks false scanner.rest).length).marked
    match start.rest with
    | [] => (.ok none, start)
    | c :: text =>
      match (start.consume 1).take (Lexeme.read c text) with
      | (.error error, behind) => (.error error, behind)
      | (.ok token, behind) =>
        match (behind.entering token).settle files token with
        | (.error error, finished) => (.error error, finished)
        | (.ok settled, finished) => (.ok (some settled), finished)

theorem rest_consume (scanner : Scanner) (count : Nat) :
    (scanner.consume count).rest = scanner.rest.drop count := rfl

theorem rest_take_le (scanner : Scanner) (reading : Lexeme.Reading) :
    (scanner.take reading).2.rest.length ≤ scanner.rest.length := by
  cases reading <;> simp only [take, rest_consume, List.length_drop] <;> omega

theorem rest_settle (scanner : Scanner) (files : Files) (token : Token) :
    (scanner.settle files token).2.rest = scanner.rest := by
  unfold settle
  dsimp only
  repeat' split
  all_goals rfl

theorem rest_commentEnd_lt (scanner : Scanner) (token : Token) (behind : Scanner)
    (found : scanner.commentEnd = (some token, behind)) :
    behind.rest.length < scanner.rest.length := by
  unfold commentEnd at found
  dsimp only at found
  split at found
  · cases found
  · next body closed =>
    have room := Lexeme.length_commentBody? closed
    cases found
    simp only [marked, rest_consume, List.length_drop]
    omega

/-- Every token takes at least one character of the text. -/
theorem rest_next_lt (scanner : Scanner) (files : Files) (token : Token) (behind : Scanner)
    (found : scanner.next files = (.ok (some token), behind)) :
    behind.rest.length < scanner.rest.length := by
  unfold next at found
  split at found
  · exact rest_commentEnd_lt scanner token behind (by simpa [Prod.ext_iff] using found)
  · dsimp only at found
    split at found
    · cases found
    · next c more started =>
      have begun : (scanner.rest.drop (Lexeme.blanks false scanner.rest).length).length =
          more.length + 1 := by
        rw [← rest_consume, ← List.length_cons, ← started]; rfl
      split at found
      · cases found
      · next read after scanned =>
        have kept := rest_take_le
          ((scanner.consume (Lexeme.blanks false scanner.rest).length).marked.consume 1)
          (Lexeme.read c more)
        rw [scanned] at kept
        split at found
        · cases found
        · next settled finished resolved =>
          have same := rest_settle (after.entering read) files read
          rw [resolved] at same
          cases found
          simp only [marked, rest_consume, List.length_drop] at kept begun
          simp only [entering] at same
          rw [same]
          omega

end Scanner

end StackLang
