import StackLang.Text.Utf8
import StackLang.Token.Expansion
import StackLang.Token.Scanner

/-! The tokens of a whole file: its bytes are read as UTF-8, its directives
replaced, and the text scanned to its end. -/
namespace StackLang

open Text (Position Span)

/-- The tokens of a file, closed by an end of input, and the files it imports. -/
structure TokenStream where
  tokens : List Token
  imports : List Path
  deriving DecidableEq, Repr

namespace TokenStream

/-- The text of a file; the complaint stands behind the well-formed beginning. -/
def decode (path : Path) (bytes : List UInt8) : Except SyntaxError (List Char) :=
  match Text.Utf8.read bytes with
  | (text, []) => .ok text
  | (_, byte :: more) =>
    let valid := bytes.take (bytes.length - (byte :: more).length)
    .error ⟨.notUtf8, path, Text.Utf8.lineBehind valid, Text.Utf8.columnBehind valid⟩

def scanAll (files : Files) (scanner : Scanner) : Scanned (List Token) :=
  match _scanned : scanner.next files with
  | (.error error, behind) => (.error error, behind)
  | (.ok none, behind) => (.ok [], behind)
  | (.ok (some token), behind) =>
    match scanAll files behind with
    | (.error error, finished) => (.error error, finished)
    | (.ok tokens, finished) => (.ok (token :: tokens), finished)
termination_by scanner.rest.length
decreasing_by exact scanner.rest_next_lt files token behind _scanned

/-- The tokens of a text whose directives are replaced. -/
def ofText (files : Files) (search : Search) (path : Path) (text : List Char) :
    Except SyntaxError TokenStream × Search :=
  match scanAll files (.ofText path text search) with
  | (.error error, behind) => (.error error, behind.search)
  | (.ok tokens, behind) =>
    (.ok ⟨tokens ++ [⟨.endOfInput, "", .point behind.here⟩], behind.imports⟩, behind.search)

def ofBytes (files : Files) (search : Search) (path : Path) (bytes : List UInt8) :
    Except SyntaxError TokenStream × Search :=
  match decode path bytes with
  | .error error => (.error error, search)
  | .ok text => ofText files search path (Expansion.expand path text)

end TokenStream

end StackLang
