import StackLang.Files.Basic
import StackLang.Text.Source
import StackLang.Text.Utf8

/-! Diagnostics and their text: a line that says where something is wrong and what, and
the line of the source it is about with a mark below the column. -/
namespace StackLang

open Text (Source)

structure Diagnostic where
  message : String
  path : Option String := none
  line : Nat := 0
  column : Nat := 0
  deriving DecidableEq, Repr

namespace Diagnostic

def place? (diagnostic : Diagnostic) : Option String :=
  if 0 < diagnostic.line then diagnostic.path else none

def isLocated (diagnostic : Diagnostic) : Bool := diagnostic.place?.isSome

/-- What stands in front of the word that tells how bad it is. -/
def location (diagnostic : Diagnostic) : String :=
  match diagnostic.place? with
  | some path =>
    path ++ ":" ++ toString diagnostic.line ++ ":" ++ toString diagnostic.column ++ ":"
  | none => "quadrate:"

def severity : String := "error:"

def text (diagnostic : Diagnostic) : String :=
  diagnostic.location ++ " " ++ severity ++ " " ++ diagnostic.message

end Diagnostic

structure DiagnosticStyle where
  colors : Bool := true
  showSource : Bool := true
  indicator : Char := '^'

namespace DiagnosticStyle

def bold (style : DiagnosticStyle) (text : String) : String :=
  if style.colors then "\x1b[1m" ++ text ++ "\x1b[0m" else text

def red (style : DiagnosticStyle) (text : String) : String :=
  if style.colors then "\x1b[31m" ++ text ++ "\x1b[39m" else text

def alarming (style : DiagnosticStyle) (text : String) : String := style.bold (style.red text)

def header (style : DiagnosticStyle) (diagnostic : Diagnostic) : String :=
  style.bold diagnostic.location ++ " " ++ style.alarming Diagnostic.severity ++ " " ++
    diagnostic.message

/-- What stands below a line in front of a column: blanks, but a tab below a tab. -/
def padding (line : String) (column : Nat) : String :=
  String.ofList ((line.toList.take (column - 1)).map fun c => if c = '\t' then '\t' else ' ')

def snippet (style : DiagnosticStyle) (diagnostic : Diagnostic) (line : String) : String :=
  let number := toString diagnostic.line
  number ++ " | " ++ line ++ "\n" ++ "".pushn ' ' number.length ++ " | " ++
    padding line diagnostic.column ++ style.alarming (String.singleton style.indicator) ++ "\n"

/-- The text of a diagnostic, with the line it is about if the source has it. -/
def render (style : DiagnosticStyle) (diagnostic : Diagnostic) (source : Option Source) :
    String :=
  let shown := if style.showSource && diagnostic.isLocated then source else none
  style.header diagnostic ++ "\n" ++
    ((shown.bind (·.line? diagnostic.line)).map (style.snippet diagnostic)).getD ""

def renderFrom (style : DiagnosticStyle) (files : Files) (diagnostic : Diagnostic) : String :=
  style.render diagnostic do
    let path ← diagnostic.path
    let content ← (files.read ⟨path⟩).toOption
    let text ← Text.Utf8.decode? content
    return ⟨path, String.ofList text⟩

end DiagnosticStyle

end StackLang
