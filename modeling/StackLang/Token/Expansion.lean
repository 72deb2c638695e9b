import StackLang.Path
import StackLang.Text.CharClass

/-! Two directives are replaced before a text is scanned: `#LINE` by the number
of the physical line it stands in, and `#FILE` by the path of the file as a
string literal. -/
namespace StackLang.Expansion

inductive Directive where
  | line
  | file
  deriving DecidableEq, Repr

/-- The number of characters of a directive behind its `#`. -/
def Directive.extent : Directive → Nat
  | .line => 4
  | .file => 4

/-- The word that starts a text goes no further than `count` characters. -/
def endsWord (count : Nat) (text : List Char) : Bool :=
  !(text[count]?.any Text.isWordCharacter)

/-- The directive whose word the text behind a `#` starts with. -/
def directive? (text : List Char) : Option Directive :=
  if "LINE".toList.isPrefixOf text && endsWord 4 text then some .line
  else if "FILE".toList.isPrefixOf text && endsWord 4 text then some .file
  else none

def literal (path : Path) : List Char :=
  let escaped := path.text.toList.flatMap fun c => if c = '\\' || c = '"' then ['\\', c] else [c]
  '"' :: escaped ++ ['"']

def replacement (path : Path) (number : Nat) : Directive → List Char
  | .line => (toString number).toList
  | .file => literal path

/-- A physical line with its directives replaced, `skipped` characters of one
already replaced left out. -/
def expandLine (path : Path) (number : Nat) (skipped : Nat) : List Char → List Char
  | [] => []
  | c :: rest =>
    match skipped with
    | fewer + 1 => expandLine path number fewer rest
    | 0 =>
      if c = '#' then
        match directive? rest with
        | some directive => replacement path number directive ++ expandLine path number directive.extent rest
        | none => c :: expandLine path number 0 rest
      else c :: expandLine path number 0 rest

/-- The physical lines of a text, each with the line end it has. -/
def physicalLines : List Char → List (List Char)
  | [] => []
  | c :: rest =>
    if c = '\n' then [c] :: physicalLines rest
    else match physicalLines rest with
      | [] => [[c]]
      | line :: lines => (c :: line) :: lines

/-- Lines are counted from `number` on. -/
def expandLines (path : Path) (number : Nat) : List (List Char) → List Char
  | [] => []
  | line :: lines => expandLine path number 0 line ++ expandLines path (number + 1) lines

def expand (path : Path) (text : List Char) : List Char :=
  expandLines path 1 (physicalLines text)

end StackLang.Expansion
