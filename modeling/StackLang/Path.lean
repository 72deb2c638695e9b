import StackLang.Text.Source

/-! File paths as texts with `/` between the pieces. Empty pieces and `.` count
for nothing except at the very front, where they mean the root and the working
directory; nothing here looks at any file. -/
namespace StackLang

open Text (splitAt)

structure Path where
  text : String
  deriving DecidableEq, Repr, Inhabited

namespace Path

inductive Component where
  | root
  | here
  | up
  | name (text : String)
  deriving DecidableEq, Repr

/-- The texts between the slashes. -/
def pieces (path : Path) : List String :=
  (splitAt '/' path.text.toList).map String.ofList

def isAbsolute (path : Path) : Bool :=
  path.text.toList.head? == some '/'

/-- What a piece behind the first one means, if anything. -/
def component? : String → Option Component
  | "" => none
  | "." => none
  | ".." => some .up
  | text => some (.name text)

def components (path : Path) : List Component :=
  match path.pieces with
  | [] => []
  | first :: more =>
    let front :=
      if path.isAbsolute then [.root]
      else if first = "." then [.here]
      else (component? first).toList
    front ++ more.filterMap component?

/-- Two paths are the same if they name the same components. -/
def same (left right : Path) : Bool :=
  left.components == right.components

/-- The last component, if it is a name. -/
def fileName? (path : Path) : Option String :=
  match path.components.getLast? with
  | some (.name text) => some text
  | _ => none

def trimmed (pieces : List String) : List String :=
  (pieces.reverse.dropWhile fun piece => piece == "" || piece == ".").reverse

def slashed (pieces : List String) : String :=
  "/".intercalate pieces

/-- The path without its last component; the root and the empty path have none. -/
def parent? (path : Path) : Option Path :=
  match path.pieces with
  | [] => none
  | first :: more =>
    if path.isAbsolute then
      match trimmed more with
      | [] => none
      | body => some ⟨"/" ++ slashed (trimmed body.dropLast)⟩
    else if first = "." then
      match trimmed more with
      | [] => some ⟨""⟩
      | body => some ⟨slashed ("." :: trimmed body.dropLast)⟩
    else
      match trimmed (first :: more) with
      | [] => none
      | body => some ⟨slashed (trimmed body.dropLast)⟩

/-- A name cut at its last dot; a dot at the front cuts nothing. -/
def cutName (name : String) : String × Option String :=
  let (reversedEnd, reversedFront) := name.toList.reverse.span (· ≠ '.')
  match reversedFront with
  | [] => (name, none)
  | [_] => (name, none)
  | _ :: front => (String.ofList front.reverse, some (String.ofList reversedEnd.reverse))

def stem? (path : Path) : Option String :=
  path.fileName?.map fun name => (cutName name).1

def extension? (path : Path) : Option String :=
  path.fileName?.bind fun name => (cutName name).2

/-- `other` as seen from the directory `base`. -/
def join (base : Path) (other : String) : Path :=
  if (Path.mk other).isAbsolute then ⟨other⟩
  else if base.text = "" || base.text.toList.getLast? = some '/' then ⟨base.text ++ other⟩
  else ⟨base.text ++ "/" ++ other⟩

end Path

end StackLang
