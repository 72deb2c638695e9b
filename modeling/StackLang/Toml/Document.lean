import StackLang.Toml.Scalar

/-! TOML documents: keys, arrays, inline tables, and the lines of a document. -/
namespace StackLang.Toml

/-- How deep values and keys can be nested. -/
def deepest : Nat := 80

def isKeyCharacter (c : Char) : Bool := c.isAlphanum || c = '-' || c = '_'

def simpleKey? (text : List Char) : Option (String × List Char) :=
  match text with
  | '"' :: rest => (basicText rest).map fun (key, rest) => (String.ofList key, rest)
  | '\'' :: rest => (literalText rest).map fun (key, rest) => (String.ofList key, rest)
  | _ =>
    let key := text.takeWhile isKeyCharacter
    if key = [] then none else some (String.ofList key, text.dropWhile isKeyCharacter)

/-- Keys with points between them, each with blanks around it. -/
def dottedKeys (text : List Char) : Option (List String × List Char) := do
  let (key, rest) ← simpleKey? (skipBlanks text)
  match skipBlanks rest with
  | '.' :: after =>
    if after.length < text.length then
      let (keys, rest) ← dottedKeys after
      return (key :: keys, rest)
    else none
  | rest => return ([key], rest)
termination_by text.length

def key? (text : List Char) : Option ((List String × String) × List Char) := do
  let (keys, rest) ← dottedKeys text
  if deepest ≤ keys.length then none
  return ((keys.dropLast, ← keys.getLast?), rest)

/-- Things with commas between them, the first of which is already there. -/
def commaList {α : Type} (item : Reader α) (text : List Char) :
    Option (List α × List Char) := do
  let (first, rest) ← item text
  match rest with
  | ',' :: after =>
    if after.length < text.length then
      match commaList item after with
      | some (others, rest) => return (first :: others, rest)
      | none => return ([first], rest)
    else none
  | _ => return ([first], rest)
termination_by text.length

def spacedItem (value : Reader Toml) (text : List Char) : Option (Toml × List Char) := do
  let (item, rest) ← value (skipSpace text)
  return (item, skipSpace rest)

def skipComma : List Char → List Char
  | ',' :: rest => rest
  | text => text

def arrayRest (value : Reader Toml) (text : List Char) : Option (Toml × List Char) := do
  let (items, rest) := (commaList (spacedItem value) text).getD ([], text)
  let rest := skipSpace (if items.isEmpty then rest else skipComma rest)
  return (.array items, ← mark? ']' rest)

def keyValue (value : Reader Toml) (text : List Char) :
    Option ((List String × String × Toml) × List Char) := do
  let ((path, key), rest) ← key? text
  let (item, rest) ← value (skipBlanks (← mark? '=' rest))
  return ((path, key, item), skipBlanks rest)

def inlineTableRest (value : Reader Toml) (text : List Char) : Option (Toml × List Char) := do
  let (pairs, rest) := (commaList (keyValue value) text).getD ([], skipBlanks text)
  let fields ← pairs.foldlM (fun fields (path, key, item) => insert path key item .inline fields) []
  return (.table .inline fields, ← mark? '\x7d' rest)

/-- A value that is nested less deep than a bound. -/
def value : Nat → Reader Toml
  | 0, _ => none
  | depth + 1, text =>
    match text with
    | '[' :: rest => if depth = 0 then none else arrayRest (value depth) rest
    | '\x7b' :: rest => if depth = 0 then none else inlineTableRest (value depth) rest
    | _ => scalar? text

/-- What has been read of a document, and the path of the table that is open. -/
structure Progress where
  fields : Fields := []
  table : List String := []

def header (progress : Progress) (text : List Char) : Option (Progress × List Char) :=
  match text with
  | '[' :: rest => do
    let ((path, key), rest) ← key? rest
    let rest ← mark? ']' (← mark? ']' rest)
    return (⟨← openTables path key progress.fields, path ++ [key]⟩, ← lineEnd? rest)
  | _ => do
    let ((path, key), rest) ← key? text
    let rest ← mark? ']' rest
    return (⟨← openTable path key progress.fields, path ++ [key]⟩, ← lineEnd? rest)

def assignment (progress : Progress) (text : List Char) : Option (Progress × List Char) := do
  let ((path, key, item), rest) ← keyValue (value deepest) text
  let fields ← within false (insert path key item) progress.table .defined progress.fields
  return ({ progress with fields }, ← lineEnd? rest)

def line (progress : Progress) (text : List Char) : Option (Progress × List Char) :=
  match skipBlanks text with
  | '[' :: rest => header progress rest
  | text =>
    match lineEnd? text with
    | some rest => some (progress, rest)
    | none => assignment progress text

def lines (progress : Progress) (text : List Char) : Option Fields :=
  if text = [] then some progress.fields
  else do
    let (progress, rest) ← line progress text
    if rest.length < text.length then lines progress rest else none
termination_by text.length

/-- The fields of a document. A byte order mark in front of it is left out. -/
def parse (text : List Char) : Option Fields :=
  match text with
  | '\ufeff' :: rest => lines {} rest
  | _ => lines {} text

end StackLang.Toml
