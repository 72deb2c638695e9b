/-! The values of a TOML document. -/
namespace StackLang

/-- How a table came to be, which decides what may still be added to it. -/
inductive TableKind where
  /-- By a header of its own. -/
  | defined
  /-- By the header of a table inside of it. -/
  | implicit
  /-- By a dotted key. -/
  | dotted
  | inline
  deriving DecidableEq, Repr

inductive Toml where
  | string (content : String)
  | integer (number : Int)
  | real (number : Float)
  | truth (holds : Bool)
  /-- A date, a time, or both. -/
  | moment
  | array (items : List Toml)
  | table (kind : TableKind) (fields : List (String × Toml))
  /-- An array of tables, each made by a header of its own. -/
  | tables (items : List (List (String × Toml)))

namespace Toml

abbrev Fields := List (String × Toml)

/-- A field set to a value, in its place if there is one. -/
def replace (key : String) (value : Toml) (fields : Fields) : Fields :=
  fields.map fun field => if field.1 = key then (key, value) else field

/-- What a path inside of a table leads to, changed. Missing tables on the way are made,
and the last one of an array of tables is meant. A dotted key does not lead through a
table that has a header. -/
def within (dotted : Bool) (update : TableKind → Fields → Option Fields) :
    List String → TableKind → Fields → Option Fields
  | [], kind, fields => update kind fields
  | key :: path, _, fields =>
    match fields.lookup key with
    | none =>
      let kind := if dotted then TableKind.dotted else .implicit
      (within dotted update path kind []).map fun inner => fields ++ [(key, .table kind inner)]
    | some (.table kind inner) =>
      if kind = .inline ∨ dotted ∧ kind = .defined then none
      else (within dotted update path kind inner).map fun inner =>
        replace key (.table kind inner) fields
    | some (.tables items) =>
      match items.getLast? with
      | none => none
      | some last => (within dotted update path .defined last).map fun inner =>
        replace key (.tables (items.dropLast ++ [inner])) fields
    | some _ => none

def insert (path : List String) (key : String) (value : Toml) :
    TableKind → Fields → Option Fields :=
  within true (fun kind fields =>
    if (kind == .dotted) == path.isEmpty || (fields.lookup key).isSome then none
    else some (fields ++ [(key, value)])) path

def openTable (path : List String) (key : String) (fields : Fields) : Option Fields :=
  within false (fun _ fields =>
    match fields.lookup key with
    | none => some (fields ++ [(key, .table .defined [])])
    | some (.table .implicit inner) => some (replace key (.table .defined inner) fields)
    | some _ => none) path .defined fields

def openTables (path : List String) (key : String) (fields : Fields) : Option Fields :=
  within false (fun _ fields =>
    match fields.lookup key with
    | none => some (fields ++ [(key, .tables [[]])])
    | some (.tables items) => some (replace key (.tables (items ++ [[]])) fields)
    | some _ => none) path .defined fields

end Toml

end StackLang
