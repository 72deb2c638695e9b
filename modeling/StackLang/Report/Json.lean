/-! JSON values and their text over several lines, with two blanks for every level. -/
namespace StackLang

inductive JsonValue where
  | null
  | number (value : Nat)
  | string (content : String)
  | array (items : List JsonValue)
  | object (fields : List (String × JsonValue))

namespace JsonValue

def hexDigit (n : Nat) : Char := Nat.digitChar n

def escape (c : Char) : List Char :=
  match c with
  | '"' => ['\\', '"']
  | '\\' => ['\\', '\\']
  | '\x08' => ['\\', 'b']
  | '\x0c' => ['\\', 'f']
  | '\n' => ['\\', 'n']
  | '\r' => ['\\', 'r']
  | '\t' => ['\\', 't']
  | c =>
    if c.toNat < 32 then
      ['\\', 'u', '0', '0', hexDigit (c.toNat / 16), hexDigit (c.toNat % 16)]
    else [c]

def quote (text : String) : String :=
  "\"" ++ String.ofList (text.toList.flatMap escape) ++ "\""

def indented (depth : Nat) (text : String) : String := "".pushn ' ' (2 * depth) ++ text

/-- Lines between brackets; nothing stands between them if there is no line. -/
def enclosed (depth : Nat) (opening closing : String) (lines : List String) : String :=
  if lines = [] then opening ++ closing
  else
    opening ++ "\n" ++ ",\n".intercalate (lines.map (indented (depth + 1))) ++ "\n" ++
      indented depth closing

mutual

def pretty (depth : Nat) : JsonValue → String
  | .null => "null"
  | .number value => toString value
  | .string content => quote content
  | .array items => enclosed depth "[" "]" (prettyItems (depth + 1) items)
  | .object fields => enclosed depth "\x7b" "\x7d" (prettyFields (depth + 1) fields)

def prettyItems (depth : Nat) : List JsonValue → List String
  | [] => []
  | item :: items => pretty depth item :: prettyItems depth items

def prettyFields (depth : Nat) : List (String × JsonValue) → List String
  | [] => []
  | (name, value) :: fields =>
    (quote name ++ ": " ++ pretty depth value) :: prettyFields depth fields

end

end JsonValue

end StackLang
