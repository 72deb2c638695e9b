import StackLang.Number.Binary

/-! Reading numbers: decimal and hexadecimal, with a fraction and an exponent, the infinity
and the value that is no number. One reader takes the longest number at the front of a
text. The other takes it from the front of a stream, where a character that was
looked at is gone even if no number comes of it. -/
namespace StackLang.Number

def isBlank (c : Char) : Bool := c = ' ' ∨ '\t' ≤ c ∧ c ≤ '\r'

def digit? (base : Nat) (c : Char) : Option Nat :=
  let value :=
    if '0' ≤ c ∧ c ≤ '9' then c.toNat - '0'.toNat
    else if 'a' ≤ c.toLower ∧ c.toLower ≤ 'f' then c.toLower.toNat - 'a'.toNat + 10
    else base
  if value < base then some value else none

def digits (base : Nat) : List Char → List Nat × List Char
  | [] => ([], [])
  | c :: rest =>
    match digit? base c with
    | some value => ((value :: (digits base rest).1), (digits base rest).2)
    | none => ([], c :: rest)

def ofDigits (base : Nat) (values : List Nat) : Nat :=
  values.foldl (fun total value => total * base + value) 0

/-- Whether a text starts with a minus, and the text after its sign. -/
def sign : List Char → Bool × List Char
  | '-' :: rest => (true, rest)
  | '+' :: rest => (false, rest)
  | text => (false, text)

def startsWith (word : String) (text : List Char) : Bool :=
  word.toList.isPrefixOf (text.map Char.toLower)

/-- The exponent after a mark; zero if there is no mark or no digit. -/
def exponentAfter (mark : Char) : List Char → Int
  | [] => 0
  | c :: rest =>
    if c.toLower = mark then
      let (negative, text) := sign rest
      let size : Int := ofDigits 10 (digits 10 text).1
      if negative then -size else size
    else 0

/-- The digits of a number with a point somewhere: all of them, how many of them stand
after the point, and what follows. -/
def pointedDigits (base : Nat) (text : List Char) : List Nat × Nat × List Char :=
  let (whole, after) := digits base text
  match after with
  | '.' :: rest =>
    let (fraction, rest) := digits base rest
    (whole ++ fraction, fraction.length, rest)
  | _ => (whole, 0, after)

/-- The number `digits * base ^ exponent` of a notation: a decimal digit is worth one step
of the exponent and a hexadecimal one four. -/
def positional? (negative : Bool) (base radix step : Nat) (mark : Char) (text : List Char) :
    Option Float :=
  let (values, places, rest) := pointedDigits base text
  if values = [] then none
  else some (ofScaled negative (ofDigits base values) radix
    (exponentAfter mark rest - step * places))

def hexadecimal? (negative : Bool) : List Char → Option Float
  | '0' :: mark :: rest =>
    if mark.toLower = 'x' then positional? negative 16 2 4 'p' rest else none
  | _ => none

def unsigned? (negative : Bool) (text : List Char) : Option Float :=
  if startsWith "inf" text then some (infinity negative)
  else if startsWith "nan" text then some nan
  else (hexadecimal? negative text).or (positional? negative 10 10 1 'e' text)

/-- The longest number at the front of a text, after blanks. -/
def read? (text : List Char) : Option Float :=
  let (negative, rest) := sign (text.dropWhile isBlank)
  unsigned? negative rest

/-- What a stream has shown of a number so far. -/
structure Progress where
  hexadecimal : Bool
  digit : Bool := false
  point : Bool := false
  exponent : Bool := false
  /-- The last character was the mark of the exponent, so a sign may follow. -/
  marked : Bool := false

def Progress.mark (seen : Progress) : Char := if seen.hexadecimal then 'p' else 'e'

def Progress.accept (seen : Progress) (c : Char) : Option Progress :=
  if (digit? 10 c).isSome ∨ ¬seen.exponent ∧ seen.hexadecimal ∧ (digit? 16 c).isSome then
    some { seen with digit := true, marked := false }
  else if seen.marked ∧ (c = '-' ∨ c = '+') then some { seen with marked := false }
  else if seen.digit ∧ ¬seen.exponent ∧ c.toLower = seen.mark then
    some { seen with exponent := true, point := true, marked := true }
  else if ¬seen.point ∧ c = '.' then some { seen with point := true }
  else none

/-- The characters a stream gives to a number, and the rest of it. -/
def collect (seen : Progress) : List Char → List Char × List Char
  | [] => ([], [])
  | c :: rest =>
    match seen.accept c with
    | some seen => (c :: (collect seen rest).1, (collect seen rest).2)
    | none => ([], c :: rest)

/-- What follows a word in a stream; with the first character that differs the stream has
lost that character as well. -/
def afterWord : List Char → List Char → Option Float → Option Float × List Char
  | [], text, value => (value, text)
  | _ :: _, [], _ => (none, [])
  | letter :: word, c :: rest, value =>
    if c.toLower = letter then afterWord word rest value else (none, rest)

def afterInf (text : List Char) (value : Float) : Option Float × List Char :=
  match text with
  | c :: rest =>
    if c.toLower = 'i' then afterWord "nity".toList rest (some value)
    else (some value, c :: rest)
  | [] => (some value, [])

def takeInfinity (text : List Char) (value : Float) : Option Float × List Char :=
  match afterWord "inf".toList text (some value) with
  | (some value, rest) => afterInf rest value
  | (none, rest) => (none, rest)

def takePositional (negative : Bool) (text : List Char) : Option Float × List Char :=
  match text with
  | '0' :: mark :: rest =>
    if mark.toLower = 'x' then
      let (taken, rest) := collect { hexadecimal := true } rest
      (if taken = [] then none else unsigned? negative ('0' :: 'x' :: taken), rest)
    else
      let (taken, rest) := collect { hexadecimal := false } text
      (unsigned? negative taken, rest)
  | _ =>
    let (taken, rest) := collect { hexadecimal := false } text
    (unsigned? negative taken, rest)

def take? (stream : List Char) : Option Float × List Char :=
  let (negative, text) := sign (stream.dropWhile isBlank)
  match text with
  | [] => (none, [])
  | c :: _ =>
    if c.toLower = 'n' then afterWord "nan".toList text (some nan)
    else if c.toLower = 'i' then takeInfinity text (infinity negative)
    else takePositional negative text

end StackLang.Number
