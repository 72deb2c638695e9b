import StackLang.Number.Reading
import StackLang.Toml.Value

/-! The parts of a TOML document without parts of their own: blanks and comments, texts,
numbers, dates and times. -/
namespace StackLang.Toml

/-- A reader takes something from the front of a text, if it is there. -/
abbrev Reader (α : Type) := List Char → Option (α × List Char)

/-! ### Blanks and comments -/

def isBlank (c : Char) : Bool := c = ' ' || c = '\t'

/-- The characters of comments and texts that are always allowed: a tab, and all but
control characters. -/
def isPlain (c : Char) : Bool := c = '\t' || ' ' ≤ c && c.toNat ≠ 127

def skipBlanks (text : List Char) : List Char := text.dropWhile isBlank

def newLine? : List Char → Option (List Char)
  | '\n' :: rest => some rest
  | '\r' :: '\n' :: rest => some rest
  | _ => none

def skipComment : List Char → List Char
  | '#' :: rest => rest.dropWhile isPlain
  | text => text

def lineEnd? (text : List Char) : Option (List Char) :=
  match skipComment (skipBlanks text) with
  | [] => some []
  | rest => newLine? rest

theorem length_newLine? {text rest : List Char} (found : newLine? text = some rest) :
    rest.length < text.length := by
  unfold newLine? at found
  split at found
  · cases found
    exact Nat.lt_succ_self _
  · cases found
    exact Nat.lt_succ_of_lt (Nat.lt_succ_self _)
  · cases found

theorem length_skipComment_le (text : List Char) : (skipComment text).length ≤ text.length := by
  unfold skipComment
  split
  · exact Nat.le_succ_of_le (List.dropWhile_sublist _).length_le
  · exact Nat.le_refl _

/-- What follows blanks, comments and line breaks. -/
def skipSpace : List Char → List Char
  | [] => []
  | c :: rest =>
    if isBlank c then skipSpace rest
    else
      match _found : newLine? (skipComment (c :: rest)) with
      | some after => skipSpace after
      | none => c :: rest
termination_by text => text.length
decreasing_by
  · simp
  · exact Nat.lt_of_lt_of_le (length_newLine? _found) (length_skipComment_le _)

/-! ### Texts -/

def hexadecimal (digits : List Char) : Option Nat :=
  (digits.mapM (Number.digit? 16)).map (Number.ofDigits 16)

def character? (digits : List Char) : Option Char := do
  let code ← hexadecimal digits
  if code.isValidChar then some (Char.ofNat code) else none

def escaped? : Char → Option Char
  | 'b' => some '\x08'
  | 't' => some '\t'
  | 'n' => some '\n'
  | 'f' => some '\x0c'
  | 'r' => some '\r'
  | '"' => some '"'
  | '\\' => some '\\'
  | _ => none

def withFront (c : Char) (read : Option (List Char × List Char)) :
    Option (List Char × List Char) :=
  read.map fun (content, rest) => (c :: content, rest)

/-- A text behind its opening quote. -/
def basicText : Reader (List Char)
  | [] => none
  | '"' :: rest => some ([], rest)
  | '\\' :: 'u' :: a :: b :: c :: d :: rest => do
    withFront (← character? [a, b, c, d]) (basicText rest)
  | '\\' :: 'U' :: a :: b :: c :: d :: e :: f :: g :: h :: rest => do
    withFront (← character? [a, b, c, d, e, f, g, h]) (basicText rest)
  | '\\' :: c :: rest => do withFront (← escaped? c) (basicText rest)
  | c :: rest => if isPlain c && c ≠ '\\' then withFront c (basicText rest) else none

/-- A text without escapes behind its opening quote. -/
def literalText : Reader (List Char)
  | [] => none
  | '\'' :: rest => some ([], rest)
  | c :: rest => if isPlain c then withFront c (literalText rest) else none

/-- How many of three quotes and the one or two that may stand before them a text starts
with. -/
def closingQuotes (quote : Char) (text : List Char) : Nat :=
  ((text.take 5).takeWhile (· = quote)).length

/-- Whether a backslash in front of a text joins its line with the next. -/
def joinsLines (text : List Char) : Bool := (newLine? (skipBlanks text)).isSome

/-- A text of several lines behind its opening quotes. While `joining`, blanks and line
breaks are left out. -/
def basicLines (joining : Bool) : Reader (List Char)
  | [] => none
  | '\n' :: rest =>
    if joining then basicLines joining rest else withFront '\n' (basicLines false rest)
  | '\r' :: '\n' :: rest =>
    if joining then basicLines joining rest else withFront '\n' (basicLines false rest)
  | '\\' :: 'u' :: a :: b :: c :: d :: rest => do
    withFront (← character? [a, b, c, d]) (basicLines false rest)
  | '\\' :: 'U' :: a :: b :: c :: d :: e :: f :: g :: h :: rest => do
    withFront (← character? [a, b, c, d, e, f, g, h]) (basicLines false rest)
  | '\\' :: c :: rest =>
    if joinsLines (c :: rest) then basicLines true (c :: rest)
    else do withFront (← escaped? c) (basicLines false rest)
  | c :: rest =>
    if joining && isBlank c then basicLines joining rest
    else
      let quotes := closingQuotes '"' (c :: rest)
      if 3 ≤ quotes then
        some (List.replicate (quotes - 3) '"', (c :: rest).drop quotes)
      else if isPlain c && c ≠ '\\' then withFront c (basicLines false rest)
      else none

/-- A text of several lines without escapes behind its opening quotes. -/
def literalLines : Reader (List Char)
  | [] => none
  | '\n' :: rest => withFront '\n' (literalLines rest)
  | '\r' :: '\n' :: rest => withFront '\n' (literalLines rest)
  | c :: rest =>
    let quotes := closingQuotes '\'' (c :: rest)
    if 3 ≤ quotes then
      some (List.replicate (quotes - 3) '\'', (c :: rest).drop quotes)
    else if isPlain c then withFront c (literalLines rest)
    else none

/-- A line break directly behind the opening quotes is left out. -/
def withoutFirstBreak (text : List Char) : List Char := (newLine? text).getD text

def text? (text : List Char) : Option (List Char × List Char) :=
  match text with
  | '"' :: '"' :: '"' :: rest => basicLines false (withoutFirstBreak rest)
  | '"' :: rest => basicText rest
  | '\'' :: '\'' :: '\'' :: rest => literalLines (withoutFirstBreak rest)
  | '\'' :: rest => literalText rest
  | _ => none

/-! ### Numbers -/

/-- Digits of which any two may have an underscore between them. -/
def digitRun (base : Nat) : Reader (List Char)
  | [] => none
  | c :: rest =>
    if (Number.digit? base c).isNone then none
    else
      match rest with
      | '_' :: next :: after =>
        if (Number.digit? base next).isSome then withFront c (digitRun base (next :: after))
        else some ([c], rest)
      | next :: after =>
        if (Number.digit? base next).isSome then withFront c (digitRun base (next :: after))
        else some ([c], rest)
      | [] => some ([c], [])

/-- A decimal number without superfluous zeros in front. -/
def decimalRun (text : List Char) : Option (List Char × List Char) :=
  match text with
  | '0' :: rest => some (['0'], rest)
  | _ => digitRun 10 text

def signedRun (text : List Char) : Option (Bool × List Char × List Char) :=
  let (negative, rest) := Number.sign text
  (decimalRun rest).map fun (digits, rest) => (negative, digits, rest)

/-- Integers are signed and have 64 bits. -/
def isInRange (number : Int) : Bool :=
  -9223372036854775808 ≤ number && number ≤ 9223372036854775807

def integerOf (negative : Bool) (base : Nat) (digits : List Char) : Option Toml := do
  let size : Int := Number.ofDigits base (← digits.mapM (Number.digit? base))
  let number := if negative then -size else size
  if isInRange number then some (.integer number) else none

def radixInteger (base : Nat) (text : List Char) : Option (Toml × List Char) := do
  let (digits, rest) ← digitRun base text
  return (← integerOf false base digits, rest)

def integer? (text : List Char) : Option (Toml × List Char) :=
  match text with
  | '0' :: 'x' :: rest => radixInteger 16 rest
  | '0' :: 'o' :: rest => radixInteger 8 rest
  | '0' :: 'b' :: rest => radixInteger 2 rest
  | _ => do
    let (negative, digits, rest) ← signedRun text
    return (← integerOf negative 10 digits, rest)

def fraction? : Reader (List Char)
  | '.' :: rest => (digitRun 10 rest).map fun (digits, rest) => ('.' :: digits, rest)
  | _ => none

def exponentSign : List Char → List Char × List Char
  | '-' :: rest => (['-'], rest)
  | '+' :: rest => ([], rest)
  | text => ([], text)

def exponent? : Reader (List Char)
  | c :: rest =>
    if c = 'e' || c = 'E' then
      let (sign, rest) := exponentSign rest
      (digitRun 10 rest).map fun (digits, rest) => ('e' :: sign ++ digits, rest)
    else none
  | [] => none

def realEnd (text : List Char) : Option (List Char × List Char) :=
  match fraction? text with
  | some (fraction, rest) =>
    match exponent? rest with
    | some (exponent, rest) => some (fraction ++ exponent, rest)
    | none => some (fraction, rest)
  | none => exponent? text

def word? (word : String) (value : Toml) (text : List Char) : Option (Toml × List Char) :=
  if word.toList.isPrefixOf text then some (value, text.drop word.length) else none

def specialReal? (text : List Char) : Option (Toml × List Char) :=
  let (negative, rest) := Number.sign text
  (word? "inf" (.real (Number.infinity negative)) rest).or (word? "nan" (.real Number.nan) rest)

/-- A number with a point or an exponent. One that is too large is refused. -/
def finiteReal? (text : List Char) : Option (Toml × List Char) := do
  let (negative, digits, rest) ← signedRun text
  let (ending, rest) ← realEnd rest
  let number ← Number.read? ((if negative then ['-'] else []) ++ digits ++ ending)
  if number == Number.infinity false then none else some (.real number, rest)

def real? (text : List Char) : Option (Toml × List Char) :=
  (finiteReal? text).or (specialReal? text)

/-! ### Dates and times -/

def fixedDigits (count : Nat) (text : List Char) : Option (Nat × List Char) := do
  if text.length < count then none
  let values ← (text.take count).mapM (Number.digit? 10)
  return (Number.ofDigits 10 values, text.drop count)

def mark? (mark : Char) : List Char → Option (List Char)
  | c :: rest => if c = mark then some rest else none
  | [] => none

def daysIn (year month : Nat) : Nat :=
  if month = 2 then
    if year % 4 = 0 ∧ (year % 100 ≠ 0 ∨ year % 400 = 0) then 29 else 28
  else if month ∈ [4, 6, 9, 11] then 30
  else 31

def date? (text : List Char) : Option (List Char) := do
  let (year, rest) ← fixedDigits 4 text
  let (month, rest) ← fixedDigits 2 (← mark? '-' rest)
  let (day, rest) ← fixedDigits 2 (← mark? '-' rest)
  if 1 ≤ month ∧ month ≤ 12 ∧ 1 ≤ day ∧ day ≤ daysIn year month then some rest else none

def clock? (text : List Char) : Option (List Char) := do
  let (hour, rest) ← fixedDigits 2 text
  let (minute, rest) ← fixedDigits 2 (← mark? ':' rest)
  if hour ≤ 23 ∧ minute ≤ 59 then some rest else none

def skipFraction : List Char → List Char
  | '.' :: c :: rest => if c.isDigit then rest.dropWhile Char.isDigit else '.' :: c :: rest
  | text => text

def time? (text : List Char) : Option (List Char) := do
  let (second, rest) ← fixedDigits 2 (← mark? ':' (← clock? text))
  if second ≤ 60 then some (skipFraction rest) else none

def skipOffset : List Char → List Char
  | c :: rest =>
    if c = 'Z' || c = 'z' then rest
    else if c = '+' || c = '-' then (clock? rest).getD (c :: rest)
    else c :: rest
  | [] => []

/-- A time behind a date, with the letter or the blank that divides them. -/
def skipTime : List Char → List Char
  | c :: rest =>
    if c = 'T' || c = 't' || c = ' ' then ((time? rest).map skipOffset).getD (c :: rest)
    else c :: rest
  | [] => []

def moment? (text : List Char) : Option (Toml × List Char) :=
  (((date? text).map skipTime).or (time? text)).map fun rest => (.moment, rest)

def scalar? (text : List Char) : Option (Toml × List Char) :=
  match text with
  | [] => none
  | c :: _ =>
    if c = '"' || c = '\'' then
      (text? text).map fun (content, rest) => (.string (String.ofList content), rest)
    else if c = 't' then word? "true" (.truth true) text
    else if c = 'f' then word? "false" (.truth false) text
    else (moment? text).or ((real? text).or (integer? text))

end StackLang.Toml
