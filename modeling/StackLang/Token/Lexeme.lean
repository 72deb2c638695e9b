import StackLang.SyntaxError
import StackLang.Text.CharClass
import StackLang.Token.Basic

/-! The shapes of lexemes as beginnings of a text: blanks with line comments,
words, numbers, strings, block comments and braced C code; and the lexeme that
a text starts with, with the number of characters it takes. -/
namespace StackLang.Lexeme

def isDigit (c : Char) : Bool := c.isDigit

def isWordStart (c : Char) : Bool := c.isAlpha || c == '_'

def isWordPart (c : Char) : Bool := c.isAlphanum || c == '_'

def isBlank (c : Char) : Bool := c == ' ' || c == '\t' || c == '\r'

/-- Blanks and line comments at the front, up to a line end or a lexeme. With
`commented` the text starts inside a line comment. -/
def blanks (commented : Bool) : List Char → List Char
  | [] => []
  | c :: rest =>
    if commented then
      if c = '\n' then [] else c :: blanks true rest
    else if isBlank c then c :: blanks false rest
    else if c = '/' && rest.head? = some '/' then c :: blanks true rest
    else []

def wordTail (text : List Char) : List Char := text.takeWhile isWordPart

def fraction : List Char → List Char
  | '.' :: rest => '.' :: rest.takeWhile isDigit
  | _ => []

def sign : List Char → List Char
  | '+' :: _ => ['+']
  | '-' :: _ => ['-']
  | _ => []

/-- An exponent, which needs at least one digit. -/
def exponent : List Char → List Char
  | [] => []
  | e :: rest =>
    if e = 'e' || e = 'E' then
      let signs := sign rest
      match (rest.drop signs.length).takeWhile isDigit with
      | [] => []
      | digits => e :: (signs ++ digits)
    else []

def numberTail (text : List Char) : List Char :=
  let whole := text.takeWhile isDigit
  let behindWhole := text.drop whole.length
  let part := fraction behindWhole
  whole ++ part ++ exponent (behindWhole.drop part.length)

/-- A string up to its closing quote, or to the end of the text. -/
def stringBody (text : List Char) : List Char := text.takeWhile (· ≠ '"')

/-- The content of a block comment in front of its end marker, if there is one. -/
def commentBody? : List Char → Option (List Char)
  | '*' :: '/' :: _ => some []
  | c :: rest => (commentBody? rest).map (c :: ·)
  | [] => none

theorem length_commentBody? {text body : List Char} (closed : commentBody? text = some body) :
    body.length + 2 ≤ text.length := by
  fun_induction commentBody? text generalizing body with
  | case1 => cases closed; simp
  | case2 c rest _ ih =>
    obtain ⟨inner, found, rfl⟩ := Option.map_eq_some_iff.1 closed
    have := ih found
    simp only [List.length_cons]
    omega
  | case3 => cases closed

/-- The code in front of the brace that closes a block, if there is one, with
`depth` inner blocks still open. -/
def braced? : Nat → List Char → Option (List Char)
  | _, [] => none
  | depth, c :: rest =>
    if c = '\x7b' then (braced? (depth + 1) rest).map (c :: ·)
    else if c = '\x7d' then
      match depth with
      | 0 => some []
      | outer + 1 => (braced? outer rest).map (c :: ·)
    else (braced? depth rest).map (c :: ·)

/-- The lexeme at the front of a text, or what is wrong there. The extent is
the number of characters that it takes, those that are known already left out. -/
inductive Reading where
  | token (kind : TokenKind) (literal : List Char) (extent : Nat)
  | failure (complaint : Complaint) (extent : Nat)
  deriving DecidableEq, Repr

def Reading.behind (count : Nat) : Reading → Reading
  | .token kind literal extent => .token kind literal (count + extent)
  | .failure complaint extent => .failure complaint (count + extent)

def readNumber (first : Char) (text : List Char) : Reading :=
  .token .number (first :: numberTail text) (numberTail text).length

def readString (text : List Char) : Reading :=
  .token .string (stringBody text) ((stringBody text).length + 1)

/-- C code behind the word that introduces it. -/
def readInlineC (text : List Char) : Reading :=
  let blank := (text.takeWhile Text.isWhiteSpace).length
  match text.drop blank with
  | [] => .failure .inlineNotOpened blank
  | c :: inside =>
    if c = '\x7b' then
      match braced? 0 inside with
      | some code => .token .inlineC code (blank + 1 + code.length + 1)
      | none => .failure .inlineNotClosed text.length
    else .failure .inlineNotOpened (blank + 1)

def readWord (first : Char) (text : List Char) : Reading :=
  let tail := wordTail text
  let word := String.ofList (first :: tail)
  if word = "__c" then (readInlineC (text.drop tail.length)).behind tail.length
  else .token ((TokenKind.ofKeyword? word).getD .identifier) (first :: tail) tail.length

/-- The lexemes that are one character and can start no other lexeme. -/
def punctuation : List (Char × TokenKind) :=
  [('\n', .newLine), ('(', .leftParen), (')', .rightParen), ('\x7b', .leftBrace),
   ('\x7d', .rightBrace), (',', .comma), ('&', .ampersand), ('$', .dollar)]

def punctuation? (c : Char) : Option TokenKind :=
  (punctuation.find? fun pair => pair.1 == c).map (·.2)

/-- The lexeme that starts with `first` and goes on in `text`. -/
def read (first : Char) (text : List Char) : Reading :=
  match punctuation? first with
  | some kind => .token kind [first] 0
  | none =>
    if first = ':' then
      if text.head? = some ':' then .token .doubleColon [':', ':'] 1 else .token .colon [':'] 0
    else if first = '/' && text.head? = some '*' then .token .commentBegin ['/', '*'] 1
    else if isDigit first || (first = '-' && text.head?.any isDigit) then readNumber first text
    else if first = '"' then readString text
    else if isWordStart first then readWord first text
    else .failure (.unexpectedCharacter first) 0

end StackLang.Lexeme
