/-! Reading bytes as UTF-8. The main function splits a byte sequence into the
characters of its longest well-formed beginning and the bytes behind it. Lines
and columns can be counted in bytes too. -/
namespace StackLang.Text.Utf8

/-- The first character of a byte sequence, if it starts with a well-formed one. -/
def first? (bytes : List UInt8) : Option Char :=
  (bytes.take 4).toByteArray.utf8DecodeChar? 0

/-- The characters of the longest well-formed beginning, and the bytes behind it. -/
def read (bytes : List UInt8) : List Char × List UInt8 :=
  match bytes with
  | [] => ([], [])
  | byte :: more =>
    match first? (byte :: more) with
    | none => ([], byte :: more)
    | some c =>
      let (characters, rest) := read ((byte :: more).drop c.utf8Size)
      (c :: characters, rest)
termination_by bytes.length
decreasing_by
  have positive := c.utf8Size_pos
  simp only [List.length_drop, List.length_cons]
  omega

def decode? (bytes : List UInt8) : Option (List Char) :=
  match read bytes with
  | (characters, []) => some characters
  | _ => none

/-- The number of bytes that malformed ones take with them: those that could go
on to a character. -/
def brokenTail (bytes : List UInt8) : Nat :=
  if (first? (bytes.take 3 ++ [0x80])).isSome then 2
  else if (first? (bytes.take 2 ++ [0x80, 0x80])).isSome then 1
  else 0

/-- The characters of a byte sequence, with replacement characters for what is
malformed. -/
def readLossy (bytes : List UInt8) : List Char :=
  match bytes with
  | [] => []
  | byte :: more =>
    match first? (byte :: more) with
    | none => '\ufffd' :: readLossy (more.drop (brokenTail (byte :: more)))
    | some c => c :: readLossy ((byte :: more).drop c.utf8Size)
termination_by bytes.length
decreasing_by
  · simp only [List.length_drop, List.length_cons]
    omega
  · have positive := c.utf8Size_pos
    simp only [List.length_drop, List.length_cons]
    omega

def lineBehind (bytes : List UInt8) : Nat := bytes.count 10 + 1

def lastLine (bytes : List UInt8) : List UInt8 := (bytes.reverse.takeWhile (· ≠ 10)).reverse

/-- The column reached behind a byte sequence: its last line is read on its own. -/
def columnBehind (bytes : List UInt8) : Nat := (readLossy (lastLine bytes)).length + 1

def encode (characters : List Char) : List UInt8 :=
  characters.flatMap String.utf8EncodeChar

end StackLang.Text.Utf8
