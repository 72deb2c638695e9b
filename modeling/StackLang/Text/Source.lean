import StackLang.Text.Position

/-! A named text and the parts of it that messages show: physical lines, and
the characters between two byte offsets. -/
namespace StackLang.Text

/-- The pieces of a text between the occurrences of `mark`; there is always one
piece more than there are marks. -/
def splitAt (mark : Char) : List Char → List (List Char)
  | [] => [[]]
  | c :: rest =>
    if c = mark then [] :: splitAt mark rest
    else match splitAt mark rest with
      | [] => [[c]]
      | piece :: pieces => (c :: piece) :: pieces

/-- What is left of a text after its first `count` bytes, unless that count
splits a character or passes the end. -/
def dropBytes? : Nat → List Char → Option (List Char)
  | 0, text => some text
  | _ + 1, [] => none
  | count + 1, c :: rest =>
    if c.utf8Size ≤ count + 1 then dropBytes? (count + 1 - c.utf8Size) rest else none

/-- The first `count` bytes of a text, unless that count splits a character or
passes the end. -/
def takeBytes? : Nat → List Char → Option (List Char)
  | 0, _ => some []
  | _ + 1, [] => none
  | count + 1, c :: rest =>
    if c.utf8Size ≤ count + 1 then (takeBytes? (count + 1 - c.utf8Size) rest).map (c :: ·) else none

def slice? (text : List Char) (start stop : Nat) : Option (List Char) :=
  if start ≤ stop then (dropBytes? start text).bind (takeBytes? (stop - start)) else none

def withoutReturn (line : List Char) : List Char :=
  if line.getLast? = some '\r' then line.dropLast else line

structure Source where
  name : String
  content : String

namespace Source

/-- The physical line of that number, counted from one, without its terminator. -/
def line? (source : Source) (number : Nat) : Option String :=
  match number with
  | 0 => none
  | index + 1 =>
    ((splitAt '\n' source.content.toList)[index]?).map fun line => String.ofList (withoutReturn line)

def text? (source : Source) (span : Span) : Option String :=
  (slice? source.content.toList span.start.offset span.stop.offset).map String.ofList

end Source

end StackLang.Text
