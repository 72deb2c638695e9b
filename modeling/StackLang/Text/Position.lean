/-! Places in a text. A position counts lines and columns from one, columns in
characters, and offsets in UTF-8 bytes from zero; a span is a half-open range
between two positions. -/
namespace StackLang.Text

structure Position where
  line : Nat := 0
  column : Nat := 0
  offset : Nat := 0
  deriving DecidableEq, Repr, Inhabited

namespace Position

def start : Position := ⟨1, 1, 0⟩

/-- The position behind the character `c` standing at `place`. -/
def past (place : Position) (c : Char) : Position :=
  if c = '\n' then ⟨place.line + 1, 1, place.offset + 1⟩
  else ⟨place.line, place.column + 1, place.offset + c.utf8Size⟩

def through (place : Position) (run : List Char) : Position :=
  run.foldl past place

@[simp] theorem through_nil (place : Position) : place.through [] = place := rfl

@[simp] theorem through_cons (place : Position) (c : Char) (run : List Char) :
    place.through (c :: run) = (place.past c).through run := rfl

theorem through_append (place : Position) (left right : List Char) :
    place.through (left ++ right) = (place.through left).through right := by
  simp [through]

def text (place : Position) : String := s!"{place.line}:{place.column}"

end Position

structure Span where
  start : Position := {}
  stop : Position := {}
  deriving DecidableEq, Repr, Inhabited

namespace Span

def point (place : Position) : Span := ⟨place, place⟩

def upTo (first last : Span) : Span := ⟨first.start, last.stop⟩

/-- The number of bytes covered; a span that runs backwards covers none. -/
def size (span : Span) : Nat := span.stop.offset - span.start.offset

def isEmpty (span : Span) : Bool := span.start.offset == span.stop.offset

/-- Line zero stands for "no place in any text". -/
def isDummy (span : Span) : Bool := span.start.line == 0

def text (span : Span) : String :=
  "[" ++ span.start.text ++ " - " ++ span.stop.text ++ "]"

end Span

end StackLang.Text
