/-! The layout of generated text: rows that are indented by one tab for every block that is
open around them. -/
namespace StackLang

inductive Row where
  | line (text : String)
  /-- A line that opens a block. -/
  | opening (text : String)
  /-- A line that closes the innermost block. -/
  | closing (text : String)
  /-- Text that is neither indented nor changed, save that its last line is ended. -/
  | verbatim (text : String)
  | blank
  deriving DecidableEq, Repr

structure Layout where
  text : String := ""
  indent : Nat := 0

namespace Layout

def line (layout : Layout) (text : String) : Layout :=
  { layout with text := layout.text ++ "".pushn '\t' layout.indent ++ text ++ "\n" }

def write (layout : Layout) : Row → Layout
  | .line text => layout.line text
  | .opening text => { layout.line text with indent := layout.indent + 1 }
  | .closing text => { layout with indent := layout.indent - 1 }.line text
  | .verbatim text =>
    { layout with text := layout.text ++ text ++ if text.endsWith "\n" then "" else "\n" }
  | .blank => { layout with text := layout.text ++ "\n" }

def writeAll (layout : Layout) (rows : List Row) : Layout := rows.foldl write layout

theorem writeAll_append (layout : Layout) (first second : List Row) :
    layout.writeAll (first ++ second) = (layout.writeAll first).writeAll second := by
  simp [writeAll]

def render (rows : List Row) : String := (writeAll {} rows).text

end Layout

end StackLang
