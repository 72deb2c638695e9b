import StackLang.Token.Stream
import StackLang.Tree.Parse

/-! A file as a unit of compilation: its tokens, and its tree once it is parsed. -/
namespace StackLang

structure SourceUnit where
  path : Path
  /-- The name the file was imported under; a file that was asked for has none. -/
  importName : Option String := none
  tokens : List Token := []
  tree : Option SourceTree := none

namespace SourceUnit

/-- The name in the names of what is made from the unit. -/
def name (unit : SourceUnit) : String :=
  match unit.importName, unit.tree with
  | some name, _ => name
  | none, some tree => tree.name
  | none, none => moduleName unit.path

/-- Scan and parse the content of a unit. The files it imports come with it. -/
def compile (unit : SourceUnit) (files : Files) (search : Search) (content : List UInt8) :
    Except SyntaxError (SourceUnit × List Path) × Search :=
  let (scanned, search) := TokenStream.ofBytes files search unit.path content
  (do
    let stream ← scanned
    let tree ← SourceTree.parse unit.path stream.tokens
    return ({ unit with tokens := stream.tokens, tree := some tree }, stream.imports), search)

end SourceUnit

end StackLang
