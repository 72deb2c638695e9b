import StackLang.Output.Lower
import StackLang.Settings.Basic

/-! The header and the source that are generated from a unit. -/
namespace StackLang

structure GeneratedUnit where
  headerName : String
  header : String
  sourceName : String
  source : String
  deriving DecidableEq, Repr

/-- The code of a unit and the headers of what it imports. -/
structure UnitCode where
  name : String
  path : Path
  includes : List String
  definitions : List Definition

def includeRow (name : String) : Row := .line ("#include \"" ++ name ++ "\"")

def spaced (rows : List Row) : List Row := if rows = [] then [] else rows ++ [.blank]

/-- The files that every program is linked with. -/
def supportHeaderName : String := "qd_base.h"

def supportSourceName : String := "qd_base.c"

/-- A macro that the compiler's own definition overrides. -/
def defineRows (macroName value : String) : List Row :=
  [.line ("#ifndef " ++ macroName), .line ("#define " ++ macroName ++ " " ++ value),
    .line "#endif"]

namespace UnitCode

def ofUnit (unit : SourceUnit) (table : SymbolTable) : Except CodeError UnitCode :=
  match unit.tree with
  | none => .error (.notParsed unit.path.text)
  | some tree => do
    let frame : UnitFrame := ⟨unit.name, unit.importName, table⟩
    let definitions ← frame.definitions none tree.statements
    let includes := (tree.statements.filterMap Statement.import?).map fun target =>
      CName.header target.name target.path
    return ⟨unit.name, unit.path, includes, definitions⟩

def declarations (code : UnitCode) : List String :=
  code.definitions.flatMap Definition.exported |>.map Global.declaration

/-- What the unit's source declares of other units. -/
def foreign (code : UnitCode) : List String :=
  ((code.definitions.flatMap Definition.globals).filter fun global =>
    global.unit ≠ code.name).map Global.declaration |>.eraseDups

def headerRows (code : UnitCode) (settings : RuntimeSettings) : List Row :=
  let guard := CName.guard code.path
  [.line ("#ifndef " ++ guard), .line ("#define " ++ guard), .blank] ++
    settings.defines.flatMap (fun (macroName, value) => defineRows macroName value) ++ [.blank] ++
    includeRow supportHeaderName :: code.includes.map includeRow ++ [.blank] ++
    spaced (code.declarations.map .line) ++
    [.line ("#endif /* " ++ guard ++ " */")]

def sourceRows (code : UnitCode) : List Row :=
  [includeRow (CName.header code.name code.path), .blank] ++
    spaced (code.foreign.map .line) ++ code.definitions.flatMap Definition.rows

def files (code : UnitCode) (settings : RuntimeSettings) : GeneratedUnit where
  headerName := CName.header code.name code.path
  header := Layout.render (code.headerRows settings)
  sourceName := CName.source code.name code.path
  source := Layout.render code.sourceRows

end UnitCode

def generate (settings : RuntimeSettings) (unit : SourceUnit) (table : SymbolTable) :
    Except CodeError GeneratedUnit := do
  return (← UnitCode.ofUnit unit table).files settings

end StackLang
