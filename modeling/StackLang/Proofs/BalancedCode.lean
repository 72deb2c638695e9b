import StackLang.Proofs.CleanCode
import StackLang.Proofs.DefinedNames

/-! Generated code is balanced. The code of a statement is made from words in which no brace can
stand, or from C code that is balanced by itself, and a block that the code of one statement opens is
closed by the code of another. So the blocks that are open in the text are those of the
indentation. -/
namespace StackLang

open StackLang.Outcome
open Text (Balanced Braceless nest?)

/-! ### Layout -/

namespace Layout

theorem braceless_tabs (count : Nat) : Braceless ("".pushn '\t' count).toList := by
  induction count with
  | zero => exact Text.braceless_nil
  | succ count ih =>
    have pushed : ("".pushn '\t' (count + 1)).toList = ("".pushn '\t' count).toList ++ ['\t'] := by
      simp [String.pushn, Nat.repeat]
    rw [pushed, Text.braceless_append]
    exact ⟨ih, by decide⟩

theorem text_line (layout : Layout) (text : String) :
    (layout.line text).text = layout.text ++ ("".pushn '\t' layout.indent ++ text ++ "\n") := by
  simp only [line, String.append_assoc]

/-- The blocks of a line are those of its text. -/
theorem nest?_line {text : String} {indent inner : Nat} (tabs : Nat)
    (counted : nest? indent text.toList = some inner) :
    nest? indent ("".pushn '\t' tabs ++ text ++ "\n").toList = some inner := by
  have ended : Braceless "\n".toList := by decide
  simp only [String.toList_append, Text.nest?_append, (braceless_tabs tabs).nest?, counted,
    ended.nest?, Option.bind_some]

/-- The blocks that are open in the text are those of the indentation. -/
theorem nest?_write {layout : Layout} {row : Row} {inner : Nat} (fits : row.Fits)
    (counted : row.indent? layout.indent = some inner) :
    ∃ added : String, (layout.write row).text = layout.text ++ added ∧
      nest? layout.indent added.toList = some inner := by
  cases row with
  | line text =>
    cases counted
    exact ⟨_, layout.text_line text, nest?_line _ (Braceless.nest? fits _)⟩
  | opening text =>
    cases counted
    obtain ⟨front, rfl, plain⟩ := fits
    refine ⟨_, layout.text_line _, nest?_line _ ?_⟩
    rw [String.toList_append, Text.nest?_append, plain.nest?]
    rfl
  | closing text =>
    cases outside : layout.indent with
    | zero => rw [outside] at counted; cases counted
    | succ outer =>
      rw [outside] at counted
      cases counted
      subst fits
      exact ⟨_, text_line _ _, nest?_line _ rfl⟩
  | verbatim text =>
    cases counted
    refine ⟨text ++ if text.endsWith "\n" then "" else "\n", String.append_assoc, ?_⟩
    rw [String.toList_append, Text.nest?_append, Balanced.nest? fits]
    split <;> rfl
  | blank =>
    cases counted
    exact ⟨"\n", rfl, rfl⟩

theorem nest?_writeAll (layout : Layout) {rows : List Row} {inner : Nat}
    (fits : ∀ row ∈ rows, row.Fits) (counted : indent? layout.indent rows = some inner) :
    ∃ added : String, (layout.writeAll rows).text = layout.text ++ added ∧
      nest? layout.indent added.toList = some inner := by
  induction rows generalizing layout with
  | nil =>
    cases counted
    exact ⟨"", String.append_empty.symm, rfl⟩
  | cons row rows ih =>
    obtain ⟨here, there⟩ := List.forall_mem_cons.mp fits
    rw [indent?_cons] at counted
    obtain ⟨middle, first, others⟩ := Option.bind_eq_some_iff.mp counted
    obtain ⟨added, written, nested⟩ := nest?_write here first
    rw [← indent_write first] at others nested
    obtain ⟨more, rest, nested'⟩ := ih (layout.write row) there others
    refine ⟨added ++ more, ?_, ?_⟩
    · rw [← String.append_assoc, ← written]
      exact rest
    · rw [String.toList_append, Text.nest?_append, nested]
      exact nested'

end Layout

/-! ### Sources of a program -/

theorem UnitCode.source_eq (code : UnitCode) (settings : RuntimeSettings) :
    (code.files settings).source =
      (Layout.writeAll
        ⟨"#include \"" ++ (code.files settings).headerName ++ "\"\n", 0⟩ code.bodyRows).text := by
  have parted : code.sourceRows = includeRow (CName.header code.name code.path) :: code.bodyRows :=
    rfl
  have first : Layout.write {} (includeRow (CName.header code.name code.path)) =
      ⟨"#include \"" ++ (code.files settings).headerName ++ "\"\n", 0⟩ := by
    have text : "" ++ "".pushn '\t' 0 ++ ("#include \"" ++ CName.header code.name code.path ++ "\"") ++
        "\n" = "#include \"" ++ CName.header code.name code.path ++ "\"\n" := by
      apply String.toList_inj.mp
      simp [String.pushn, Nat.repeat]
    exact congrArg (Layout.mk · 0) text
  rw [← first, files, parted]
  rfl

/-- No block is closed that was not opened before. -/
theorem UnitCode.indent_of_closing {code : UnitCode}
    (level : ∀ definition ∈ code.definitions, Level definition.rows) {front back : List Row}
    {text : String} (parted : code.sourceRows = front ++ .closing text :: back) :
    0 < (Layout.writeAll {} front).indent := by
  have whole : indent? 0 code.sourceRows = some 0 := by
    rw [sourceRows_append (List.append_nil code.definitions).symm, List.flatMap_nil,
      List.append_nil]
    exact level_rowsBefore level 0
  rw [parted, indent?_append] at whole
  obtain ⟨indent, before, closed⟩ := Option.bind_eq_some_iff.mp whole
  rw [Layout.indent_writeAll before]
  cases indent with
  | zero => cases closed
  | succ outer => exact Nat.succ_pos outer

/-- Between any two statements of a body the indentation is one more than the number of loops that
are open there. -/
theorem Frame.indent_between {frame : Frame} {statements : List Statement} {steps : List Step}
    {written : List Row} (stepped : frame.steps 0 statements = .ok steps)
    (opened : indent? 0 written = some 1) {before behind : List Statement}
    (parted : statements = before ++ behind) :
    ∃ emitted depth more, frame.emitted 0 before = .ok (emitted, depth) ∧ steps = emitted ++ more ∧
      (Layout.writeAll {} (written ++ emitted.flatMap Step.rows)).indent = 1 + depth := by
  rw [parted] at stepped
  obtain ⟨emitted, depth, more, made, _, split⟩ := emitted_of_steps stepped
  refine ⟨emitted, depth, more, made, split, Layout.indent_writeAll ?_⟩
  rw [indent?_of_append opened]
  exact indent?_of_emitted made 1

/-- The source of a unit starts with the line that names its header, and the braces behind that line
are balanced. No row closes a block that is not open, and in front of the code of a statement the
indentation is one deeper than the loops that are open there. -/
theorem generated_code_is_balanced {files : Files} {search later : Search} {seeds : List Path}
    {units : List SourceUnit} {table : SymbolTable} {settings : RuntimeSettings}
    {unit : SourceUnit} {generated : GeneratedUnit}
    (compiled : compile files search seeds = (.ok units, later))
    (analyzed : analyze units = .ok table) (member : unit ∈ units)
    (done : generate settings unit table = .ok generated) :
    (∃ body : String, generated.source =
        "#include \"" ++ generated.headerName ++ "\"\n" ++ body ∧ Balanced body.toList) ∧
      ∃ code, UnitCode.ofUnit unit table = .ok code ∧ generated = code.files settings ∧
        (∀ front text back, code.sourceRows = front ++ .closing text :: back →
          0 < (Layout.writeAll {} front).indent) ∧
        ∀ front heading parameters steps back,
          code.definitions = front ++ .function heading parameters steps :: back →
          (∃ rest, code.sourceRows = code.rowsBefore front ++
            bodyStart heading parameters steps ++ (steps.flatMap Step.rows ++ rest)) ∧
          ∃ function ∈ unit.functions, ∃ entry,
            let frame := UnitFrame.within ⟨unit.name, unit.importName, table⟩ function.name entry
            frame.steps 0 function.statements = .ok steps ∧
            ∀ before behind, function.statements = before ++ behind →
              ∃ emitted depth more, frame.emitted 0 before = .ok (emitted, depth) ∧
                steps = emitted ++ more ∧
                (Layout.writeAll {} (code.rowsBefore front ++ bodyStart heading parameters steps ++
                  emitted.flatMap Step.rows)).indent = 1 + depth := by
  have read := compile_compiled compiled
  obtain ⟨code, made, rfl⟩ := ofUnit_of_generate done
  have level := ((read unit member).makes made).level
  constructor
  · have plain : ∀ name ∈ units.map SourceUnit.name, Braceless name.toList := by
      simp only [List.forall_mem_map]
      intro other among
      rw [compile_named compiled other among]
      exact braceless_moduleName other.path
    have spelled := definitions_spelled read analyzed member made
    have counted : indent? 0 code.bodyRows = some 0 := UnitCode.level_rowsBefore level 0
    obtain ⟨body, written, nested⟩ := Layout.nest?_writeAll
      ⟨"#include \"" ++ (code.files settings).headerName ++ "\"\n", 0⟩
      (UnitCode.fits_bodyRows plain spelled) counted
    refine ⟨body, ?_, Text.balanced_iff_nest?.mpr nested⟩
    rw [code.source_eq settings]
    exact written
  · refine ⟨code, made, rfl, fun _ _ _ => UnitCode.indent_of_closing level, ?_⟩
    intro front heading parameters steps back parted
    have flat : Level (code.rowsBefore front) := by
      apply UnitCode.level_rowsBefore
      intro definition inside
      exact level definition (by rw [parted]; exact List.mem_append_left _ inside)
    have opened : indent? 0 (code.rowsBefore front ++ bodyStart heading parameters steps) =
        some 1 := by
      rw [indent?_of_append (flat 0)]
      exact indent?_bodyStart heading parameters steps 0
    constructor
    · rw [UnitCode.sourceRows_append parted]
      refine ⟨heading.endRows ++ back.flatMap Definition.rows, ?_⟩
      simp [Definition.rows, bodyStart]
    · have defined : .function heading parameters steps ∈ code.definitions := by
        rw [parted]
        exact List.mem_append_right _ List.mem_cons_self
      obtain ⟨function, among, _, stepped⟩ :=
        (read unit member).function_of_definition made defined
      exact ⟨function, among, _, stepped, fun _ _ cut => Frame.indent_between stepped opened cut⟩

/-- A function with a jump and C code inside of two loops, behind C code of its own. -/
def nestedSource : List UInt8 :=
  ("__c \x7b struct s \x7b int n; \x7d; \x7d\nfn main() \x7b\nloop\nfor 0 1 3\nje out\n" ++
    "__c \x7b \x7b\x7d \x7d\nend\nend\nout:\n\x7d\n").toUTF8.toList

def nestedFiles : Files where
  entries := [(["w"], .directory), (["w", "main.qd"], .file nestedSource none)]
  working := ["w"]

theorem loops_and_c_code_are_balanced :
    ∃ main table later generated code,
      compile nestedFiles ⟨[], []⟩ [⟨"main.qd"⟩] = (.ok [main], later) ∧
      analyze [main] = .ok table ∧ generate {} main table = .ok generated ∧
      UnitCode.ofUnit main table = .ok code ∧ generated = code.files {} ∧
      code.sourceRows.count (.closing "\x7d") = 5 ∧
      (∀ front text back, code.sourceRows = front ++ .closing text :: back →
        0 < (Layout.writeAll {} front).indent) ∧
      ∃ body : String, generated.source =
        "#include \"" ++ generated.headerName ++ "\"\n" ++ body ∧ Balanced body.toList := by
  have accepted : (do
      let one := SourceUnit.compile ⟨⟨"/w/main.qd"⟩, none, [], none⟩ nestedFiles ⟨[], []⟩ nestedSource
      let main ← one.1.toOption
      let table ← (analyze [main.1]).toOption
      let code ← (UnitCode.ofUnit main.1 table).toOption
      return (main.1.requests, code.sourceRows.count (.closing "\x7d"))) = some ([], 5) := by
    decide +kernel
  obtain ⟨⟨main, imports⟩, read, accepted⟩ := Option.bind_eq_some_iff.mp accepted
  obtain ⟨table, analyzed, accepted⟩ := Option.bind_eq_some_iff.mp accepted
  obtain ⟨code, made, accepted⟩ := Option.bind_eq_some_iff.mp accepted
  simp only [Option.pure_def, Option.some.injEq, Prod.mk.injEq] at accepted
  obtain ⟨alone, blocks⟩ := accepted
  have analyzed := eq_ok_of_toOption analyzed
  have made := eq_ok_of_toOption made
  have compiled : compile nestedFiles ⟨[], []⟩ [⟨"main.qd"⟩] = (.ok [main], _) :=
    compile_loneFile (Prod.ext (eq_ok_of_toOption read) rfl) alone
  have done : generate {} main table = .ok (code.files {}) := by
    rw [generate, made]
    rfl
  obtain ⟨balanced, same, remade, _, closes, _⟩ :=
    generated_code_is_balanced compiled analyzed List.mem_cons_self done
  rw [made] at remade
  cases remade
  exact ⟨main, table, _, _, code, compiled, analyzed, done, made, rfl, blocks, closes, balanced⟩

end StackLang
