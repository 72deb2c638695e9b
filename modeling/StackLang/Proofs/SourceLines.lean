import StackLang.Proofs.GeneratedCode

/-! Rows and the lines that they become. Every row ends a line, a block that is opened is closed
again in the same definition, and so the first row of a definition is a line that is not indented.
The rows inside of a function are told from labels and from the entry point by how they are
spelled. -/
namespace StackLang

open StackLang.Outcome

def EndsLines (text : String) : Prop := text = "" ∨ ∃ front : String, text = front ++ "\n"

def HasLine (text line : String) : Prop :=
  ∃ before behind : String, text = before ++ line ++ "\n" ++ behind ∧ EndsLines before

/-! ### Indentation -/

/-- The indentation behind a row, unless the row closes a block that is not there. -/
def Row.indent? : Nat → Row → Option Nat
  | indent, .opening _ => some (indent + 1)
  | 0, .closing _ => none
  | outer + 1, .closing _ => some outer
  | indent, _ => some indent

def indent? (indent : Nat) (rows : List Row) : Option Nat := rows.foldlM Row.indent? indent

theorem indent?_cons (indent : Nat) (row : Row) (rows : List Row) :
    indent? indent (row :: rows) = (row.indent? indent).bind fun inner => indent? inner rows := rfl

theorem indent?_append (indent : Nat) (front back : List Row) :
    indent? indent (front ++ back) = (indent? indent front).bind fun inner => indent? inner back :=
  List.foldlM_append

theorem indent?_of_append {indent inner : Nat} {front : List Row}
    (counted : indent? indent front = some inner) (back : List Row) :
    indent? indent (front ++ back) = indent? inner back := by
  rw [indent?_append, counted]
  rfl

/-- Rows that close what they open. -/
def Level (rows : List Row) : Prop := ∀ indent, indent? indent rows = some indent

theorem Level.append {front back : List Row} (first : Level front) (second : Level back) :
    Level (front ++ back) := by
  intro indent
  rw [indent?_of_append (first indent), second]

theorem level_map {α : Type} {row : α → Row} (plain : ∀ item indent,
    (row item).indent? indent = some indent) (items : List α) : Level (items.map row) := by
  intro indent
  induction items with
  | nil => rfl
  | cons item items ih =>
    rw [List.map_cons, indent?_cons, plain]
    exact ih

/-- Rows that neither open nor close a block. -/
def Flat (rows : List Row) : Prop := ∀ row ∈ rows, ∀ indent, row.indent? indent = some indent

theorem Flat.level {rows : List Row} (flat : Flat rows) : Level rows := by
  intro indent
  induction rows with
  | nil => rfl
  | cons row rows ih =>
    obtain ⟨first, others⟩ := List.forall_mem_cons.mp flat
    rw [indent?_cons, first]
    exact ih others

theorem level_underflowGuard (count : Nat) : Level (underflowGuard count) := by
  intro indent
  rfl

theorem level_popParameters (parameters : List String) : Level (popParameters parameters) := by
  unfold popParameters
  split
  · exact fun _ => rfl
  · exact (level_underflowGuard _).append (level_map (fun _ _ => rfl) _)

theorem level_jumpRows (which : Jump) (target : String) : Level (jumpRows which target) := by
  unfold jumpRows
  dsimp only
  split
  · exact fun _ => rfl
  · exact (level_underflowGuard _).append fun _ => rfl

theorem Frame.Lowers.indent? {frame : Frame} {depth inner : Nat} {action : Action}
    {code : Step} (lowers : frame.Lowers depth action code inner) (base : Nat) :
    StackLang.indent? (base + depth) code.rows = some (base + inner) := by
  cases lowers with
  | call called => cases called <;> rfl
  | takeLocal => exact ((level_underflowGuard 1).append fun _ => rfl) _
  | jump => exact level_jumpRows _ _ _
  | _ => rfl

/-- The code of the first statements of a body, and how many loops are open behind them. -/
def Frame.emitted (frame : Frame) (depth : Nat) :
    List Statement → Except CodeError (List Step × Nat)
  | [] => .ok ([], depth)
  | statement :: rest => do
    let (step, inner) ← frame.step depth statement.action
    let (steps, last) ← frame.emitted inner rest
    return (step :: steps, last)

/-- The code of a body can be cut between any two of its statements. -/
theorem Frame.emitted_of_steps {frame : Frame} {depth : Nat} {before behind : List Statement}
    {steps : List Step} (done : frame.steps depth (before ++ behind) = .ok steps) :
    ∃ emitted inner more, frame.emitted depth before = .ok (emitted, inner) ∧
      frame.steps inner behind = .ok more ∧ steps = emitted ++ more := by
  induction before generalizing depth steps with
  | nil => exact ⟨[], depth, steps, rfl, done, rfl⟩
  | cons statement before ih =>
    obtain ⟨⟨code, middle⟩, first, done⟩ := bind_ok done
    obtain ⟨others, later, done⟩ := bind_ok done
    cases done
    obtain ⟨emitted, inner, more, made, rest, rfl⟩ := ih later
    refine ⟨code :: emitted, inner, more, ?_, rest, rfl⟩
    rw [Frame.emitted, first]
    change (frame.emitted middle before >>= _) = _
    rw [made]
    rfl

/-- The indentation of the code of a body follows the open loops. -/
theorem Frame.indent?_of_emitted {frame : Frame} {depth inner : Nat} {statements : List Statement}
    {steps : List Step} (done : frame.emitted depth statements = .ok (steps, inner)) (base : Nat) :
    indent? (base + depth) (steps.flatMap Step.rows) = some (base + inner) := by
  induction statements generalizing depth steps with
  | nil =>
    cases done
    rfl
  | cons statement statements ih =>
    obtain ⟨⟨code, middle⟩, first, done⟩ := bind_ok done
    obtain ⟨⟨others, last⟩, later, done⟩ := bind_ok done
    cases done
    rw [List.flatMap_cons, indent?_of_append ((lowers_of_step first).indent? base)]
    exact ih later

theorem Frame.indent?_of_steps {frame : Frame} {depth : Nat} {statements : List Statement}
    {steps : List Step} (done : frame.steps depth statements = .ok steps) (base : Nat) :
    indent? (base + depth) (steps.flatMap Step.rows) = some base := by
  rw [← List.append_nil statements] at done
  obtain ⟨emitted, inner, more, made, rest, rfl⟩ := emitted_of_steps done
  rw [Frame.steps] at rest
  split at rest
  · next closed =>
    cases rest
    rw [List.append_nil, indent?_of_emitted made, closed]
    rfl
  · cases rest

def bodyStart (heading : Heading) (parameters : List String) (steps : List Step) : List Row :=
  heading.rows ++ (slotsOf parameters steps).map declareSlot ++ popParameters parameters

/-- The body of a function is indented by one. -/
theorem indent?_bodyStart (heading : Heading) (parameters : List String) (steps : List Step)
    (indent : Nat) : indent? indent (bodyStart heading parameters steps) = some (indent + 1) := by
  have opened : indent? indent heading.rows = some (indent + 1) := by cases heading <;> rfl
  have declared : Level ((slotsOf parameters steps).map declareSlot) :=
    level_map (fun _ _ => rfl) _
  rw [bodyStart, List.append_assoc, indent?_of_append opened]
  exact declared.append (level_popParameters parameters) _

theorem UnitFrame.level_of_function {frame : UnitFrame} {name : String} {parameters : List String}
    {statements : List Statement} {definition : Definition}
    (done : frame.function name parameters statements = .ok definition) :
    Level definition.rows := by
  obtain ⟨heading, steps, _, stepped, rfl⟩ := function_ok done
  intro indent
  have inside := Frame.indent?_of_steps stepped (indent + 1)
  have closed : indent? (indent + 1) heading.endRows = some indent := by cases heading <;> rfl
  have parted : (Definition.function heading parameters steps).rows =
      bodyStart heading parameters steps ++ (steps.flatMap Step.rows ++ heading.endRows) := by
    rw [← List.append_assoc]
    rfl
  rw [parted, indent?_of_append (indent?_bodyStart heading parameters steps indent),
    indent?_of_append inside, closed]

theorem UnitFrame.Makes.level {frame : UnitFrame} {statements : List Statement}
    {definitions : List Definition} (makes : frame.Makes statements definitions) :
    ∀ definition ∈ definitions, Level definition.rows := by
  intro definition member
  cases kind : definition.isFunction with
  | true =>
    have listed := List.mem_filter.mpr ⟨member, kind⟩
    obtain ⟨function, _, built⟩ := exists_of_forall₂ makes.functions listed
    exact level_of_function built
  | false =>
    cases definition with
    | function => cases kind
    | constant => exact fun _ => rfl
    | verbatim => exact fun _ => rfl

theorem level_flatMap {α : Type} {rows : α → List Row} {items : List α}
    (level : ∀ item ∈ items, Level (rows item)) : Level (items.flatMap rows) := by
  induction items with
  | nil => exact fun _ => rfl
  | cons item items ih =>
    obtain ⟨first, others⟩ := List.forall_mem_cons.mp level
    exact first.append (ih others)

/-! ### Rows of a function -/

def Step.label? : Step → Option String
  | .label name => some name
  | _ => none

def labelRow (name : String) : Row := .line (name ++ ":;")

def entryLine : String := "int main(int argc, char** argv) \x7b"

/-- A row of a function that neither opens the entry point nor is the line of a label: a line has a
character that no name has, or no colon, and a block does not start like a type. -/
def Row.Inner : Row → Prop
  | .line text => ' ' ∈ text.toList ∨ '(' ∈ text.toList ∨ ':' ∉ text.toList
  | .opening text => text.toList.take 2 ≠ ['i', 'n']
  | _ => True

theorem inner_underflowGuard (count : Nat) : ∀ row ∈ underflowGuard count, row.Inner := by
  simp [underflowGuard, Row.Inner]

theorem inner_popInto (name : String) : (popInto name).Inner := by
  simp [popInto, Row.Inner]

theorem inner_popParameters (parameters : List String) :
    ∀ row ∈ popParameters parameters, row.Inner := by
  unfold popParameters
  split
  · simp
  · intro row member
    rcases List.mem_append.mp member with guarded | popped
    · exact inner_underflowGuard _ row guarded
    · obtain ⟨name, _, rfl⟩ := List.mem_map.mp popped
      exact inner_popInto name

theorem inner_declareSlots (slots : List String) : ∀ row ∈ slots.map declareSlot, row.Inner := by
  intro row member
  obtain ⟨slot, _, rfl⟩ := List.mem_map.mp member
  simp [declareSlot, Row.Inner]

theorem inner_callText (called : String) (arguments : List Expression) :
    (Row.line (callText called arguments)).Inner := by
  simp [callText, Row.Inner]

theorem inner_jumpRows (which : Jump) (target : String) :
    ∀ row ∈ jumpRows which target, row.Inner := by
  unfold jumpRows
  dsimp only
  split
  · simp [Row.Inner]
  · intro row member
    rcases List.mem_append.mp member with guarded | behind
    · exact inner_underflowGuard _ row guarded
    · simp only [List.mem_cons, List.not_mem_nil, or_false] at behind
      rcases behind with rfl | rfl | rfl | rfl <;> simp [Row.Inner]

theorem take_two_append {text : String} {first second : Char}
    (starts : text.toList.take 2 = [first, second]) (more : String) :
    (text ++ more).toList.take 2 = [first, second] := by
  have long : 2 ≤ text.toList.length := by
    have length := congrArg List.length starts
    simp only [List.length_take, List.length_cons, List.length_nil] at length
    omega
  rw [String.toList_append, List.take_append_of_le_length long, starts]

theorem inner_countedText (depth : Nat) (start step stop : String) :
    (Row.opening (countedText depth start step stop)).Inner := by
  have starts : (countedText depth start step stop).toList.take 2 = ['f', 'o'] := by
    unfold countedText
    dsimp only
    repeat refine take_two_append ?_ _
    rfl
  rw [Row.Inner, starts]
  decide

theorem inner_endlessText (depth : Nat) : (Row.opening (endlessText depth)).Inner := by
  have starts : (endlessText depth).toList.take 2 = ['f', 'o'] := by
    unfold endlessText
    dsimp only
    repeat refine take_two_append ?_ _
    rfl
  rw [Row.Inner, starts]
  decide

theorem Step.inner {step : Step} (other : step.label? = none) :
    ∀ row ∈ step.rows, row.Inner := by
  cases step with
  | call callee arguments =>
    cases callee <;> exact List.forall_mem_singleton.mpr (inner_callText _ _)
  | take name =>
    simp only [Step.rows, List.forall_mem_append, List.forall_mem_singleton]
    exact ⟨inner_underflowGuard 1, inner_popInto name⟩
  | label name => cases other
  | jump which target => exact inner_jumpRows which target
  | openCounted depth start step stop =>
    exact List.forall_mem_singleton.mpr (inner_countedText depth start.text step.text stop.text)
  | openEndless depth => exact List.forall_mem_singleton.mpr (inner_endlessText depth)
  | leave entry => cases entry <;> simp [Step.rows, returnText, Row.Inner]
  | _ => simp [Step.rows, Row.Inner]

theorem Heading.inner_named (unit name : String) :
    ∀ row ∈ (Heading.named unit name).rows, row.Inner := by
  simp [Heading.rows, Row.Inner]

theorem Heading.inner_endRows (heading : Heading) : ∀ row ∈ heading.endRows, row.Inner := by
  cases heading <;> simp [Heading.endRows, returnText, Row.Inner]

/-! ### Lines -/

namespace Layout

theorem indent_write {layout : Layout} {row : Row} {inner : Nat}
    (counted : row.indent? layout.indent = some inner) : (layout.write row).indent = inner := by
  cases row with
  | closing text =>
    cases outside : layout.indent with
    | zero => rw [outside] at counted; cases counted
    | succ outer =>
      rw [outside] at counted
      cases counted
      simp [write, line, outside]
  | line | opening | verbatim | blank =>
    simp only [Row.indent?, Option.some.injEq] at counted
    exact counted

theorem indent_writeAll {layout : Layout} {rows : List Row} {inner : Nat}
    (counted : indent? layout.indent rows = some inner) :
    (layout.writeAll rows).indent = inner := by
  induction rows generalizing layout with
  | nil => exact Option.some.inj counted
  | cons row rows ih =>
    rw [indent?_cons] at counted
    obtain ⟨middle, first, others⟩ := Option.bind_eq_some_iff.mp counted
    rw [← indent_write first] at others
    exact ih others

/-- A row adds whole lines. -/
theorem text_write (layout : Layout) (row : Row) :
    ∃ added : String, (layout.write row).text = layout.text ++ added ++ "\n" := by
  cases row with
  | line text => exact ⟨_, congrArg (· ++ "\n") String.append_assoc⟩
  | opening text => exact ⟨_, congrArg (· ++ "\n") String.append_assoc⟩
  | closing text => exact ⟨_, congrArg (· ++ "\n") String.append_assoc⟩
  | verbatim text =>
    by_cases ended : text.endsWith "\n" = true
    · have suffix : "\n".toList <:+ text.toList := by
        rw [String.endsWith_eq_endsWith_toSlice, String.Slice.endsWith_string_iff] at ended
        simpa using ended
      obtain ⟨front, spelled⟩ := suffix
      have same : text = String.ofList front ++ "\n" := by
        apply String.toList_inj.mp
        rw [← spelled]
        simp
      refine ⟨String.ofList front, ?_⟩
      simp only [write, ended, if_true, String.append_empty]
      rw [same, String.append_assoc]
    · refine ⟨text, ?_⟩
      simp [write, ended]
  | blank => exact ⟨"", by simp [write]⟩

theorem text_writeAll (layout : Layout) (rows : List Row) :
    ∃ added : String, (layout.writeAll rows).text = layout.text ++ added := by
  induction rows generalizing layout with
  | nil => exact ⟨"", by simp [writeAll]⟩
  | cons row rows ih =>
    obtain ⟨first, written⟩ := layout.text_write row
    obtain ⟨others, added⟩ := ih (layout.write row)
    refine ⟨first ++ "\n" ++ others, ?_⟩
    have whole : (layout.writeAll (row :: rows)).text = ((layout.write row).writeAll rows).text :=
      rfl
    rw [whole, added, written]
    simp [String.append_assoc]

theorem endsLines_writeAll {layout : Layout} (ended : EndsLines layout.text) (rows : List Row) :
    EndsLines (layout.writeAll rows).text := by
  induction rows generalizing layout with
  | nil => exact ended
  | cons row rows ih =>
    obtain ⟨added, written⟩ := layout.text_write row
    exact ih (.inr ⟨_, written⟩)

/-- A row behind rows that are level is a line of the text. -/
theorem hasLine_render {front back : List Row} {row : Row} {text : String} (level : Level front)
    (shown : row = .line text ∨ row = .opening text) :
    HasLine (render (front ++ row :: back)) text := by
  have flush : (writeAll {} front).indent = 0 := indent_writeAll (level 0)
  have unindented : "".pushn '\t' 0 = "" := rfl
  have written : ((writeAll {} front).write row).text =
      (writeAll {} front).text ++ text ++ "\n" := by
    rcases shown with rfl | rfl <;> simp [write, line, flush, unindented]
  obtain ⟨behind, rest⟩ := ((writeAll {} front).write row).text_writeAll back
  refine ⟨(writeAll {} front).text, behind, ?_, endsLines_writeAll (.inl rfl) front⟩
  rw [render, writeAll_append]
  rw [← written, ← rest]
  rfl

theorem hasLine_of_flat {front back : List Row} {text : String} (flat : Flat front)
    (member : .line text ∈ front) : HasLine (render (front ++ back)) text := by
  obtain ⟨before, behind, rfl⟩ := List.append_of_mem member
  have level : Level before := Flat.level (List.forall_mem_append.mp flat).1
  rw [List.append_assoc, List.cons_append]
  exact hasLine_render level (.inl rfl)

end Layout

/-- The rows of a source in front of one of its definitions, and behind the last one. -/
def UnitCode.rowsBefore (code : UnitCode) (front : List Definition) : List Row :=
  includeRow (CName.header code.name code.path) :: .blank ::
    (spaced (code.foreign.map .line) ++ front.flatMap Definition.rows)

theorem UnitCode.sourceRows_append {code : UnitCode} {front back : List Definition}
    (parted : code.definitions = front ++ back) :
    code.sourceRows = code.rowsBefore front ++ back.flatMap Definition.rows := by
  simp [sourceRows, rowsBefore, parted]

theorem UnitCode.level_rowsBefore {code : UnitCode} {front : List Definition}
    (level : ∀ definition ∈ front, Level definition.rows) : Level (code.rowsBefore front) := by
  have heading : Level [includeRow (CName.header code.name code.path), .blank] := fun _ => rfl
  have foreign : Level (spaced (code.foreign.map .line)) := by
    unfold spaced
    split
    · exact fun _ => rfl
    · exact (level_map (fun _ _ => rfl) _).append fun _ => rfl
  exact heading.append (foreign.append (level_flatMap level))

/-- The first row of a definition is a line of the source. -/
theorem UnitCode.hasLine_source {code : UnitCode} {definition : Definition} {row : Row}
    {more : List Row} {text : String} (settings : RuntimeSettings)
    (level : ∀ definition ∈ code.definitions, Level definition.rows)
    (member : definition ∈ code.definitions) (rows : definition.rows = row :: more)
    (shown : row = .line text ∨ row = .opening text) :
    HasLine (code.files settings).source text := by
  obtain ⟨front, back, parted⟩ := List.append_of_mem member
  have frontLevel : Level (code.rowsBefore front) := by
    apply level_rowsBefore
    intro definition inside
    exact level definition (by rw [parted]; exact List.mem_append_left _ inside)
  change HasLine (Layout.render code.sourceRows) text
  rw [sourceRows_append parted, List.flatMap_cons, rows, List.cons_append]
  exact Layout.hasLine_render frontLevel shown

end StackLang
