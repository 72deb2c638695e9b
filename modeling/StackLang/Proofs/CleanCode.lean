import StackLang.Proofs.SourceLines
import StackLang.Proofs.SpelledCode

/-! Code without braces of its own. In a name or a number no brace can stand and C code is balanced,
so the braces in the rows of a definition are those of the blocks that the rows open and close. -/
namespace StackLang

open Text (Balanced Braceless)

/-! ### Words without braces -/

namespace Lexeme

theorem braceless_of_isDigit {digits : List Char} (counted : ∀ c ∈ digits, isDigit c = true) :
    Braceless digits :=
  Text.braceless_of_forall counted rfl rfl

theorem Fraction.braceless {part : List Char} (pointed : Fraction part) : Braceless part := by
  cases pointed with
  | none => exact Text.braceless_nil
  | @point digits counted =>
    rw [← List.singleton_append, Text.braceless_append]
    exact ⟨by decide, braceless_of_isDigit counted⟩

theorem Exponent.braceless {power : List Char} (raised : Exponent power) : Braceless power := by
  cases raised with
  | none => exact Text.braceless_nil
  | power marked signed _ counted =>
    rw [← List.singleton_append, Text.braceless_append, Text.braceless_append]
    refine ⟨?_, ?_, braceless_of_isDigit counted⟩
    · rcases marked with rfl | rfl <;> decide
    · rcases signed with rfl | rfl | rfl <;> decide

theorem Numeral.braceless {lexeme : List Char} (numeral : Numeral lexeme) : Braceless lexeme := by
  obtain ⟨signed, _, counted, pointed, raised⟩ := numeral
  simp only [Text.braceless_append]
  refine ⟨?_, braceless_of_isDigit counted, pointed.braceless, raised.braceless⟩
  rcases signed with rfl | rfl <;> decide

end Lexeme

theorem braceless_toString (value : Nat) : Braceless (toString value).toList := by
  apply Lexeme.braceless_of_isDigit
  intro c member
  exact Lexeme.isDigit_of_mem_toString member

theorem braceless_of_isIdentifier {word : String} (named : Lexeme.isIdentifier word = true) :
    Braceless word.toList :=
  Text.braceless_of_forall (fun _ member => Lexeme.isWordPart_of_isIdentifier named member) rfl rfl

theorem braceless_moduleName (path : Path) : Braceless (moduleName path).toList :=
  Text.braceless_of_forall (fun _ member => isWordPart_of_mem_moduleName member) rfl rfl

/-! ### Code without braces of its own -/

/-- A row whose braces are those that it stands for. -/
def Row.Fits : Row → Prop
  | .line text => Braceless text.toList
  | .opening text => ∃ front : String, text = front ++ "\x7b" ∧ Braceless front.toList
  | .closing text => text = "\x7d"
  | .verbatim code => Balanced code.toList
  | .blank => True

theorem braceless_slot {name : String} (named : Lexeme.isIdentifier name = true) :
    Braceless (CName.slot name).toList := by
  rw [CName.slot, String.toList_append, Text.braceless_append]
  exact ⟨by decide, braceless_of_isIdentifier named⟩

theorem braceless_iterator (depth : Nat) : Braceless (CName.iterator depth).toList := by
  rw [CName.iterator, String.toList_append, Text.braceless_append]
  exact ⟨by decide, braceless_toString depth⟩

theorem braceless_cast {text : String} (plain : Braceless text.toList) :
    Braceless (Expression.cast text).toList := by
  simp only [Expression.cast, String.toList_append, Text.braceless_append]
  exact ⟨by decide, plain⟩

/-- A line that opens a block has a brace at its end only. -/
theorem fits_opening {front last : String} (plain : Braceless front.toList)
    (ends : ∃ text : String, last = text ++ "\x7b" ∧ Braceless text.toList) :
    (Row.opening (front ++ last)).Fits := by
  obtain ⟨text, rfl, plain'⟩ := ends
  refine ⟨front ++ text, String.append_assoc.symm, ?_⟩
  rw [String.toList_append, Text.braceless_append]
  exact ⟨plain, plain'⟩

theorem fits_underflowGuard (count : Nat) : ∀ row ∈ underflowGuard count, row.Fits := by
  simp only [underflowGuard, List.forall_mem_cons]
  refine ⟨fits_opening ?_ ⟨") ", rfl, by decide⟩, ?_, rfl, by simp⟩
  · rw [String.toList_append, Text.braceless_append]
    exact ⟨by decide, braceless_toString count⟩
  · rw [Row.Fits]
    decide

theorem fits_popInto {name : String} (named : Lexeme.isIdentifier name = true) :
    (popInto name).Fits := by
  rw [popInto, Row.Fits, String.toList_append, Text.braceless_append]
  exact ⟨braceless_slot named, by decide⟩

theorem braceless_comparison {which : Jump} {comparison : String}
    (compares : which.comparison? = some comparison) : Braceless comparison.toList := by
  cases which <;> cases compares <;> decide

theorem braceless_conditionText (operands : Nat) {comparison : String}
    (plain : Braceless comparison.toList) :
    Braceless (conditionText operands comparison).toList := by
  have compared {right : String} (plain' : Braceless right.toList) :
      Braceless ("__qd_stack[__qd_stack_ptr] " ++ comparison ++ " " ++ right).toList := by
    simp only [String.toList_append, Text.braceless_append]
    exact ⟨⟨⟨by decide, plain⟩, by decide⟩, plain'⟩
  unfold conditionText
  split
  · exact compared (by decide)
  · exact compared (by decide)

theorem fits_jumpRows (which : Jump) {target : String}
    (named : Lexeme.isIdentifier target = true) : ∀ row ∈ jumpRows which target, row.Fits := by
  have plain := braceless_of_isIdentifier named
  have goto : (Row.line ("goto " ++ target ++ ";")).Fits := by
    simp only [Row.Fits, String.toList_append, Text.braceless_append]
    exact ⟨⟨by decide, plain⟩, by decide⟩
  unfold jumpRows
  dsimp only
  split
  · simpa using goto
  · next comparison compares =>
    have lowered : (Row.line ("__qd_stack_ptr -= " ++ toString which.operands ++ ";")).Fits := by
      simp only [Row.Fits, String.toList_append, Text.braceless_append]
      exact ⟨⟨by decide, braceless_toString _⟩, by decide⟩
    have condition := braceless_conditionText which.operands (braceless_comparison compares)
    have opened : (Row.opening
        ("if (" ++ conditionText which.operands comparison ++ ") \x7b")).Fits := by
      apply fits_opening _ ⟨") ", rfl, by decide⟩
      rw [String.toList_append, Text.braceless_append]
      exact ⟨by decide, condition⟩
    simp only [List.forall_mem_append, List.forall_mem_cons]
    exact ⟨fits_underflowGuard _, lowered, opened, goto, rfl, by simp⟩

theorem fits_countedText {start step stop : String} (plain : Braceless start.toList)
    (plain' : Braceless step.toList) (plain'' : Braceless stop.toList) (depth : Nat) :
    (Row.opening (countedText depth start step stop)).Fits := by
  have count := braceless_iterator depth
  refine fits_opening ?_ ⟨")) ", rfl, by decide⟩
  simp only [CName.real, String.toList_append, Text.braceless_append, count, plain, plain', plain'']
  decide

theorem fits_endlessText (depth : Nat) : (Row.opening (endlessText depth)).Fits := by
  have count := braceless_iterator depth
  refine fits_opening ?_ ⟨" += 1) ", rfl, by decide⟩
  simp only [CName.real, String.toList_append, Text.braceless_append, count]
  decide

section Spelled

variable {units : List String} (plain : ∀ unit ∈ units, Braceless unit.toList)

include plain

theorem braceless_symbol {unit name : String}
    (spelled : unit ∈ units ∧ Lexeme.isIdentifier name = true) :
    Braceless (CName.symbol unit name).toList := by
  simp only [CName.symbol, String.toList_append, Text.braceless_append]
  exact ⟨⟨⟨by decide, plain unit spelled.1⟩, by decide⟩, braceless_of_isIdentifier spelled.2⟩

theorem Expression.Spelled.braceless {expression : Expression}
    (spelled : expression.Spelled units) : Braceless expression.text.toList := by
  cases expression with
  | number => exact braceless_cast (Lexeme.Numeral.braceless spelled)
  | code value => exact braceless_cast (braceless_toString value)
  | constant => exact braceless_symbol plain spelled
  | slot => exact braceless_slot spelled
  | address name =>
    apply braceless_cast
    rw [String.toList_append, Text.braceless_append]
    exact ⟨by decide, braceless_slot spelled⟩
  | iterator depth => exact braceless_iterator depth

theorem fits_callText {called : String} {arguments : List Expression}
    (named : Braceless called.toList) (spelled : ∀ argument ∈ arguments, argument.Spelled units) :
    (Row.line (callText called arguments)).Fits := by
  have given : Braceless
      (", ".intercalate (toString arguments.length :: arguments.map Expression.text)).toList := by
    rw [String.toList_intercalate]
    apply Text.braceless_intercalate (by decide)
    simp only [List.map_cons, List.map_map, List.forall_mem_cons, List.forall_mem_map]
    exact ⟨braceless_toString _, fun argument member => (spelled argument member).braceless plain⟩
  simp only [Row.Fits, callText, String.toList_append, Text.braceless_append]
  exact ⟨⟨⟨named, by decide⟩, given⟩, by decide⟩

theorem Step.Spelled.fits {step : Step} (spelled : step.Spelled units) :
    ∀ row ∈ step.rows, row.Fits := by
  cases step with
  | call callee arguments =>
    obtain ⟨called, given⟩ := spelled
    cases callee with
    | primitive name =>
      refine List.forall_mem_singleton.mpr (fits_callText plain ?_ given)
      rw [CName.primitive, String.toList_append, Text.braceless_append]
      exact ⟨by decide, braceless_of_isIdentifier (Primitive.isIdentifier_of_isName called)⟩
    | function =>
      exact List.forall_mem_singleton.mpr (fits_callText plain (braceless_symbol plain called) given)
    | value =>
      refine List.forall_mem_singleton.mpr (fits_callText plain (by decide) ?_)
      exact List.forall_mem_cons.mpr ⟨called, given⟩
  | verbatim => exact List.forall_mem_singleton.mpr spelled
  | take name =>
    simp only [Step.rows, List.forall_mem_append, List.forall_mem_singleton]
    exact ⟨fits_underflowGuard 1, fits_popInto spelled⟩
  | label name =>
    refine List.forall_mem_singleton.mpr ?_
    rw [Row.Fits, String.toList_append, Text.braceless_append]
    exact ⟨braceless_of_isIdentifier spelled, by decide⟩
  | jump which target => exact fits_jumpRows which spelled
  | openCounted depth start step stop =>
    have text := fun bound member => (spelled bound member).braceless plain
    exact List.forall_mem_singleton.mpr (fits_countedText (text start (by simp))
      (text step (by simp)) (text stop (by simp)) depth)
  | openEndless depth => exact List.forall_mem_singleton.mpr (fits_endlessText depth)
  | close => exact List.forall_mem_singleton.mpr rfl
  | breakLoop | continueLoop => exact List.forall_mem_singleton.mpr (by rw [Row.Fits]; decide)
  | pushIterator depth =>
    refine List.forall_mem_singleton.mpr ?_
    simp only [Row.Fits, String.toList_append, Text.braceless_append]
    exact ⟨⟨by decide, braceless_iterator depth⟩, by decide⟩
  | leave entry =>
    refine List.forall_mem_singleton.mpr ?_
    rw [Row.Fits]
    cases entry <;> decide
  | reduce reduction =>
    refine List.forall_mem_singleton.mpr ?_
    rw [Row.Fits]
    cases reduction <;> decide

theorem Heading.Spelled.fits {heading : Heading} (spelled : heading.Spelled units) :
    (∀ row ∈ heading.rows, row.Fits) ∧ ∀ row ∈ heading.endRows, row.Fits := by
  cases heading with
  | entry =>
    have opened : (Row.opening entryLine).Fits :=
      ⟨"int main(int argc, char** argv) ", rfl, by decide⟩
    constructor
    · simp only [Heading.rows, List.forall_mem_cons]
      exact ⟨opened, by rw [Row.Fits]; decide, by rw [Row.Fits]; decide, by simp⟩
    · simp only [Heading.endRows, List.forall_mem_cons]
      exact ⟨by rw [Row.Fits]; decide, rfl, trivial, by simp⟩
  | named unit name =>
    have opened :
        (Row.opening ("void " ++ CName.symbol unit name ++ "(int argc, ...) \x7b")).Fits := by
      apply fits_opening _ ⟨"(int argc, ...) ", rfl, by decide⟩
      rw [String.toList_append, Text.braceless_append]
      exact ⟨by decide, braceless_symbol plain spelled⟩
    constructor
    · simp only [Heading.rows, List.forall_mem_cons]
      exact ⟨opened, by rw [Row.Fits]; decide, by rw [Row.Fits]; decide, by rw [Row.Fits]; decide,
        by rw [Row.Fits]; decide, by simp⟩
    · simp only [Heading.endRows, List.forall_mem_cons]
      exact ⟨rfl, trivial, by simp⟩

theorem Definition.Spelled.fits {definition : Definition} (spelled : definition.Spelled units) :
    ∀ row ∈ definition.rows, row.Fits := by
  cases definition with
  | function heading parameters steps =>
    have slots := spelled.isIdentifier_of_mem_slotsOf
    obtain ⟨headed, given, stepped⟩ := spelled
    have declared : ∀ row ∈ (slotsOf parameters steps).map declareSlot, row.Fits := by
      intro row member
      obtain ⟨name, listed, rfl⟩ := List.mem_map.mp member
      simp only [declareSlot, CName.real, Row.Fits, String.toList_append, Text.braceless_append]
      exact ⟨⟨by decide, braceless_slot (slots name listed)⟩, by decide⟩
    have popped : ∀ row ∈ popParameters parameters, row.Fits := by
      unfold popParameters
      split
      · simp
      · rw [List.forall_mem_append]
        refine ⟨fits_underflowGuard _, ?_⟩
        intro row member
        obtain ⟨name, listed, rfl⟩ := List.mem_map.mp member
        exact fits_popInto (given name (List.mem_reverse.mp listed))
    have body : ∀ row ∈ steps.flatMap Step.rows, row.Fits := by
      intro row member
      obtain ⟨step, among, inside⟩ := List.mem_flatMap.mp member
      exact (stepped step among).fits plain row inside
    simp only [Definition.rows, List.forall_mem_append]
    exact ⟨⟨⟨⟨(headed.fits plain).1, declared⟩, popped⟩, body⟩, (headed.fits plain).2⟩
  | constant unit name literal =>
    obtain ⟨owner, named, numeral⟩ := spelled
    simp only [Definition.rows, List.forall_mem_cons]
    refine ⟨?_, trivial, by simp⟩
    have symbol := braceless_symbol plain ⟨owner, named⟩
    simp only [CName.real, Row.Fits, String.toList_append, Text.braceless_append, symbol,
      numeral.braceless]
    decide
  | verbatim code =>
    simp only [Definition.rows, List.forall_mem_cons]
    exact ⟨spelled, trivial, by simp⟩

theorem braceless_declaration {global : Global} (spelled : global.Spelled units) :
    Braceless global.declaration.toList := by
  cases global with
  | function unit name =>
    change Braceless ("void " ++ CName.symbol unit name ++ "(int argc, ...);").toList
    simp only [String.toList_append, Text.braceless_append]
    exact ⟨⟨by decide, braceless_symbol plain spelled⟩, by decide⟩
  | constant unit name =>
    change Braceless ("extern const " ++ CName.real ++ " " ++ CName.symbol unit name ++ ";").toList
    simp only [String.toList_append, Text.braceless_append]
    exact ⟨⟨⟨⟨by decide, by decide⟩, by decide⟩, braceless_symbol plain spelled⟩, by decide⟩

end Spelled

/-- The rows behind the line that includes the header. -/
def UnitCode.bodyRows (code : UnitCode) : List Row :=
  .blank :: (spaced (code.foreign.map .line) ++ code.definitions.flatMap Definition.rows)

theorem UnitCode.fits_bodyRows {code : UnitCode} {units : List String}
    (plain : ∀ unit ∈ units, Braceless unit.toList)
    (spelled : ∀ definition ∈ code.definitions, definition.Spelled units) :
    ∀ row ∈ code.bodyRows, row.Fits := by
  have foreign : ∀ row ∈ code.foreign.map Row.line, row.Fits := by
    intro row member
    obtain ⟨line, listed, rfl⟩ := List.mem_map.mp member
    rw [UnitCode.foreign, List.mem_eraseDups] at listed
    obtain ⟨global, among, rfl⟩ := List.mem_map.mp listed
    obtain ⟨definition, defined, inside⟩ := List.mem_flatMap.mp (List.mem_of_mem_filter among)
    exact braceless_declaration plain ((spelled definition defined).globals global inside)
  rw [bodyRows, List.forall_mem_cons, List.forall_mem_append]
  refine ⟨trivial, ?_, ?_⟩
  · unfold spaced
    split
    · simp
    · rw [List.forall_mem_append]
      exact ⟨foreign, List.forall_mem_singleton.mpr trivial⟩
  · intro row member
    obtain ⟨definition, defined, inside⟩ := List.mem_flatMap.mp member
    exact (spelled definition defined).fits plain row inside

end StackLang
