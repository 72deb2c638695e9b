import StackLang.Proofs.Identifiers
import StackLang.Proofs.SpelledCode

/-! What the identifiers in generated code stand for. The rows of a definition are read as C reads
them, a word at a time, and the words are those of C and of the runtime, and the names of what the
definition refers to, in the order in which it refers to it. -/
namespace StackLang

open Lexeme (isWordPart)

/-! ### What identifiers stand for -/

/-- The identifiers of a row. Code that is copied verbatim is not looked into. -/
def Row.identifiers : Row → List Identifier
  | .line text | .opening text | .closing text => StackLang.identifiers text
  | .verbatim _ | .blank => []

inductive RuntimeWord where
  | breakWord | charWord | constWord | continueWord | forWord | gotoWord | ifWord | intWord
  | returnWord | voidWord
  | argc | args | argv | realType | addressType | listType
  | main | startList | endList | pushList | pushCell | underflow | reduce
  | stack | stackTop
  | selector (reduction : Reduction)
  deriving DecidableEq, Repr

def RuntimeWord.identifier : RuntimeWord → Identifier
  | .breakWord => ⟨"break", false⟩
  | .charWord => ⟨"char", false⟩
  | .constWord => ⟨"const", false⟩
  | .continueWord => ⟨"continue", false⟩
  | .forWord => ⟨"for", false⟩
  | .gotoWord => ⟨"goto", false⟩
  | .ifWord => ⟨"if", false⟩
  | .intWord => ⟨"int", false⟩
  | .returnWord => ⟨"return", false⟩
  | .voidWord => ⟨"void", false⟩
  | .argc => ⟨"argc", false⟩
  | .args => ⟨"args", false⟩
  | .argv => ⟨"argv", false⟩
  | .realType => ⟨"__qd_real_t", false⟩
  | .addressType => ⟨"uintptr_t", false⟩
  | .listType => ⟨"va_list", false⟩
  | .main => ⟨"main", true⟩
  | .startList => ⟨"va_start", true⟩
  | .endList => ⟨"va_end", true⟩
  | .pushList => ⟨"__qd_push_va", true⟩
  | .pushCell => ⟨"__qd_arg_push", true⟩
  | .underflow => ⟨"__qd_panic_stack_underflow", true⟩
  | .reduce => ⟨"__qd_reduce", true⟩
  | .stack => ⟨"__qd_stack", false⟩
  | .stackTop => ⟨"__qd_stack_ptr", false⟩
  | .selector reduction => ⟨reduction.selector, false⟩

/-- What an identifier in generated code stands for. -/
inductive Referent where
  | runtime (word : RuntimeWord)
  | primitive (name : String)
  /-- The function or the constant that is defined. -/
  | defined (owned : Global)
  | global (used : Global)
  | slot (name : String)
  /-- The count of the loop in whose head it stands. -/
  | count (depth : Nat)
  | iterator (depth : Nat)
  /-- The target of a jump. -/
  | target (name : String)
  /-- The label that is set. -/
  | mark (name : String)
  deriving DecidableEq, Repr

def Global.identifier : Global → Identifier
  | .function unit name => ⟨CName.symbol unit name, true⟩
  | .constant unit name => ⟨CName.symbol unit name, false⟩

namespace Referent

def identifier : Referent → Identifier
  | .runtime word => word.identifier
  | .primitive name => ⟨CName.primitive name, true⟩
  | .defined known | .global known => known.identifier
  | .slot name => ⟨CName.slot name, false⟩
  | .count depth | .iterator depth => ⟨CName.iterator depth, false⟩
  | .target name | .mark name => ⟨name, false⟩

/-- The identifiers that the C name of a referent is read as: one, unless the name is no word. -/
def identifiers (referent : Referent) : List Identifier :=
  StackLang.identifiers referent.identifier.text

theorem isWord_runtime (word : RuntimeWord) : isWord word.identifier.name = true := by
  cases word with
  | selector reduction => cases reduction <;> rfl
  | _ => rfl

@[simp] theorem identifiers_runtime (word : RuntimeWord) :
    (runtime word).identifiers = [word.identifier] :=
  Identifier.identifiers_text (isWord_runtime word)

@[simp] theorem identifiers_primitive (name : String) :
    (primitive name).identifiers = StackLang.identifiers (CName.primitive name ++ "(") := rfl

@[simp] theorem identifiers_defined (owned : Global) :
    (defined owned).identifiers = StackLang.identifiers owned.identifier.text := rfl

@[simp] theorem identifiers_global (used : Global) :
    (global used).identifiers = StackLang.identifiers used.identifier.text := rfl

@[simp] theorem identifiers_slot (name : String) :
    (slot name).identifiers = StackLang.identifiers (CName.slot name) := rfl

@[simp] theorem identifiers_count (depth : Nat) :
    (count depth).identifiers = StackLang.identifiers (CName.iterator depth) := rfl

@[simp] theorem identifiers_iterator (depth : Nat) :
    (iterator depth).identifiers = StackLang.identifiers (CName.iterator depth) := rfl

@[simp] theorem identifiers_target (name : String) :
    (target name).identifiers = StackLang.identifiers name := rfl

@[simp] theorem identifiers_mark (name : String) :
    (mark name).identifiers = StackLang.identifiers name := rfl

def guarding : List Referent := [.runtime .ifWord, .runtime .stackTop, .runtime .underflow]

def cell : List Referent := [.runtime .stack, .runtime .stackTop]

def popping (name : String) : List Referent := .slot name :: cell

def jumping (which : Jump) (name : String) : List Referent :=
  let jump := [.runtime .gotoWord, .target name]
  match which.comparison? with
  | none => jump
  | some _ =>
    guarding ++ [.runtime .stackTop, .runtime .ifWord] ++ cell ++
      (if which.operands = 2 then cell else []) ++ jump

end Referent

def Expression.referents : Expression → List Referent
  | .number _ | .code _ => [.runtime .realType]
  | .constant unit name => [.global (.constant unit name)]
  | .slot name => [.slot name]
  | .address name => [.runtime .realType, .runtime .addressType, .slot name]
  | .iterator depth => [.iterator depth]

def Callee.referent : Callee → Referent
  | .primitive name => .primitive name
  | .function unit name => .global (.function unit name)
  | .value _ => .primitive "push"

/-- What the identifiers in the code of a step stand for, in their order. -/
def Step.referents : Step → List Referent
  | .call callee arguments =>
    callee.referent :: (callee.expressions ++ arguments).flatMap Expression.referents
  | .verbatim _ | .close => []
  | .take name => Referent.guarding ++ Referent.popping name
  | .label name => [.mark name]
  | .jump which name => Referent.jumping which name
  | .openCounted depth start step stop =>
    [.runtime .forWord, .runtime .realType, .count depth] ++ start.referents ++ step.referents ++
      [.count depth] ++ stop.referents ++ [.count depth] ++ stop.referents ++ [.count depth] ++
      step.referents
  | .openEndless depth =>
    [.runtime .forWord, .runtime .realType, .count depth, .count depth]
  | .breakLoop => [.runtime .breakWord]
  | .continueLoop => [.runtime .continueWord]
  | .pushIterator depth => [.runtime .pushCell, .iterator depth]
  | .leave _ => [.runtime .returnWord]
  | .reduce reduction => [.runtime .reduce, .runtime (.selector reduction)]

/-- What a step refers to by its own name, apart from its expressions. -/
def Step.named? : Step → Option Referent
  | .call callee _ => some callee.referent
  | .take name => some (.slot name)
  | .label name => some (.mark name)
  | .jump _ name => some (.target name)
  | .openCounted depth _ _ _ | .openEndless depth => some (.count depth)
  | .pushIterator depth => some (.iterator depth)
  | _ => none

/-- What a step refers to besides words of the runtime. -/
theorem Step.mem_referents {step : Step} {referent : Referent}
    (other : ∀ word, referent ≠ .runtime word) :
    referent ∈ step.referents ↔ step.named? = some referent ∨
      ∃ expression ∈ step.expressions, referent ∈ expression.referents := by
  cases step with
  | call callee arguments =>
    rw [referents, named?, expressions, List.mem_cons, List.mem_flatMap, Option.some_inj, eq_comm]
  | openCounted depth start step stop =>
    simp only [referents, named?, expressions, List.mem_append, List.mem_cons, List.not_mem_nil,
      or_false, exists_eq_or_imp, exists_eq_left, other, false_or, Option.some_inj]
    grind
  | jump which target =>
    cases which <;> simp [referents, named?, expressions, Referent.jumping, Referent.guarding,
      Referent.cell, Jump.comparison?, Jump.operands, other, eq_comm]
  | _ =>
    simp [referents, named?, expressions, Referent.guarding, Referent.popping, Referent.cell, other,
      eq_comm]

def Heading.referents : Heading → List Referent
  | .entry =>
    [.runtime .intWord, .runtime .main, .runtime .intWord, .runtime .argc, .runtime .charWord,
      .runtime .argv, .runtime .voidWord, .runtime .argc, .runtime .voidWord, .runtime .argv]
  | .named unit name =>
    [.runtime .voidWord, .defined (.function unit name), .runtime .intWord, .runtime .argc,
      .runtime .listType, .runtime .args, .runtime .startList, .runtime .args, .runtime .argc,
      .runtime .pushList, .runtime .argc, .runtime .args, .runtime .endList, .runtime .args]

def Heading.endReferents : Heading → List Referent
  | .entry => [.runtime .returnWord]
  | .named _ _ => []

def Definition.referents : Definition → List Referent
  | .function heading parameters steps =>
    heading.referents ++
      (slotsOf parameters steps).flatMap (fun name => [.runtime .realType, .slot name]) ++
      (if parameters = [] then [] else Referent.guarding ++
        parameters.reverse.flatMap Referent.popping) ++
      steps.flatMap Step.referents ++ heading.endReferents
  | .constant unit name _ =>
    [.runtime .constWord, .runtime .realType, .defined (.constant unit name)]
  | .verbatim _ => []

/-- What a function refers to besides words of the runtime: itself, its variables, and what its steps
refer to. -/
theorem Definition.referents_cases {heading : Heading} {parameters : List String}
    {steps : List Step} {referent : Referent} (other : ∀ word, referent ≠ .runtime word)
    (member : referent ∈ (Definition.function heading parameters steps).referents) :
    (∃ unit name, heading = .named unit name ∧ referent = .defined (.function unit name)) ∨
      (∃ name ∈ slotsOf parameters steps, referent = .slot name) ∨
      ∃ step ∈ steps, referent ∈ step.referents := by
  simp only [Definition.referents, List.mem_append] at member
  rcases member with (((headed | declared) | popped) | stepped) | ended
  · cases heading with
    | entry => simp [Heading.referents, other] at headed
    | named unit name =>
      simp only [Heading.referents, List.mem_cons, List.not_mem_nil, or_false, other,
        false_or] at headed
      exact .inl ⟨unit, name, rfl, headed⟩
  · obtain ⟨name, listed, inside⟩ := List.mem_flatMap.mp declared
    simp only [List.mem_cons, List.not_mem_nil, or_false, other, false_or] at inside
    exact .inr (.inl ⟨name, listed, inside⟩)
  · split at popped
    · cases popped
    · rcases List.mem_append.mp popped with checked | moved
      · simp [Referent.guarding, other] at checked
      · obtain ⟨name, given, inside⟩ := List.mem_flatMap.mp moved
        have listed : name ∈ slotsOf parameters steps :=
          List.mem_eraseDups.mpr (List.mem_append_left _ (List.mem_reverse.mp given))
        simp only [Referent.popping, Referent.cell, List.mem_cons, List.not_mem_nil, or_false,
          other] at inside
        exact .inr (.inl ⟨name, listed, inside⟩)
  · exact .inr (.inr (List.mem_flatMap.mp stepped))
  · cases heading with
    | entry => simp [Heading.endReferents, other] at ended
    | named unit name => cases ended

theorem Definition.mem_referents_of_step {heading : Heading} {parameters : List String}
    {steps : List Step} {step : Step} (among : step ∈ steps) {referent : Referent}
    (member : referent ∈ step.referents) :
    referent ∈ (Definition.function heading parameters steps).referents := by
  simp only [Definition.referents, List.mem_append]
  exact .inl (.inr (List.mem_flatMap.mpr ⟨step, among, member⟩))

/-! ### The identifiers of the rows -/

theorem identifiers_cast (text : String) :
    identifiers (Expression.cast text) = ⟨"__qd_real_t", false⟩ :: identifiers text := by
  rw [Expression.cast, identifiers_append (by rfl)]
  rfl

section Rows

variable {units : List String}

theorem Expression.Spelled.identifiers_text {expression : Expression}
    (spelled : expression.Spelled units) :
    identifiers expression.text = expression.referents.flatMap Referent.identifiers := by
  cases expression with
  | number literal =>
    rw [Expression.text, identifiers_cast, identifiers_of_numeral spelled]
    rfl
  | code value =>
    rw [Expression.text, identifiers_cast, identifiers_toString]
    rfl
  | address name =>
    rw [Expression.text, identifiers_cast, identifiers_append (by rfl)]
    exact congrArg (_ :: _ :: ·) (List.append_nil _).symm
  | constant | slot | iterator => exact (List.append_nil _).symm

theorem identifiers_arguments {arguments : List Expression}
    (spelled : ∀ argument ∈ arguments, argument.Spelled units) :
    (arguments.map Expression.text).flatMap identifiers =
      (arguments.flatMap Expression.referents).flatMap Referent.identifiers := by
  rw [List.flatMap_map, List.flatMap_assoc]
  exact List.flatMap_congr fun argument member => (spelled argument member).identifiers_text

theorem identifiers_callText {function : String} {arguments : List Expression}
    (spelled : ∀ argument ∈ arguments, argument.Spelled units) :
    identifiers (callText function arguments) = identifiers (function ++ "(") ++
      (arguments.flatMap Expression.referents).flatMap Referent.identifiers := by
  rw [callText, identifiers_before _ rfl, identifiers_append (endsApart_append _ rfl),
    identifiers_intercalate, identifiers_toString, identifiers_arguments spelled]
  rfl

theorem identifiers_underflowGuard (count : Nat) :
    (underflowGuard count).flatMap Row.identifiers =
      Referent.guarding.flatMap Referent.identifiers := by
  have head : identifiers ("if (__qd_stack_ptr < " ++ toString count ++ ") \x7b") =
      [⟨"if", false⟩, ⟨"__qd_stack_ptr", false⟩] := by
    rw [identifiers_before _ rfl, identifiers_append (by rfl), identifiers_toString]
    rfl
  have stopped : identifiers "__qd_panic_stack_underflow();" =
      [⟨"__qd_panic_stack_underflow", true⟩] := rfl
  have closing : identifiers "\x7d" = [] := rfl
  simp only [underflowGuard, List.flatMap_cons, Row.identifiers, head, stopped, closing]
  simp [Referent.guarding, RuntimeWord.identifier]

theorem identifiers_popInto (name : String) :
    (popInto name).identifiers = (Referent.popping name).flatMap Referent.identifiers := by
  have cell : identifiers " = __qd_stack[--__qd_stack_ptr];" =
      [⟨"__qd_stack", false⟩, ⟨"__qd_stack_ptr", false⟩] := rfl
  rw [popInto, Row.identifiers, identifiers_append_of_startsApart _ rfl, cell]
  simp [Referent.popping, Referent.cell, RuntimeWord.identifier]

theorem identifiers_condition {which : Jump} {comparison : String}
    (compared : which.comparison? = some comparison) :
    identifiers ("if (" ++ conditionText which.operands comparison ++ ") \x7b") =
      (Referent.runtime .ifWord :: Referent.cell ++
        if which.operands = 2 then Referent.cell else []).flatMap Referent.identifiers := by
  have silently : silent (" " ++ comparison ++ " ") = true := by
    cases which <;> cases compared <;> rfl
  have parted (right : String) : "if (" ++ ("__qd_stack[__qd_stack_ptr] " ++ comparison ++ " " ++
      right) ++ ") \x7b" = "if (__qd_stack[__qd_stack_ptr]" ++ (" " ++ comparison ++ " ") ++ right ++
        ") \x7b" := by
    apply String.toList_inj.mp
    simp
  have left : identifiers "if (__qd_stack[__qd_stack_ptr]" =
      [⟨"if", false⟩, ⟨"__qd_stack", false⟩, ⟨"__qd_stack_ptr", false⟩] := rfl
  have right : identifiers "__qd_stack[__qd_stack_ptr + 1]" =
      [⟨"__qd_stack", false⟩, ⟨"__qd_stack_ptr", false⟩] := rfl
  have zero : identifiers "0" = [] := rfl
  unfold conditionText
  refine (congrArg identifiers (parted _)).trans ?_
  rw [identifiers_before _ rfl, identifiers_around _ silently, left]
  split
  · rw [right]
    simp [Referent.cell, RuntimeWord.identifier]
  · rw [zero]
    simp [Referent.cell, RuntimeWord.identifier]

theorem identifiers_jumpRows (which : Jump) (target : String) :
    (jumpRows which target).flatMap Row.identifiers =
      (Referent.jumping which target).flatMap Referent.identifiers := by
  have goto : identifiers ("goto " ++ target ++ ";") = ⟨"goto", false⟩ :: identifiers target := by
    rw [identifiers_before _ rfl, identifiers_append (by rfl)]
    rfl
  unfold jumpRows Referent.jumping
  dsimp only
  cases compared : which.comparison? with
  | none =>
    rw [List.flatMap_singleton, Row.identifiers, goto]
    exact congrArg (_ :: ·) (List.append_nil _).symm
  | some comparison =>
    have lowered : identifiers ("__qd_stack_ptr -= " ++ toString which.operands ++ ";") =
        [⟨"__qd_stack_ptr", false⟩] := by
      rw [identifiers_before _ rfl, identifiers_append (by rfl), identifiers_toString]
      rfl
    have condition := identifiers_condition compared
    have closing : identifiers "\x7d" = [] := rfl
    simp only [List.flatMap_append, List.flatMap_cons, Row.identifiers, identifiers_underflowGuard,
      lowered, condition, goto, closing]
    simp [RuntimeWord.identifier]

theorem identifiers_loopHead (depth : Nat) :
    identifiers ("for (" ++ CName.real ++ " " ++ CName.iterator depth) =
      (⟨"for", false⟩ : Identifier) :: ⟨"__qd_real_t", false⟩ :: identifiers (CName.iterator depth) := by
  rw [identifiers_around _ rfl]
  rfl

theorem identifiers_countedText (depth : Nat) (start step stop : String) :
    identifiers (countedText depth start step stop) =
      (⟨"for", false⟩ : Identifier) :: ⟨"__qd_real_t", false⟩ :: identifiers (CName.iterator depth) ++
        identifiers start ++ identifiers step ++ identifiers (CName.iterator depth) ++
        identifiers stop ++ identifiers (CName.iterator depth) ++ identifiers stop ++
        identifiers (CName.iterator depth) ++ identifiers step := by
  unfold countedText
  dsimp only
  rw [identifiers_before _ rfl, identifiers_around _ rfl, identifiers_around _ rfl,
    identifiers_around _ rfl, identifiers_around _ rfl, identifiers_around _ rfl,
    identifiers_around _ rfl, identifiers_around _ rfl, identifiers_around _ rfl,
    identifiers_loopHead]

theorem identifiers_endlessText (depth : Nat) :
    identifiers (endlessText depth) =
      (⟨"for", false⟩ : Identifier) :: ⟨"__qd_real_t", false⟩ :: identifiers (CName.iterator depth) ++
        identifiers (CName.iterator depth) := by
  unfold endlessText
  dsimp only
  rw [identifiers_before _ rfl, identifiers_around _ rfl, identifiers_loopHead]

/-- The identifiers in the rows of a step are those of what the step refers to, in its order. -/
theorem Step.Spelled.identifiers_rows {step : Step} (spelled : step.Spelled units) :
    step.rows.flatMap Row.identifiers = step.referents.flatMap Referent.identifiers := by
  cases step with
  | call callee arguments =>
    obtain ⟨called, given⟩ := spelled
    cases callee with
    | primitive name =>
      rw [Step.rows, List.flatMap_singleton, Row.identifiers, identifiers_callText given]
      simp [Step.referents, Callee.referent, Callee.expressions]
    | function unit name =>
      rw [Step.rows, List.flatMap_singleton, Row.identifiers, identifiers_callText given]
      simp [Step.referents, Callee.referent, Callee.expressions, Global.identifier, Identifier.text]
    | value expression =>
      rw [Step.rows, List.flatMap_singleton, Row.identifiers,
        identifiers_callText (List.forall_mem_cons.mpr ⟨called, given⟩)]
      simp [Step.referents, Callee.referent, Callee.expressions]
  | verbatim code => rfl
  | take name =>
    rw [Step.rows, List.flatMap_append, identifiers_underflowGuard, List.flatMap_singleton,
      identifiers_popInto, Step.referents, List.flatMap_append]
  | label name =>
    rw [Step.rows, List.flatMap_singleton, Row.identifiers, identifiers_before _ rfl]
    simp [Step.referents]
  | jump which target => exact identifiers_jumpRows which target
  | openCounted depth start step stop =>
    have text := fun bound member => (spelled bound member).identifiers_text
    rw [Step.rows, List.flatMap_singleton, Row.identifiers, identifiers_countedText,
      text start (by simp), text step (by simp), text stop (by simp)]
    simp [Step.referents, RuntimeWord.identifier]
  | openEndless depth =>
    rw [Step.rows, List.flatMap_singleton, Row.identifiers, identifiers_endlessText]
    simp [Step.referents, RuntimeWord.identifier]
  | close =>
    have closing : identifiers "\x7d" = [] := rfl
    simp [Step.rows, Row.identifiers, closing, Step.referents]
  | breakLoop =>
    have broken : identifiers "break;" = [⟨"break", false⟩] := rfl
    simp [Step.rows, Row.identifiers, broken, Step.referents, RuntimeWord.identifier]
  | continueLoop =>
    have continued : identifiers "continue;" = [⟨"continue", false⟩] := rfl
    simp [Step.rows, Row.identifiers, continued, Step.referents, RuntimeWord.identifier]
  | pushIterator depth =>
    have pushed : identifiers "__qd_arg_push(" = [⟨"__qd_arg_push", true⟩] := rfl
    rw [Step.rows, List.flatMap_singleton, Row.identifiers, identifiers_before _ rfl,
      identifiers_append (by rfl), pushed]
    simp [Step.referents, RuntimeWord.identifier]
  | leave entry =>
    have left : identifiers (returnText entry) = [⟨"return", false⟩] := by cases entry <;> rfl
    simp [Step.rows, Row.identifiers, left, Step.referents, RuntimeWord.identifier]
  | reduce reduction =>
    have reduced : identifiers ("__qd_reduce(" ++ reduction.selector ++ ");") =
        [⟨"__qd_reduce", true⟩, ⟨reduction.selector, false⟩] := by cases reduction <;> rfl
    simp [Step.rows, Row.identifiers, reduced, Step.referents, RuntimeWord.identifier]

theorem Heading.identifiers_rows (heading : Heading) :
    heading.rows.flatMap Row.identifiers = heading.referents.flatMap Referent.identifiers := by
  cases heading with
  | entry => rfl
  | named unit name =>
    have opened : identifiers ("void " ++ CName.symbol unit name ++ "(int argc, ...) \x7b") =
        ⟨"void", false⟩ :: identifiers (CName.symbol unit name ++ "(") ++
          [⟨"int", false⟩, ⟨"argc", false⟩] := by
      have parted : "void " ++ CName.symbol unit name ++ "(int argc, ...) \x7b" =
          "void " ++ (CName.symbol unit name ++ "(") ++ "int argc, ...) \x7b" := by
        apply String.toList_inj.mp
        simp
      rw [parted, identifiers_append (endsApart_append _ (endsApart_append _ rfl)),
        identifiers_append (by rfl)]
      rfl
    have listed : identifiers "va_list args;" = [⟨"va_list", false⟩, ⟨"args", false⟩] := rfl
    have started : identifiers "va_start(args, argc);" =
        [⟨"va_start", true⟩, ⟨"args", false⟩, ⟨"argc", false⟩] := rfl
    have pushed : identifiers "__qd_push_va(argc, args);" =
        [⟨"__qd_push_va", true⟩, ⟨"argc", false⟩, ⟨"args", false⟩] := rfl
    have ended : identifiers "va_end(args);" = [⟨"va_end", true⟩, ⟨"args", false⟩] := rfl
    simp [Heading.rows, Row.identifiers, opened, listed, started, pushed, ended, Heading.referents,
      Global.identifier, Identifier.text, RuntimeWord.identifier]

theorem Heading.identifiers_endRows (heading : Heading) :
    heading.endRows.flatMap Row.identifiers = heading.endReferents.flatMap Referent.identifiers := by
  cases heading <;> rfl

theorem identifiers_declareSlot (name : String) :
    (declareSlot name).identifiers =
      [Referent.runtime .realType, .slot name].flatMap Referent.identifiers := by
  have typed : identifiers (CName.real ++ " ") = [⟨"__qd_real_t", false⟩] := rfl
  rw [declareSlot, Row.identifiers, identifiers_before _ rfl, identifiers_append (by rfl), typed]
  simp [RuntimeWord.identifier]

theorem identifiers_popParameters (parameters : List String) :
    (popParameters parameters).flatMap Row.identifiers =
      (if parameters = [] then [] else Referent.guarding ++
        parameters.reverse.flatMap Referent.popping).flatMap Referent.identifiers := by
  unfold popParameters
  split
  · rfl
  · rw [List.flatMap_append, List.flatMap_append, identifiers_underflowGuard, List.flatMap_map,
      List.flatMap_assoc]
    exact congrArg _ (List.flatMap_congr fun name _ => identifiers_popInto name)

/-- The identifiers in the rows of a definition are those of what the definition refers to, in its
order. -/
theorem Definition.Spelled.identifiers_rows {definition : Definition}
    (spelled : definition.Spelled units) :
    definition.rows.flatMap Row.identifiers =
      definition.referents.flatMap Referent.identifiers := by
  cases definition with
  | function heading parameters steps =>
    obtain ⟨_, _, stepped⟩ := spelled
    have body : (steps.flatMap Step.rows).flatMap Row.identifiers =
        (steps.flatMap Step.referents).flatMap Referent.identifiers := by
      rw [List.flatMap_assoc, List.flatMap_assoc]
      exact List.flatMap_congr fun step member => (stepped step member).identifiers_rows
    have declared : ((slotsOf parameters steps).map declareSlot).flatMap Row.identifiers =
        ((slotsOf parameters steps).flatMap fun name =>
          [Referent.runtime .realType, .slot name]).flatMap Referent.identifiers := by
      rw [List.flatMap_map, List.flatMap_assoc]
      exact List.flatMap_congr fun name _ => identifiers_declareSlot name
    simp only [Definition.rows, Definition.referents, List.flatMap_append,
      heading.identifiers_rows, heading.identifiers_endRows, declared, body,
      identifiers_popParameters]
  | constant unit name literal =>
    have line : identifiers ("const " ++ CName.real ++ " " ++ CName.symbol unit name ++ " = " ++
        literal ++ ";") = ⟨"const", false⟩ :: ⟨"__qd_real_t", false⟩ ::
          identifiers (CName.symbol unit name) := by
      rw [identifiers_before _ rfl, identifiers_around _ rfl, identifiers_around _ rfl,
        identifiers_of_numeral spelled.2.2, List.append_nil]
      rfl
    simp only [Definition.rows, List.flatMap_cons, Row.identifiers, line]
    rfl
  | verbatim code => rfl

end Rows

/-! ### Spelled names -/

namespace Referent

def Spelled (units : List String) : Referent → Prop
  | .primitive name => Primitive.isName name = true
  | .defined known | .global known => known.Spelled units
  | .slot name | .target name | .mark name => Lexeme.isIdentifier name = true
  | .runtime _ | .count _ | .iterator _ => True

def known? : Referent → Option Global
  | .defined known | .global known => some known
  | _ => none

variable {units : List String} {referent : Referent}

theorem identifiers_eq (word : isWord referent.identifier.name = true) :
    referent.identifiers = [referent.identifier] :=
  Identifier.identifiers_text word

/-- What no global is has one word for its C name. -/
theorem Spelled.isWord_of_known? (spelled : referent.Spelled units) (other : referent.known? = none) :
    isWord referent.identifier.name = true := by
  cases referent with
  | runtime word => exact isWord_runtime word
  | primitive name =>
    refine isWord_append rfl fun _ member => ?_
    exact Lexeme.isWordPart_of_isIdentifier (Primitive.isIdentifier_of_isName spelled) member
  | defined | global => cases other
  | slot name =>
    exact isWord_append rfl fun _ member => Lexeme.isWordPart_of_isIdentifier spelled member
  | count depth | iterator depth =>
    refine isWord_append rfl fun _ member => ?_
    exact Lexeme.isWordPart_of_isDigit (Lexeme.isDigit_of_mem_toString member)
  | target name | mark name => exact isWord_of_isIdentifier spelled

theorem Spelled.isWord (spelled : referent.Spelled units)
    (plain : ∀ unit ∈ units, ∀ c ∈ unit.toList, isWordPart c = true) :
    isWord referent.identifier.name = true := by
  have symbol {unit name : String} (spelled : unit ∈ units ∧ Lexeme.isIdentifier name = true) :
      StackLang.isWord (CName.symbol unit name) = true := by
    refine isWord_append (isWord_append (isWord_append rfl (plain unit spelled.1)) ?_) ?_
    · simp [isWordPart]
    · exact fun _ member => Lexeme.isWordPart_of_isIdentifier spelled.2 member
  cases known : referent.known? with
  | none => exact spelled.isWord_of_known? known
  | some global =>
    cases referent <;> cases known
    all_goals cases global <;> exact symbol spelled

end Referent

section Spelled

variable {units : List String} {referent : Referent}

theorem Expression.Spelled.referents {expression : Expression} (spelled : expression.Spelled units)
    (member : referent ∈ expression.referents) : referent.Spelled units := by
  cases expression with
  | address =>
    simp only [Expression.referents, List.mem_cons, List.not_mem_nil, or_false] at member
    rcases member with rfl | rfl | rfl
    · trivial
    · trivial
    · exact spelled
  | constant | slot =>
    rw [List.mem_singleton.mp member]
    exact spelled
  | number | code | iterator =>
    rw [List.mem_singleton.mp member]
    trivial

theorem Step.Spelled.referents {step : Step} (spelled : step.Spelled units)
    (member : referent ∈ step.referents) : referent.Spelled units := by
  by_cases other : ∀ word, referent ≠ .runtime word
  · rcases (Step.mem_referents other).mp member with named | ⟨expression, among, inside⟩
    · cases step with
      | call callee arguments =>
        obtain ⟨called, _⟩ := spelled
        cases callee <;> cases named
        · exact called
        · exact called
        · rfl
      | take | label | jump =>
        cases named
        exact spelled
      | openCounted | openEndless | pushIterator =>
        cases named
        trivial
      | _ => cases named
    · exact (spelled.expressions expression among).referents inside
  · obtain ⟨word, rfl⟩ := not_forall_not.mp other
    trivial

theorem Definition.Spelled.referents {definition : Definition} (spelled : definition.Spelled units)
    (member : referent ∈ definition.referents) : referent.Spelled units := by
  by_cases other : ∀ word, referent ≠ .runtime word
  · cases definition with
    | function heading parameters steps =>
      rcases Definition.referents_cases other member with
        ⟨unit, name, rfl, rfl⟩ | ⟨name, listed, rfl⟩ | ⟨step, among, inside⟩
      · exact spelled.1
      · exact spelled.isIdentifier_of_mem_slotsOf name listed
      · exact (spelled.2.2 step among).referents inside
    | constant unit name literal =>
      simp only [Definition.referents, List.mem_cons, List.not_mem_nil, or_false, other,
        false_or] at member
      rw [member]
      exact ⟨spelled.1, spelled.2.1⟩
    | verbatim code => cases member
  · obtain ⟨word, rfl⟩ := not_forall_not.mp other
    trivial

/-- The identifiers in the rows of a definition are the C names of what the definition refers to, in
its order. -/
theorem Definition.Spelled.identifiers_eq {definition : Definition}
    (spelled : definition.Spelled units)
    (plain : ∀ unit ∈ units, ∀ c ∈ unit.toList, isWordPart c = true) :
    definition.rows.flatMap Row.identifiers = definition.referents.map Referent.identifier := by
  rw [spelled.identifiers_rows, List.map_eq_flatMap]
  exact List.flatMap_congr fun referent member =>
    Referent.identifiers_eq ((spelled.referents member).isWord plain)

end Spelled

/-! ### The entry point -/

theorem Step.main_notMem_referents (step : Step) : .runtime .main ∉ step.referents := by
  have inside (expression : Expression) : .runtime .main ∉ expression.referents := by
    cases expression <;> simp [Expression.referents]
  cases step with
  | call callee arguments =>
    have called : callee.referent ≠ .runtime .main := by cases callee <;> simp [Callee.referent]
    simp [referents, called.symm, inside]
  | jump which target =>
    cases which <;> simp [referents, Referent.jumping, Referent.guarding, Referent.cell,
      Jump.comparison?, Jump.operands]
  | _ => simp [referents, Referent.guarding, Referent.popping, Referent.cell, inside]

/-- The entry point is named in its own heading and nowhere else. -/
theorem Definition.count_main (definition : Definition) :
    definition.referents.count (.runtime .main) =
      match definition with
      | .function .entry _ _ => 1
      | _ => 0 := by
  cases definition with
  | function heading parameters steps =>
    have declared : .runtime .main ∉ (slotsOf parameters steps).flatMap
        (fun name => [Referent.runtime .realType, .slot name]) := by simp
    have popped : .runtime .main ∉ (if parameters = [] then [] else Referent.guarding ++
        parameters.reverse.flatMap Referent.popping) := by
      split
      · simp
      · simp [Referent.guarding, Referent.popping, Referent.cell]
    have body : .runtime .main ∉ steps.flatMap Step.referents := by
      simp [Step.main_notMem_referents]
    rw [referents]
    simp only [List.count_append, List.count_eq_zero_of_not_mem declared,
      List.count_eq_zero_of_not_mem popped, List.count_eq_zero_of_not_mem body]
    cases heading <;> rfl
  | constant unit name literal => rfl
  | verbatim code => rfl

/-- Of all that code refers to, only the entry point is applied under its name. -/
theorem Referent.identifier_eq_main {referent : Referent} :
    referent.identifier = ⟨"main", true⟩ ↔ referent = .runtime .main := by
  have apart (name : String) : "__qd_" ++ name ≠ "main" := by
    intro same
    have lists := congrArg (fun text => text.toList.head?) same
    simp at lists
  constructor
  · intro same
    cases referent with
    | runtime word =>
      cases word with
      | main => rfl
      | selector reduction => cases reduction <;> simp [identifier, RuntimeWord.identifier] at same
      | _ => simp [identifier, RuntimeWord.identifier] at same
    | primitive name =>
      simp [identifier, CName.primitive, apart] at same
    | defined known | global known =>
      cases known <;> simp [identifier, Global.identifier, CName.symbol, String.append_assoc,
        apart] at same
    | slot | count | iterator | target | mark => simp [identifier] at same
  · rintro rfl
    rfl

theorem count_main_identifiers (referents : List Referent) :
    (referents.map Referent.identifier).count ⟨"main", true⟩ =
      referents.count (.runtime .main) := by
  rw [List.count_eq_countP, List.count_eq_countP, List.countP_map]
  refine List.countP_congr fun referent _ => ?_
  simp [Referent.identifier_eq_main]

/-! ### Globals -/

/-- The globals that code refers to are those that its unit declares or gets declared. -/
theorem Step.mem_globals {step : Step} {used : Global} :
    .global used ∈ step.referents ↔ used ∈ step.globals := by
  have inside (expression : Expression) :
      .global used ∈ expression.referents ↔ used ∈ expression.globals := by
    cases expression <;> simp [Expression.globals, Expression.referents]
  rw [Step.mem_referents (by simp)]
  simp only [inside]
  cases step with
  | call callee arguments =>
    cases callee <;> simp [named?, Callee.referent, expressions, Callee.expressions, globals,
      Callee.globals, or_comm, eq_comm]
  | _ => simp [named?, expressions, globals]

theorem Definition.mem_globals {definition : Definition} {used : Global} :
    .global used ∈ definition.referents ↔ used ∈ definition.globals := by
  cases definition with
  | function heading parameters steps =>
    rw [globals, List.mem_flatMap]
    simp only [← Step.mem_globals]
    constructor
    · intro member
      rcases referents_cases (by simp) member with ⟨_, _, _, other⟩ | ⟨_, _, other⟩ | inside
      · cases other
      · cases other
      · exact inside
    · rintro ⟨step, among, member⟩
      exact mem_referents_of_step among member
  | constant => simp [referents, globals]
  | verbatim => simp [referents, globals]

end StackLang
