import StackLang.Proofs.CodeErrors

/-! Code depends on a table only by what the names of the tree mean in it. If two tables give every
name of a statement the same meaning then the statement has the same code with both of them, or is
refused with the same error, and so has every body, every function and every file. -/
namespace StackLang

open StackLang.Outcome

namespace Frame

/-- Two frames of one function that give some names the same meaning. -/
structure Agrees (left right : Frame) (mentions : List Mention) : Prop where
  entry : left.entry = right.entry
  function : left.function = right.function
  lookup : ∀ mention ∈ mentions,
    left.lookup mention.module mention.name = right.lookup mention.module mention.name

variable {left right : Frame} {mentions : List Mention}

theorem Agrees.mono {fewer : List Mention} (agrees : left.Agrees right mentions)
    (among : fewer ⊆ mentions) : left.Agrees right fewer :=
  ⟨agrees.entry, agrees.function, fun mention member => agrees.lookup mention (among member)⟩

theorem Agrees.named (agrees : left.Agrees right mentions) {module : Option String}
    {name : String} (mentioned : .value module name ∈ mentions) :
    left.named module name = right.named module name := by
  have same : left.lookup module name = right.lookup module name := agrees.lookup _ mentioned
  rw [Frame.named, Frame.named, same]

theorem Agrees.address (agrees : left.Agrees right mentions) {name : String}
    (mentioned : .address name ∈ mentions) : left.address name = right.address name := by
  have same : left.lookup none name = right.lookup none name := agrees.lookup _ mentioned
  rw [Frame.address, Frame.address, same]

theorem Agrees.callee (agrees : left.Agrees right mentions) {module : Option String}
    {name : String} (mentioned : .called module name ∈ mentions) :
    left.callee name module = right.callee name module := by
  have same : left.lookup module name = right.lookup module name := agrees.lookup _ mentioned
  simp only [Frame.callee, same]

theorem Agrees.scalar (agrees : left.Agrees right mentions) (depth : Nat) {argument : Argument}
    (mentioned : ∀ mention ∈ argument.mention?, mention ∈ mentions) :
    left.scalar depth argument = right.scalar depth argument := by
  cases argument with
  | named module name => exact agrees.named (mentioned _ rfl)
  | address name => exact agrees.address (mentioned _ rfl)
  | number | string | iterator => rfl

theorem Agrees.cells (agrees : left.Agrees right mentions) (depth : Nat) {argument : Argument}
    (mentioned : ∀ mention ∈ argument.mention?, mention ∈ mentions) :
    left.cells depth argument = right.cells depth argument := by
  have same := agrees.scalar depth mentioned
  cases argument with
  | string text => rfl
  | _ => simp only [Frame.cells, same]

theorem Agrees.call {name : String} {module : Option String} {arguments : List Argument}
    (agrees : left.Agrees right (Action.call name module arguments).mentions) (depth : Nat) :
    left.call depth name module arguments = right.call depth name module arguments := by
  have given : arguments.mapM (left.cells depth) = arguments.mapM (right.cells depth) := by
    apply mapM_congr
    intro argument passed
    apply agrees.cells
    intro mention named
    exact List.mem_cons_of_mem _ (List.mem_filterMap.mpr ⟨argument, passed, named⟩)
  rw [Frame.call, Frame.call, given, agrees.callee List.mem_cons_self]

theorem Agrees.counted {start step stop : Argument}
    (agrees : left.Agrees right (Action.countedLoop start step stop).mentions) (depth : Nat) :
    left.counted depth start step stop = right.counted depth start step stop := by
  have bound {argument : Argument} (member : argument ∈ [start, step, stop]) :
      left.scalar depth argument = right.scalar depth argument := by
    apply agrees.scalar
    intro mention named
    exact List.mem_filterMap.mpr ⟨argument, member, named⟩
  rw [Frame.counted, Frame.counted, bound (by simp), bound (by simp), bound (by simp)]

theorem Agrees.step {action : Action} (agrees : left.Agrees right action.mentions) (depth : Nat) :
    left.step depth action = right.step depth action := by
  cases action with
  | call name module arguments => simp only [Frame.step, agrees.call]
  | countedLoop start step stop => simp only [Frame.step, agrees.counted]
  | endLoop =>
    cases depth with
    | zero => simp only [Frame.step, agrees.function]
    | succ depth => rfl
  | leave => simp only [Frame.step, agrees.entry]
  | _ => rfl

theorem Agrees.steps {statements : List Statement}
    (agrees : left.Agrees right (statements.flatMap fun statement => statement.action.mentions))
    (depth : Nat) : left.steps depth statements = right.steps depth statements := by
  induction statements generalizing depth with
  | nil => simp only [Frame.steps, agrees.function]
  | cons statement statements ih =>
    have first := agrees.mono (List.subset_append_left _ _)
    have others := agrees.mono (List.subset_append_right _ _)
    simp only [Frame.steps, first.step, ih others]

end Frame

/-- The functions that code is made of, behind the declaration of one that still has no body. -/
def codedFunctions (pending : Option (String × List String)) : List Statement → List Function
  | [] => []
  | statement :: rest =>
    match statement.action, pending with
    | .function name parameters, none => codedFunctions (some (name, parameters)) rest
    | .body statements, some (name, parameters) =>
      ⟨name, parameters, statements⟩ :: codedFunctions none rest
    | .importModule _, _ | .constant _ _, _ | .inlineC _, _ => codedFunctions pending rest
    | _, _ => []

theorem Grammar.File.codedFunctions_eq {tokens : List Token} {statements : List Statement}
    (file : File tokens statements) : codedFunctions none statements = functionsOf statements := by
  induction file with
  | done => rfl
  | declaration first _ ih =>
    rw [first.functionsOf_append, ← ih]
    cases first <;> rfl

namespace UnitFrame

/-- Two frames of one unit that give the names of some functions the same meaning, each in its own
function. -/
structure Agrees (left right : UnitFrame) (functions : List Function) : Prop where
  unit : left.unit = right.unit
  module : left.module = right.module
  bodies : ∀ function ∈ functions, ∀ entry,
    (left.within function.name entry).Agrees (right.within function.name entry) function.mentions

variable {left right : UnitFrame}

theorem Agrees.function {functions : List Function} (agrees : left.Agrees right functions)
    {function : Function} (member : function ∈ functions) :
    left.function function.name function.parameters function.statements =
      right.function function.name function.parameters function.statements := by
  have heading : left.heading function.name function.parameters =
      right.heading function.name function.parameters := by
    simp only [UnitFrame.heading, agrees.unit, agrees.module]
  rw [UnitFrame.function, UnitFrame.function, heading]
  refine bind_congr fun heading => ?_
  have steps := (agrees.bodies function member (heading = .entry)).steps 0
  simp only [within] at steps
  simp only [steps]

theorem Agrees.definitions {statements : List Statement} {pending : Option (String × List String)}
    (agrees : left.Agrees right (codedFunctions pending statements)) :
    left.definitions pending statements = right.definitions pending statements := by
  induction statements generalizing pending with
  | nil => rfl
  | cons statement statements ih =>
    obtain ⟨action, span⟩ := statement
    cases action with
    | body inner =>
      cases pending with
      | none => rfl
      | some declared =>
        have others : left.Agrees right (codedFunctions none statements) :=
          ⟨agrees.unit, agrees.module, (List.forall_mem_cons.mp agrees.bodies).2⟩
        have made := agrees.function List.mem_cons_self
        simp only at made
        simp only [UnitFrame.definitions, ih others, made]
    | function name parameters =>
      cases pending with
      | none => exact ih agrees
      | some declared => rfl
    | importModule target => exact ih agrees
    | constant name literal => simp only [UnitFrame.definitions, ih agrees, agrees.unit]
    | inlineC code => simp only [UnitFrame.definitions, ih agrees]
    | _ => rfl

end UnitFrame

/-- The files of a unit with two tables in which its names mean the same. -/
theorem generate_eq {unit : SourceUnit} {left right : SymbolTable}
    (agrees : ∀ tree ∈ unit.tree,
      UnitFrame.Agrees ⟨unit.name, unit.importName, left⟩ ⟨unit.name, unit.importName, right⟩
        (codedFunctions none tree.statements)) (settings : RuntimeSettings) :
    generate settings unit left = generate settings unit right := by
  rw [generate, generate, UnitCode.ofUnit, UnitCode.ofUnit]
  cases held : unit.tree with
  | none => rfl
  | some tree =>
    have defined := (agrees tree held).definitions
    simp only [defined]

end StackLang
