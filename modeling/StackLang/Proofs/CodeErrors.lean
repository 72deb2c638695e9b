import StackLang.Output.Generate
import StackLang.Proofs.Outcome
import StackLang.Proofs.Parsing

/-! What keeps a parsed file from becoming code. The parser counts open loops and so does the
generator, each on its own; a body that is read item by item is placed as the generator needs it,
and then only a name can be refused. -/
namespace StackLang

open StackLang.Grammar StackLang.Outcome StackLang.Parser

/-! ### Names that statements use -/

/-- A name in a tree: what a call names, a value that is passed or compared, or a variable whose
address is passed. -/
inductive Mention where
  | called (module : Option String) (name : String)
  | value (module : Option String) (name : String)
  | address (name : String)
  deriving DecidableEq, Repr

namespace Mention

def module : Mention → Option String
  | .called module _ | .value module _ => module
  | .address _ => none

def name : Mention → String
  | .called _ name | .value _ name | .address name => name

def isCall : Mention → Bool
  | .called _ _ => true
  | .value _ _ | .address _ => false

def text (mention : Mention) : String := qualify mention.module mention.name

def shown : Mention → String
  | .address name => "&" ++ name
  | mention => mention.text

end Mention

def Argument.mention? : Argument → Option Mention
  | .named module name => some (.value module name)
  | .address name => some (.address name)
  | .number _ | .string _ | .iterator => none

def Action.mentions : Action → List Mention
  | .call name module arguments =>
    Mention.called module name :: arguments.filterMap Argument.mention?
  | .countedLoop start step stop => [start, step, stop].filterMap Argument.mention?
  | _ => []

def Function.mentions (function : Function) : List Mention :=
  function.statements.flatMap fun statement => statement.action.mentions

/-! ### The place of a statement between loops -/

def Argument.InLoop (depth : Nat) (argument : Argument) : Prop := argument = .iterator → 0 < depth

/-- A statement that can stand where `depth` loops are open, and how many are open behind it. -/
inductive Fits : Nat → Action → Nat → Prop
  | call {depth : Nat} {name : String} {module : Option String} {arguments : List Argument}
    (inside : ∀ argument ∈ arguments, argument.InLoop depth) :
    Fits depth (.call name module arguments) depth
  | inlineC {depth : Nat} {code : String} : Fits depth (.inlineC code) depth
  | label {depth : Nat} {name : String} : Fits depth (.label name) depth
  | jump {depth : Nat} {which : Jump} {name : String} : Fits depth (.jump which name) depth
  | takeLocal {depth : Nat} {name : String} : Fits depth (.takeLocal name) depth
  | reduce {depth : Nat} {reduction : Reduction} : Fits depth (.reduce reduction) depth
  | leave {depth : Nat} : Fits depth .leave depth
  | pushIterator {depth : Nat} (inside : 0 < depth) : Fits depth .pushIterator depth
  | breakLoop {depth : Nat} (inside : 0 < depth) : Fits depth .breakLoop depth
  | continueLoop {depth : Nat} (inside : 0 < depth) : Fits depth .continueLoop depth
  | countedLoop {depth : Nat} {start step stop : Argument}
    (inside : ∀ argument ∈ [start, step, stop], argument.InLoop depth)
    (numeric : ∀ argument ∈ [start, step, stop], isBound argument = true) :
    Fits depth (.countedLoop start step stop) (depth + 1)
  | endlessLoop {depth : Nat} : Fits depth .endlessLoop (depth + 1)
  | endLoop {depth : Nat} : Fits (depth + 1) .endLoop depth

/-- Statements that close every loop that is open before them or that they open. -/
inductive Placed : Nat → List Statement → Prop
  | done : Placed 0 []
  | next {depth inner : Nat} {statement : Statement} {statements : List Statement}
    (first : Fits depth statement.action inner) (more : Placed inner statements) :
    Placed depth (statement :: statements)

theorem Grammar.Operand.inLoop {depth : Nat} {looped : Bool} {tokens rest : List Token}
    {argument : Argument} (operand : Operand looped tokens rest argument)
    (inside : looped = true → 0 < depth) : argument.InLoop depth := by
  rintro rfl
  cases operand with
  | iterator _ looping => exact inside looping

theorem Grammar.Operands.inLoop {depth : Nat} {looped : Bool} {tokens rest : List Token}
    {given : List Argument} (operands : Operands looped tokens rest given)
    (inside : looped = true → 0 < depth) : ∀ argument ∈ given, argument.InLoop depth := by
  induction operands with
  | done => simp
  | comma _ _ ih => exact ih
  | comment _ _ _ ih => exact ih
  | operand first _ ih => exact List.forall_mem_cons.mpr ⟨first.inLoop inside, ih⟩

theorem Grammar.Call.fits {depth : Nat} {looped : Bool} {tokens rest : List Token}
    {action : Action} (called : Call looped tokens rest action)
    (inside : looped = true → 0 < depth) : Fits depth action depth := by
  obtain ⟨_, operands, _⟩ := called
  exact .call (operands.inLoop inside)

theorem Grammar.Line.fits {depth inner : Nat} {tokens rest : List Token} {action : Action}
    (line : Line depth tokens rest action inner) : Fits depth action inner := by
  cases line with
  | call called => exact called.fits of_decide_eq_true
  | inlineC => exact .inlineC
  | label => exact .label
  | jump => exact .jump
  | takeLocal => exact .takeLocal
  | reduce => exact .reduce
  | leave => exact .leave
  | pushIterator _ inside => exact .pushIterator inside
  | breakLoop _ inside => exact .breakLoop inside
  | continueLoop _ inside => exact .continueLoop inside
  | countedLoop _ started stepped stopped =>
    refine .countedLoop ?_ ?_
    · simp only [List.forall_mem_cons]
      exact ⟨started.operand.inLoop of_decide_eq_true, stepped.operand.inLoop of_decide_eq_true,
        stopped.operand.inLoop of_decide_eq_true, by simp⟩
    · simp [started.numeric, stepped.numeric, stopped.numeric]
  | endlessLoop => exact .endlessLoop
  | endLoop => exact .endLoop

theorem Placed.append_flat {depth : Nat} {front statements : List Statement}
    (flat : ∀ statement ∈ front, Fits depth statement.action depth)
    (placed : Placed depth statements) : Placed depth (front ++ statements) := by
  induction front with
  | nil => exact placed
  | cons statement front ih =>
    obtain ⟨first, others⟩ := List.forall_mem_cons.mp flat
    exact .next first (ih others)

/-- Deferred calls use no iterator, so they fit wherever they are replayed. -/
theorem Grammar.Body.placed {depth : Nat} {tokens rest : List Token} {items : List BodyItem}
    (body : Body depth tokens rest items) :
    ∀ deferred : List Statement,
      (∀ statement ∈ deferred, ∀ around, Fits around statement.action around) →
      Placed depth (replay deferred items) := by
  induction body with
  | close =>
    intro deferred flat
    have placed := Placed.append_flat (fun statement member => flat statement member 0) .done
    rwa [List.append_nil] at placed
  | blank _ _ ih => exact ih
  | @item depth _ _ _ _ _ _ first _ ih =>
    intro deferred flat
    cases first with
    | deferred _ called =>
      refine ih _ fun statement member => ?_
      rcases List.mem_append.mp member with earlier | last
      · exact flat statement earlier
      · rw [List.mem_singleton.mp last]
        exact fun around => called.fits (by simp)
    | plain line =>
      have placed := Placed.next line.fits (ih deferred flat)
      unfold replay
      split
      · exact placed.append_flat fun earlier member => flat earlier member depth
      · exact placed

/-! ### Errors of the generator -/

namespace Frame

def Refuses (frame : Frame) (error : CodeError) : Mention → Prop
  | .called module name => frame.callee name module = .error error
  | .value module name => frame.named module name = .error error
  | .address name => frame.address name = .error error

theorem callee_error {frame : Frame} {name : String} {module : Option String} {error : CodeError}
    (failed : frame.callee name module = .error error) :
    error = .notCallable (qualify module name) ∨
      error = .unresolved (qualify module name) ∧ frame.lookup module name = none ∧
        (module.isNone && Primitive.isName name) = false := by
  unfold callee at failed
  dsimp only at failed
  split at failed
  · split at failed
    · split at failed <;> cases failed
      exact .inl rfl
    · split at failed
      · cases failed
      · split at failed <;> cases failed
        exact .inl rfl
  · next unknown =>
    split at failed
    · cases failed
    · next other =>
      cases failed
      exact .inr ⟨rfl, unknown, by simpa using other⟩

theorem named_error {frame : Frame} {module : Option String} {name : String} {error : CodeError}
    (failed : frame.named module name = .error error) :
    error = .notAValue (qualify module name) ∧ (frame.lookup module name).isSome ∨
      error = .unresolved (qualify module name) ∧ frame.lookup module name = none := by
  unfold named at failed
  split at failed
  · next found =>
    split at failed <;> cases failed
    exact .inl ⟨rfl, by rw [found]; rfl⟩
  · next unknown =>
    cases failed
    exact .inr ⟨rfl, unknown⟩

theorem address_error {frame : Frame} {name : String} {error : CodeError}
    (failed : frame.address name = .error error) :
    error = .notAValue ("&" ++ name) ∧ (frame.lookup none name).isSome ∨
      error = .unresolved name ∧ frame.lookup none name = none := by
  unfold address at failed
  split at failed
  · next found =>
    split at failed <;> cases failed
    exact .inl ⟨rfl, by rw [found]; rfl⟩
  · next unknown =>
    cases failed
    exact .inr ⟨rfl, unknown⟩

/-- A refused name means nothing, or something that is no good for its use. -/
theorem Refuses.cases {frame : Frame} {error : CodeError} {mention : Mention}
    (refuses : frame.Refuses error mention) :
    error = .notCallable mention.text ∨
      error = .notAValue mention.shown ∧ mention.isCall = false ∧
        (frame.lookup mention.module mention.name).isSome ∨
      error = .unresolved mention.text ∧ frame.lookup mention.module mention.name = none ∧
        (mention.isCall && mention.module.isNone && Primitive.isName mention.name) = false := by
  cases mention with
  | called module name =>
    rcases callee_error refuses with wrong | ⟨wrong, unknown, other⟩
    · exact .inl wrong
    · exact .inr (.inr ⟨wrong, unknown, other⟩)
  | value module name =>
    rcases named_error refuses with ⟨wrong, known⟩ | ⟨wrong, unknown⟩
    · exact .inr (.inl ⟨wrong, rfl, known⟩)
    · exact .inr (.inr ⟨wrong, unknown, rfl⟩)
  | address name =>
    rcases address_error refuses with ⟨wrong, known⟩ | ⟨wrong, unknown⟩
    · exact .inr (.inl ⟨wrong, rfl, known⟩)
    · exact .inr (.inr ⟨wrong, unknown, rfl⟩)

theorem scalar_error {frame : Frame} {depth : Nat} {argument : Argument} {error : CodeError}
    (inside : argument.InLoop depth) (single : ∀ text, argument ≠ .string text)
    (failed : frame.scalar depth argument = .error error) :
    ∃ mention ∈ argument.mention?, frame.Refuses error mention := by
  cases argument with
  | number => cases failed
  | string text => exact absurd rfl (single text)
  | named module name => exact ⟨_, rfl, failed⟩
  | address name => exact ⟨_, rfl, failed⟩
  | iterator => simp [scalar, iterator, inside rfl, Except.map] at failed

theorem cells_error {frame : Frame} {depth : Nat} {argument : Argument} {error : CodeError}
    (inside : argument.InLoop depth) (failed : frame.cells depth argument = .error error) :
    ∃ mention ∈ argument.mention?, frame.Refuses error mention := by
  unfold cells at failed
  split at failed
  · cases failed
  · next single =>
    cases lowered : frame.scalar depth argument with
    | ok expression => rw [lowered] at failed; cases failed
    | error found =>
      rw [lowered] at failed
      cases failed
      exact scalar_error inside single lowered

theorem call_error {frame : Frame} {depth : Nat} {name : String} {module : Option String}
    {arguments : List Argument} {error : CodeError}
    (inside : ∀ argument ∈ arguments, argument.InLoop depth)
    (failed : frame.call depth name module arguments = .error error) :
    ∃ mention ∈ (Action.call name module arguments).mentions, frame.Refuses error mention := by
  rcases bind_error failed with given | ⟨cells, _, failed⟩
  · obtain ⟨argument, member, refused⟩ := mapM_error given
    obtain ⟨mention, named, refuses⟩ := cells_error (inside argument member) refused
    have given := List.mem_filterMap.mpr ⟨argument, member, named⟩
    exact ⟨mention, List.mem_cons_of_mem _ given, refuses⟩
  · rcases bind_error failed with called | ⟨callee, _, failed⟩
    · exact ⟨_, List.mem_cons_self, called⟩
    · cases failed

theorem bound_error {frame : Frame} {depth : Nat} {argument start step stop : Argument}
    {error : CodeError} (member : argument ∈ [start, step, stop])
    (inside : ∀ argument ∈ [start, step, stop], argument.InLoop depth)
    (numeric : ∀ argument ∈ [start, step, stop], isBound argument = true)
    (failed : frame.scalar depth argument = .error error) :
    ∃ mention ∈ (Action.countedLoop start step stop).mentions, frame.Refuses error mention := by
  have single : ∀ text, argument ≠ .string text := by
    rintro text rfl
    exact absurd (numeric _ member) (by simp [isBound])
  obtain ⟨mention, named, refuses⟩ := scalar_error (inside argument member) single failed
  exact ⟨mention, List.mem_filterMap.mpr ⟨argument, member, named⟩, refuses⟩

theorem counted_error {frame : Frame} {depth : Nat} {start step stop : Argument}
    {error : CodeError} (inside : ∀ argument ∈ [start, step, stop], argument.InLoop depth)
    (numeric : ∀ argument ∈ [start, step, stop], isBound argument = true)
    (failed : frame.counted depth start step stop = .error error) :
    ∃ mention ∈ (Action.countedLoop start step stop).mentions, frame.Refuses error mention := by
  rcases bind_error failed with first | ⟨_, _, failed⟩
  · exact bound_error (by simp) inside numeric first
  rcases bind_error failed with second | ⟨_, _, failed⟩
  · exact bound_error (by simp) inside numeric second
  rcases bind_error failed with third | ⟨_, _, failed⟩
  · exact bound_error (by simp) inside numeric third
  cases failed

/-- A statement in its place is refused for one of its names only. -/
theorem step_error {frame : Frame} {depth inner : Nat} {action : Action} {error : CodeError}
    (fits : Fits depth action inner) (failed : frame.step depth action = .error error) :
    ∃ mention ∈ action.mentions, frame.Refuses error mention := by
  cases fits with
  | call inside =>
    rcases bind_error failed with called | ⟨_, _, failed⟩
    · exact call_error inside called
    · cases failed
  | countedLoop inside numeric =>
    rcases bind_error failed with counted | ⟨_, _, failed⟩
    · exact counted_error inside numeric counted
    · cases failed
  | pushIterator inside =>
    have counted : iterator depth = .ok depth := by simp [iterator, inside]
    rw [step, counted] at failed
    cases failed
  | _ => cases failed

theorem step_depth {frame : Frame} {depth inner behind : Nat} {action : Action} {code : Step}
    (fits : Fits depth action inner) (done : frame.step depth action = .ok (code, behind)) :
    behind = inner := by
  cases fits with
  | call =>
    obtain ⟨_, _, done⟩ := bind_ok done
    cases done
    rfl
  | countedLoop =>
    obtain ⟨_, _, done⟩ := bind_ok done
    cases done
    rfl
  | pushIterator =>
    obtain ⟨_, _, done⟩ := bind_ok done
    cases done
    rfl
  | _ => cases done; rfl

/-- The loops that the generator counts are those that the parser has counted. -/
theorem steps_error {frame : Frame} {depth : Nat} {statements : List Statement}
    {error : CodeError} (placed : Placed depth statements)
    (failed : frame.steps depth statements = .error error) :
    ∃ statement ∈ statements, ∃ mention ∈ statement.action.mentions,
      frame.Refuses error mention := by
  induction placed with
  | done => cases failed
  | @next depth inner statement statements fits _ ih =>
    rcases bind_error failed with first | ⟨⟨code, behind⟩, done, failed⟩
    · obtain ⟨mention, member, refuses⟩ := step_error fits first
      exact ⟨statement, List.mem_cons_self, mention, member, refuses⟩
    · rw [step_depth fits done] at failed
      rcases bind_error failed with later | ⟨_, _, failed⟩
      · obtain ⟨found, among, refusal⟩ := ih later
        exact ⟨found, List.mem_cons_of_mem _ among, refusal⟩
      · cases failed

end Frame

/-! ### Files -/

theorem functionsOf_cons {statement : Statement} {rest : List Statement}
    (other : ∀ name parameters, statement.action ≠ .function name parameters) :
    functionsOf (statement :: rest) = functionsOf rest := by
  cases rest with
  | nil => simp [functionsOf]
  | cons next rest =>
    rw [functionsOf]
    split
    · next name parameters _ declared _ => exact absurd declared (other name parameters)
    · rfl

theorem Grammar.Declaration.functionsOf_append {tokens rest : List Token}
    {statements : List Statement} (declared : Declaration tokens rest statements)
    (others : List Statement) :
    functionsOf (statements ++ others) = functionsOf statements ++ functionsOf others := by
  cases declared with
  | blank => rfl
  | function =>
    simp only [List.cons_append, List.nil_append, functionsOf]
    rw [functionsOf_cons (by simp)]
  | _ =>
    rw [List.singleton_append, functionsOf_cons (by simp)]
    rfl

namespace UnitFrame

def within (frame : UnitFrame) (name : String) (entry : Bool) : Frame :=
  { frame with function := qualify frame.module name, entry }

/-- The parameters of the entry point are refused, or a name in one of some functions. -/
def Refuses (frame : UnitFrame) (functions : List Function) (error : CodeError) : Prop :=
  (∃ name, error = .entryPointParameters name) ∨
    ∃ function ∈ functions, ∃ mention ∈ function.mentions, ∃ entry,
      (frame.within function.name entry).Refuses error mention

theorem Refuses.mono {frame : UnitFrame} {functions more : List Function} {error : CodeError}
    (refuses : frame.Refuses functions error) (among : functions ⊆ more) :
    frame.Refuses more error := by
  rcases refuses with parameters | ⟨function, member, refusal⟩
  · exact .inl parameters
  · exact .inr ⟨function, among member, refusal⟩

theorem heading_error {frame : UnitFrame} {name : String} {parameters : List String}
    {error : CodeError} (failed : frame.heading name parameters = .error error) :
    error = .entryPointParameters name := by
  unfold heading at failed
  split at failed
  · split at failed <;> cases failed
    rfl
  · cases failed

theorem function_error {frame : UnitFrame} {name : String} {parameters : List String}
    {statements : List Statement} {error : CodeError} (placed : Placed 0 statements)
    (failed : frame.function name parameters statements = .error error) :
    frame.Refuses [⟨name, parameters, statements⟩] error := by
  rcases bind_error failed with headed | ⟨heading, _, failed⟩
  · exact .inl ⟨name, heading_error headed⟩
  · rcases bind_error failed with stepped | ⟨_, _, failed⟩
    · obtain ⟨statement, member, mention, named, refuses⟩ := Frame.steps_error placed stepped
      refine .inr ⟨_, List.mem_singleton_self _, mention, ?_, _, refuses⟩
      exact List.mem_flatMap.mpr ⟨statement, member, named⟩
    · cases failed

theorem declaration_error {frame : UnitFrame} {tokens rest : List Token}
    {statements others : List Statement} {error : CodeError}
    (declared : Grammar.Declaration tokens rest statements)
    (failed : frame.definitions none (statements ++ others) = .error error) :
    frame.Refuses (functionsOf statements) error ∨
      frame.definitions none others = .error error := by
  cases declared with
  | blank => exact .inr failed
  | use => exact .inr failed
  | constant =>
    rcases bind_error failed with later | ⟨_, _, failed⟩
    · exact .inr later
    · cases failed
  | inlineC =>
    rcases bind_error failed with later | ⟨_, _, failed⟩
    · exact .inr later
    · cases failed
  | function _ _ _ _ _ _ body =>
    rcases bind_error failed with defined | ⟨_, _, failed⟩
    · exact .inl (function_error (body.placed [] (by simp)) defined)
    · rcases bind_error failed with later | ⟨_, _, failed⟩
      · exact .inr later
      · cases failed

/-- A file is refused for a name in one of its functions only, apart from parameters of the
entry point. -/
theorem definitions_error {frame : UnitFrame} {tokens : List Token}
    {statements : List Statement} {error : CodeError} (file : File tokens statements)
    (failed : frame.definitions none statements = .error error) :
    frame.Refuses (functionsOf statements) error := by
  induction file with
  | done => cases failed
  | declaration first _ ih =>
    rw [first.functionsOf_append]
    rcases declaration_error first failed with here | later
    · exact here.mono (List.subset_append_left _ _)
    · exact (ih later).mono (List.subset_append_right _ _)

end UnitFrame

/-- An error about the shape of a tree and not about a name in it. -/
def CodeError.isStructural : CodeError → Bool
  | .notParsed _ | .orphanBody | .missingBody _ | .unbalancedEnd _ | .iteratorOutsideLoop
  | .misplaced _ => true
  | .entryPointParameters _ | .notAValue _ | .notCallable _ | .unresolved _ => false

theorem ofUnit_error {unit : SourceUnit} {tree : SourceTree} {table : SymbolTable}
    {error : CodeError} (held : unit.tree = some tree)
    (failed : UnitCode.ofUnit unit table = .error error) :
    UnitFrame.definitions ⟨unit.name, unit.importName, table⟩ none tree.statements =
      .error error := by
  rw [UnitCode.ofUnit, held] at failed
  rcases bind_error failed with defined | ⟨_, _, failed⟩
  · exact defined
  · cases failed

theorem refuses_of_generate {path : Path} {tokens : List Token} {tree : SourceTree}
    {unit : SourceUnit} {table : SymbolTable} {settings : RuntimeSettings} {error : CodeError}
    (parsed : SourceTree.parse path tokens = .ok tree) (held : unit.tree = some tree)
    (failed : generate settings unit table = .error error) :
    UnitFrame.Refuses ⟨unit.name, unit.importName, table⟩ tree.functions error := by
  rcases bind_error failed with refused | ⟨_, _, failed⟩
  · exact UnitFrame.definitions_error (file_of_parse parsed) (ofUnit_error held refused)
  · cases failed

/-- Whatever the parser accepts has the shape that code is made from: no error is about a missing
or misplaced part, a loop that is not open or not closed, or an iterator outside of a loop. If
something is no value, it is a name of the tree that the table knows, so never a string. -/
theorem parsed_unit_is_refused_for_names_only {path : Path} {tokens : List Token}
    {tree : SourceTree} (parsed : SourceTree.parse path tokens = .ok tree) {unit : SourceUnit}
    (held : unit.tree = some tree) (table : SymbolTable) (settings : RuntimeSettings)
    {error : CodeError} (failed : generate settings unit table = .error error) :
    error.isStructural = false ∧
      ∀ text, error = .notAValue text →
        ∃ function ∈ tree.functions, ∃ mention ∈ function.mentions,
          text = mention.shown ∧ mention.isCall = false ∧
          (table.resolve unit.importName (some (qualify unit.importName function.name))
            mention.module mention.name).isSome := by
  rcases refuses_of_generate parsed held failed with ⟨name, rfl⟩ |
    ⟨function, among, mention, member, entry, refuses⟩
  · exact ⟨rfl, by simp⟩
  rcases refuses.cases with rfl | ⟨rfl, valued, known⟩ | ⟨rfl, _⟩
  · exact ⟨rfl, by simp⟩
  · refine ⟨rfl, fun text shown => ⟨function, among, mention, member, ?_, valued, known⟩⟩
    exact (CodeError.notAValue.inj shown).symm
  · exact ⟨rfl, by simp⟩

/-- The tokens of a text that imports nothing. -/
def tokensOf (text : String) : List Token :=
  match (TokenStream.ofText ⟨[], []⟩ ⟨[], []⟩ ⟨"/src/main.qd"⟩ text.toList).1 with
  | .ok stream => stream.tokens
  | .error _ => []

/-- Two loops behind a deferred call, with a return, an iterator and a function inside. -/
def nestedSample : List Token :=
  tokensOf ("fn main() \x7b\ndefer nl\nfor 0 1 9\nfor $ 1 9\nreturn\n" ++
    "push \"a\" $ main\nend\nend\n\x7d")

theorem function_in_two_loops_is_refused_by_name :
    ∃ tree, SourceTree.parse ⟨"/src/main.qd"⟩ nestedSample = .ok tree ∧
      generate {} { path := ⟨"/src/main.qd"⟩, tree := some tree }
        { symbols := [{ name := "main", kind := .function }] } = .error (.notAValue "main") ∧
      ∃ function ∈ tree.functions, ∃ mention ∈ function.mentions,
        "main" = mention.shown ∧ mention.isCall = false := by
  have generated : ((SourceTree.parse ⟨"/src/main.qd"⟩ nestedSample).toOption.map fun tree =>
      generate {} { path := ⟨"/src/main.qd"⟩, tree := some tree }
        { symbols := [{ name := "main", kind := .function }] }) =
      some (.error (.notAValue "main")) := by decide +kernel
  obtain ⟨tree, found, failed⟩ := Option.map_eq_some_iff.mp generated
  have parsed := eq_ok_of_toOption found
  obtain ⟨_, blamed⟩ := parsed_unit_is_refused_for_names_only parsed rfl _ _ failed
  obtain ⟨function, among, mention, member, shown, valued, _⟩ := blamed "main" rfl
  exact ⟨tree, parsed, failed, function, among, mention, member, shown, valued⟩

end StackLang
