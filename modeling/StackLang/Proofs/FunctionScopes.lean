import StackLang.Proofs.ImportOrder
import StackLang.Proofs.Referents
import StackLang.Proofs.SourceLines

/-! The names inside of a generated function. Its variables are collected from its code, uses of
them come from the table, loops count on their own, and labels are found in the tokens; in the code
of an analysed program all of them agree: a variable is declared once, a loop count is used inside
of its loop only, and a jump has one target. -/
namespace StackLang

open StackLang.Outcome

/-! ### Names that code uses -/

def Expression.iterator? : Expression → Option Nat
  | .iterator depth => some depth
  | _ => none

namespace Step

def pushed? : Step → Option Nat
  | .pushIterator depth => some depth
  | _ => none

/-- The loop counts that a step mentions, apart from the one that it declares. -/
def iterators (step : Step) : List Nat :=
  step.pushed?.toList ++ step.expressions.filterMap Expression.iterator?

theorem mem_iterators {step : Step} {depth : Nat} :
    depth ∈ step.iterators ↔ .iterator depth ∈ step.referents := by
  have inside (expression : Expression) :
      .iterator depth ∈ expression.referents ↔ expression.iterator? = some depth := by
    cases expression <;> simp [Expression.referents, Expression.iterator?, eq_comm]
  rw [mem_referents (by simp), iterators, List.mem_append, List.mem_filterMap]
  simp only [inside]
  refine or_congr_left ?_
  cases step with
  | call callee arguments => cases callee <;> simp [pushed?, named?, Callee.referent]
  | _ => simp [pushed?, named?, eq_comm]

/-- The loop count that a step declares. -/
def opened? : Step → Option Nat
  | .openCounted depth _ _ _ | .openEndless depth => some depth
  | _ => none

/-- The counts of the loops around the next step, the innermost first. -/
def loopsBehind (around : List Nat) : Step → List Nat
  | .openCounted depth _ _ _ | .openEndless depth => depth :: around
  | .close => around.tail
  | _ => around

/-- A step inside of some loops uses their counts only, declares a new one, and closes a loop only
if there is one. -/
structure InLoops (around : List Nat) (step : Step) : Prop where
  uses : ∀ count ∈ step.iterators, count ∈ around
  declares : ∀ count ∈ step.opened?, count ∉ around
  closes : step = .close → around ≠ []

end Step

def openLoops (around : List Nat) (steps : List Step) : List Nat :=
  steps.foldl Step.loopsBehind around

def Action.taken? : Action → Option String
  | .takeLocal name => some name
  | _ => none

def Action.label? : Action → Option String
  | .label name => some name
  | _ => none

/-! ### Loops -/

/-- The counts of so many loops inside of each other. -/
def loopCounts : Nat → List Nat
  | 0 => []
  | depth + 1 => (depth + 1) :: loopCounts depth

theorem mem_loopCounts (count depth : Nat) :
    count ∈ loopCounts depth ↔ 0 < count ∧ count ≤ depth := by
  induction depth with
  | zero => simp [loopCounts]; omega
  | succ depth ih =>
    rw [loopCounts, List.mem_cons, ih]
    omega

namespace Frame

variable {frame : Frame} {depth inner : Nat} {action : Action} {code : Step}

theorem Yields.iterator_mem {expression : Expression}
    (yields : frame.Yields depth action expression) {count : Nat}
    (counted : expression.iterator? = some count) : count ∈ loopCounts depth := by
  cases yields with
  | iterator inside =>
    cases counted
    exact (mem_loopCounts depth depth).mpr ⟨inside, Nat.le_refl depth⟩
  | _ => cases counted

theorem Lowers.loopsBehind (lowers : frame.Lowers depth action code inner) :
    code.loopsBehind (loopCounts depth) = loopCounts inner := by
  cases lowers <;> rfl

theorem Lowers.inLoops (lowers : frame.Lowers depth action code inner) :
    code.InLoops (loopCounts depth) where
  uses := by
    intro count member
    rcases List.mem_append.mp member with pushed | mentioned
    · cases lowers with
      | pushIterator inside =>
        rw [List.mem_singleton.mp pushed]
        exact (mem_loopCounts depth depth).mpr ⟨inside, Nat.le_refl depth⟩
      | _ => cases pushed
    · obtain ⟨expression, among, counted⟩ := List.mem_filterMap.mp mentioned
      exact (lowers.yields expression among).iterator_mem counted
  declares := by
    intro count opened
    have next : count = depth + 1 := by
      cases lowers <;> cases opened <;> rfl
    rw [mem_loopCounts]
    omega
  closes := by
    rintro rfl
    cases lowers
    exact List.cons_ne_nil _ _

/-- Every step of a body is inside of the loops that the steps before it leave open. -/
theorem inLoops_of_steps {statements : List Statement} {steps : List Step}
    (done : frame.steps depth statements = .ok steps) :
    (∀ before step behind, steps = before ++ step :: behind →
      step.InLoops (openLoops (loopCounts depth) before)) ∧
      openLoops (loopCounts depth) steps = [] := by
  induction statements generalizing depth steps with
  | nil =>
    rw [Frame.steps] at done
    split at done
    · next closed =>
      cases done
      refine ⟨by simp, ?_⟩
      rw [closed]
      rfl
    · cases done
  | cons statement statements ih =>
    obtain ⟨⟨code, inner⟩, first, done⟩ := bind_ok done
    obtain ⟨others, later, done⟩ := bind_ok done
    cases done
    have lowers := lowers_of_step first
    obtain ⟨inside, closed⟩ := ih later
    have moved (steps : List Step) :
        openLoops (loopCounts depth) (code :: steps) = openLoops (loopCounts inner) steps := by
      rw [openLoops, List.foldl_cons, lowers.loopsBehind]
      rfl
    refine ⟨?_, (moved others).trans closed⟩
    intro before step behind parted
    cases before with
    | nil =>
      obtain ⟨rfl, _⟩ := List.cons.inj parted
      exact lowers.inLoops
    | cons same before =>
      obtain ⟨rfl, rest⟩ := List.cons.inj parted
      rw [moved]
      exact inside before step behind rest

end Frame

/-! ### Blocks of loops -/

def DeclaresCount (depth : Nat) (head : String) : Prop :=
  ∃ bounds : String,
    head = "for (" ++ CName.real ++ " " ++ CName.iterator depth ++ " = " ++ bounds

/-- In some rows a loop is opened that declares a count, and its block is not closed. -/
def OpenLoop (depth : Nat) (rows : List Row) : Prop :=
  ∃ front head inside blocks, rows = front ++ .opening head :: inside ∧ DeclaresCount depth head ∧
    indent? 0 inside = some blocks

/-- The blocks that a step opens and closes. -/
theorem Step.indent?_rows (step : Step) (indent : Nat) :
    StackLang.indent? indent step.rows =
      match step with
      | .openCounted _ _ _ _ | .openEndless _ => some (indent + 1)
      | .close => Row.indent? indent (.closing "\x7d")
      | _ => some indent := by
  cases step with
  | call callee => cases callee <;> rfl
  | take => exact ((level_underflowGuard 1).append fun _ => rfl) indent
  | jump which target => exact level_jumpRows which target indent
  | close => cases indent <;> rfl
  | _ => rfl

theorem Step.head_of_opened {step : Step} {depth : Nat} (opened : step.opened? = some depth) :
    ∃ head, step.rows = [.opening head] ∧ DeclaresCount depth head := by
  cases step with
  | openCounted other start by' stop =>
    cases opened
    refine ⟨_, rfl, ?_⟩
    unfold DeclaresCount countedText
    dsimp only
    simp only [String.append_assoc, String.append_right_inj]
    exact ⟨_, rfl⟩
  | openEndless other =>
    cases opened
    refine ⟨_, rfl, "0; ; " ++ CName.iterator depth ++ " += 1) \x7b", ?_⟩
    apply String.toList_inj.mp
    simp [endlessText]
  | _ => cases opened

/-- The count of an open loop is declared by the head of a block that is not closed. -/
theorem openLoop_of_getElem? {steps : List Step} {place depth : Nat}
    (around : (openLoops [] steps)[place]? = some depth) :
    ∃ front head inside, steps.flatMap Step.rows = front ++ .opening head :: inside ∧
      DeclaresCount depth head ∧ indent? 0 inside = some place := by
  induction steps using List.reverseRecOn generalizing place with
  | nil => cases around
  | append_singleton steps step ih =>
    -- The rows of the last step stand behind the head, or they are the head.
    have behind {before : Nat} (outer : (openLoops [] steps)[before]? = some depth)
        (counted : indent? before step.rows = some place) :
        ∃ front head inside, (steps ++ [step]).flatMap Step.rows = front ++ .opening head :: inside ∧
          DeclaresCount depth head ∧ indent? 0 inside = some place := by
      obtain ⟨front, head, inside, rows, declares, blocks⟩ := ih outer
      refine ⟨front, head, inside ++ step.rows, ?_, declares, ?_⟩
      · rw [List.flatMap_append, List.flatMap_singleton, rows, List.append_assoc, List.cons_append]
      · rw [indent?_of_append blocks, counted]
    have opens (opened : step.opened? = some depth) (innermost : place = 0) :
        ∃ front head inside, (steps ++ [step]).flatMap Step.rows = front ++ .opening head :: inside ∧
          DeclaresCount depth head ∧ indent? 0 inside = some place := by
      obtain ⟨head, rows, declares⟩ := Step.head_of_opened opened
      refine ⟨steps.flatMap Step.rows, head, [], ?_, declares, by rw [innermost]; rfl⟩
      rw [List.flatMap_append, List.flatMap_singleton, rows]
    rw [openLoops, List.foldl_append] at around
    cases step with
    | openCounted | openEndless =>
      cases place with
      | zero => exact opens around rfl
      | succ outer => exact behind around (Step.indent?_rows _ outer)
    | close =>
      have outer : (openLoops [] steps)[place + 1]? = some depth := by
        rw [← List.getElem?_tail]
        exact around
      exact behind outer (Step.indent?_rows _ _)
    | _ => exact behind around (Step.indent?_rows _ place)

/-! ### Statements and their code -/

theorem filterMap_eq_of_forall₂ {α β γ : Type} {made : α → β → Prop} {left : α → Option γ}
    {right : β → Option γ} {items : List α} {results : List β}
    (all : List.Forall₂ made items results)
    (same : ∀ item result, made item result → right result = left item) :
    results.filterMap right = items.filterMap left := by
  induction all with
  | nil => rfl
  | cons first _ ih => rw [List.filterMap_cons, List.filterMap_cons, same _ _ first, ih]

section Body

variable {frame : Frame} {depth : Nat} {statements : List Statement} {steps : List Step}

theorem taken_of_steps (done : frame.steps depth statements = .ok steps) :
    steps.filterMap Step.taken? =
      statements.filterMap fun statement => statement.action.taken? := by
  refine filterMap_eq_of_forall₂ (Frame.lowers_of_steps done) ?_
  intro statement step ⟨around, inner, lowers⟩
  generalize statement.action = action at lowers ⊢
  cases lowers <;> rfl

theorem labels_of_steps (done : frame.steps depth statements = .ok steps) :
    steps.filterMap Step.label? =
      statements.filterMap fun statement => statement.action.label? := by
  refine filterMap_eq_of_forall₂ (Frame.lowers_of_steps done) ?_
  intro statement step ⟨around, inner, lowers⟩
  generalize statement.action = action at lowers ⊢
  cases lowers <;> rfl

/-- A variable that code uses is one that it fills itself, or the table has it. -/
theorem slot_of_steps (done : frame.steps depth statements = .ok steps) {step : Step}
    (member : step ∈ steps) {name : String} (used : .slot name ∈ step.referents) :
    name ∈ steps.filterMap Step.taken? ∨
      ∃ module word symbol, frame.lookup module word = some symbol ∧
        (symbol.kind = .localValue ∨ symbol.kind = .parameter) ∧
        (name = symbol.baseName ∨ name = word) := by
  obtain ⟨statement, _, around, inner, lowers⟩ :=
    exists_of_forall₂ (Frame.lowers_of_steps done) member
  rcases (Step.mem_referents (by simp)).mp used with named | ⟨expression, among, inside⟩
  · refine .inl (List.mem_filterMap.mpr ⟨step, member, ?_⟩)
    cases step with
    | take other =>
      cases named
      rfl
    | call callee => cases callee <;> cases named
    | _ => cases named
  · have yields := lowers.yields expression among
    cases yields with
    | slot _ found kind =>
      cases List.mem_singleton.mp inside
      exact .inr ⟨_, _, _, found, kind, .inl rfl⟩
    | address _ found kind =>
      simp only [Expression.referents, List.mem_cons, List.not_mem_nil, or_false, reduceCtorEq,
        false_or, Referent.slot.injEq] at inside
      exact .inr ⟨_, _, _, found, kind, .inr inside⟩
    | number | code | constant | iterator => cases List.mem_singleton.mp inside

/-- The target of a jump is the label of a jump statement. -/
theorem target_of_steps (done : frame.steps depth statements = .ok steps) {step : Step}
    (member : step ∈ steps) {target : String} (used : .target target ∈ step.referents) :
    ∃ statement ∈ statements, ∃ which, statement.action = .jump which target := by
  obtain ⟨statement, among, around, inner, lowers⟩ :=
    exists_of_forall₂ (Frame.lowers_of_steps done) member
  refine ⟨statement, among, ?_⟩
  generalize statement.action = action at lowers ⊢
  rcases (Step.mem_referents (by simp)).mp used with named | ⟨expression, _, inside⟩
  · cases lowers with
    | jump =>
      cases named
      exact ⟨_, rfl⟩
    | call called => cases called <;> cases named
    | _ => cases named
  · cases expression <;> simp [Expression.referents] at inside

end Body

/-! ### Functions of an analysed program -/

section Program

variable {units : List SourceUnit} {table : SymbolTable} {unit : SourceUnit} {function : Function}
  {symbol : Symbol}

theorem scope_ne_none (compiled : ∀ unit ∈ units, unit.Compiled)
    (analyzed : analyze units = .ok table) (listed : symbol ∈ table.symbols)
    (bound : symbol.kind.isScoped = true) : symbol.scope ≠ none := by
  obtain ⟨owner, member, binding, declared, _, kind, key, _⟩ :=
    origin_of_mem compiled analyzed listed
  have scope : symbol.scope = binding.scope := congrArg Prod.fst key
  rw [scope]
  rw [kind] at bound
  rcases (compiled owner member).binding_cases declared with
    ⟨function, _, inside⟩ | ⟨_, _, _, _, _, rfl⟩
  · rcases Function.binding_cases inside with rfl | ⟨_, inner, _⟩
    · cases bound
    · rw [inner]
      simp
  · cases bound

/-- A symbol with the scope of a function is declared by that function. -/
theorem binding_of_scope (compiled : ∀ unit ∈ units, unit.Compiled)
    (analyzed : analyze units = .ok table) (among : (unit, function) ∈ functionsIn units)
    (listed : symbol ∈ table.symbols)
    (scope : symbol.scope = some (qualify unit.importName function.name)) :
    ∃ binding ∈ function.bindings unit.importName, symbol.kind = binding.kind ∧
      symbol.name = binding.word ∧ Lexeme.isIdentifier symbol.name = true := by
  obtain ⟨owner, member, binding, declared, _, kind, key, named⟩ :=
    origin_of_mem compiled analyzed listed
  have inner : binding.scope = some (qualify unit.importName function.name) := by
    rw [← scope]
    exact (congrArg Prod.fst key).symm
  have name : symbol.name = binding.name := congrArg Prod.snd key
  rcases (compiled owner member).binding_cases declared with
    ⟨other, listed, inside⟩ | ⟨_, _, _, _, _, rfl⟩
  · rcases Function.binding_cases inside with rfl | ⟨word, outer, _⟩
    · cases inner
    · have sameName : globalName (owner, other) = globalName (unit, function) := by
        rw [outer] at inner
        exact Option.some.inj inner
      have same := List.inj_on_of_nodup_map (nodup_functionsIn compiled analyzed)
        (mem_functionsIn.mpr ⟨member, listed⟩) among sameName
      obtain ⟨rfl, rfl⟩ := Prod.mk.inj same
      rw [word] at name
      exact ⟨binding, inside, kind, name, by rwa [name]⟩
  · cases inner

def Function.slots (function : Function) : List String :=
  function.parameters ++ function.statements.filterMap fun statement => statement.action.taken?

theorem mem_slots_of_lookup (compiled : ∀ unit ∈ units, unit.Compiled)
    (analyzed : analyze units = .ok table) (among : (unit, function) ∈ functionsIn units)
    {entry : Bool} {module : Option String} {word : String}
    (found : (UnitFrame.within ⟨unit.name, unit.importName, table⟩ function.name entry).lookup
      module word = some symbol)
    (kind : symbol.kind = .localValue ∨ symbol.kind = .parameter) :
    symbol.baseName = word ∧ word ∈ function.slots := by
  have bound : symbol.kind.isScoped = true := by
    rcases kind with kind | kind <;> rw [kind] <;> rfl
  obtain ⟨listed, global | key⟩ := SymbolTable.mem_of_resolve found
  · exact absurd global (scope_ne_none compiled analyzed listed bound)
  have name : symbol.name = word := congrArg Prod.snd key
  obtain ⟨binding, inside, sameKind, spelled, named⟩ :=
    binding_of_scope compiled analyzed among listed (congrArg Prod.fst key)
  have plain : symbol.name = qualify none symbol.name := rfl
  refine ⟨(Symbol.baseName_eq plain named).trans name, ?_⟩
  rw [← name, spelled]
  rw [sameKind] at kind
  rcases Function.binding_cases inside with rfl | ⟨same, _, ⟨_, given⟩ | ⟨statement, member, made⟩⟩
  · rcases kind with kind | kind <;> cases kind
  · rw [← same]
    exact List.mem_append_left _ given
  · refine List.mem_append_right _ (List.mem_filterMap.mpr ⟨statement, member, ?_⟩)
    generalize statement.action = action at made ⊢
    unfold Action.bindings at made
    split at made
    · rw [List.mem_singleton.mp made]
      rfl
    · rw [List.mem_singleton.mp made] at kind
      rcases kind with kind | kind <;> cases kind
    · cases made

def Function.labels (function : Function) : List String :=
  function.statements.filterMap fun statement => statement.action.label?

theorem label_of_jump (compiled : ∀ unit ∈ units, unit.Compiled)
    (analyzed : analyze units = .ok table) (among : (unit, function) ∈ functionsIn units)
    {statement : Statement} (member : statement ∈ function.statements) {which : Jump}
    {target : String} (jumps : statement.action = .jump which target) :
    Lexeme.isIdentifier target = true ∧ target ∈ function.labels := by
  obtain ⟨here, inside⟩ := mem_functionsIn.mp among
  obtain ⟨tree, held, _⟩ := (compiled unit here).parsed
  have inTree : function ∈ tree.functions := by
    rw [SourceUnit.functions, held] at inside
    exact inside
  have looked : ⟨.label, some (qualify unit.importName function.name), target⟩ ∈
      function.lookups unit.importName := by
    refine List.mem_flatMap.mpr ⟨statement, member, ?_⟩
    rw [jumps]
    exact List.mem_singleton_self _
  obtain ⟨reference, listed, same⟩ :=
    List.mem_map.mp (((compiled unit here).mem_lookups held _).mpr ⟨function, inTree, looked⟩)
  have known := (analyzed_of_analyze analyzed).known unit here reference listed
  rw [reference.isKnown_iff, same] at known
  obtain ⟨scope, inner, symbol, found, kind⟩ := known
  cases inner
  obtain ⟨present, key⟩ := SymbolTable.mem_of_find? found
  have name : symbol.name = target := congrArg Prod.snd key
  obtain ⟨binding, declared, sameKind, spelled, named⟩ :=
    binding_of_scope compiled analyzed among present (congrArg Prod.fst key)
  rw [name] at named
  refine ⟨named, ?_⟩
  rw [← name, spelled]
  rw [sameKind] at kind
  rcases Function.binding_cases declared with rfl | ⟨_, _, ⟨other, _⟩ | ⟨statement, member, made⟩⟩
  · cases kind
  · rw [other] at kind
    cases kind
  · refine List.mem_filterMap.mpr ⟨statement, member, ?_⟩
    generalize statement.action = action at made ⊢
    unfold Action.bindings at made
    split at made
    · rw [List.mem_singleton.mp made] at kind
      cases kind
    · rw [List.mem_singleton.mp made]
      rfl
    · cases made

theorem labels_sublist (scope : String) (statements : List Statement) :
    List.Sublist
      ((statements.filterMap fun statement => statement.action.label?).map
        fun name => (some scope, name))
      ((statements.flatMap fun statement => statement.action.bindings scope).map
        Binding.key) := by
  induction statements with
  | nil => exact List.Sublist.refl _
  | cons statement statements ih =>
    rw [List.filterMap_cons, List.flatMap_cons, List.map_append]
    cases labelled : statement.action.label? with
    | none => exact ih.trans (List.sublist_append_right _ _)
    | some name =>
      have action : statement.action = .label name := by
        generalize statement.action = action at labelled ⊢
        cases action <;> cases labelled
        rfl
      rw [action]
      exact List.Sublist.cons_cons _ ih

theorem nodup_labels (compiled : ∀ unit ∈ units, unit.Compiled)
    (analyzed : analyze units = .ok table) (among : (unit, function) ∈ functionsIn units) :
    function.labels.Nodup := by
  have marked := labels_sublist (qualify unit.importName function.name) function.statements
  have inside : List.Sublist
      ((function.statements.flatMap fun statement =>
        statement.action.bindings (qualify unit.importName function.name)).map Binding.key)
      ((function.bindings unit.importName).map Binding.key) :=
    (List.sublist_append_right _ _).map _
  have whole : List.Sublist ((function.bindings unit.importName).map Binding.key)
      ((functionsIn units).flatMap fun site =>
        (site.2.bindings site.1.importName).map Binding.key) :=
    List.sublist_flatten_of_mem (List.mem_map.mpr ⟨(unit, function), among, rfl⟩)
  have distinct := (nodup_bindingsIn compiled analyzed).sublist
    ((marked.trans (inside.trans whole)).trans (keys_functionsIn_sublist compiled))
  exact List.Nodup.of_map _ distinct

end Program

/-! ### Lines of a function -/

theorem Row.Inner.ne_labelRow {row : Row} (inner : row.Inner) {name : String}
    (named : Lexeme.isIdentifier name = true) : row ≠ labelRow name := by
  rintro rfl
  have spelled : (name ++ ":;").toList = name.toList ++ [':', ';'] := by simp
  have other {c : Char} (odd : Lexeme.isWordPart c = false) (unmarked : c ∉ [':', ';'])
      (member : c ∈ (name ++ ":;").toList) : False := by
    rw [spelled] at member
    rcases List.mem_append.mp member with inside | behind
    · rw [Lexeme.isWordPart_of_isIdentifier named inside] at odd
      cases odd
    · exact unmarked behind
  rcases inner with blank | paren | colonless
  · exact other (by decide) (by decide) blank
  · exact other (by decide) (by decide) paren
  · apply colonless
    rw [spelled]
    simp

theorem labelRow_inj {name other : String} (same : labelRow name = labelRow other) :
    name = other := by
  simpa [labelRow] using same

theorem count_labelRow_of_inner {rows : List Row} (inner : ∀ row ∈ rows, row.Inner)
    {name : String} (named : Lexeme.isIdentifier name = true) : rows.count (labelRow name) = 0 := by
  apply List.count_eq_zero_of_not_mem
  intro member
  exact (inner _ member).ne_labelRow named rfl

theorem count_steps {name : String} (named : Lexeme.isIdentifier name = true) (steps : List Step) :
    (steps.flatMap Step.rows).count (labelRow name) = (steps.filterMap Step.label?).count name := by
  induction steps with
  | nil => rfl
  | cons step steps ih =>
    rw [List.flatMap_cons, List.count_append, List.filterMap_cons, ih]
    cases labelled : step.label? with
    | none => simp [count_labelRow_of_inner (step.inner labelled) named]
    | some other =>
      have label : step = .label other := by
        cases step <;> cases labelled
        rfl
      subst label
      have rows : (Step.label other).rows = [labelRow other] := rfl
      rw [rows]
      by_cases same : other = name
      · simp [same, Nat.add_comm]
      · have apart : labelRow other ≠ labelRow name := fun equal => same (labelRow_inj equal)
        simp [same, apart]

theorem count_labelRow_heading {name : String} (named : Lexeme.isIdentifier name = true)
    (heading : Heading) :
    heading.rows.count (labelRow name) = 0 ∧ heading.endRows.count (labelRow name) = 0 := by
  refine ⟨?_, count_labelRow_of_inner heading.inner_endRows named⟩
  cases heading with
  | entry =>
    have lines : ∀ row ∈ [Row.line "(void)argc;", .line "(void)argv;"], row.Inner := by
      simp [Row.Inner]
    have rows : Heading.entry.rows =
        .opening entryLine :: [Row.line "(void)argc;", .line "(void)argv;"] := rfl
    rw [rows, List.count_cons_of_ne (by simp [labelRow]), count_labelRow_of_inner lines named]
  | named unit word => exact count_labelRow_of_inner (Heading.inner_named unit word) named

/-- The lines of labels in a function are those of its label steps. -/
theorem count_labelRow {name : String} (named : Lexeme.isIdentifier name = true)
    (heading : Heading) (parameters : List String) (steps : List Step) :
    (Definition.function heading parameters steps).rows.count (labelRow name) =
      (steps.filterMap Step.label?).count name := by
  obtain ⟨opened, ended⟩ := count_labelRow_heading named heading
  simp only [Definition.rows, List.count_append]
  rw [opened, ended, count_steps named,
    count_labelRow_of_inner (inner_declareSlots _) named,
    count_labelRow_of_inner (inner_popParameters parameters) named]
  omega

theorem declareSlot_inj {name other : String} (same : declareSlot name = declareSlot other) :
    name = other := by
  simpa [declareSlot, CName.slot] using same

theorem count_declareSlot {parameters : List String} {steps : List Step} {name : String}
    (member : name ∈ parameters ++ steps.filterMap Step.taken?) :
    ((slotsOf parameters steps).map declareSlot).count (declareSlot name) = 1 := by
  have distinct : (slotsOf parameters steps).Nodup := nodup_eraseDups _
  apply List.count_eq_one_of_mem
  · exact distinct.map fun _ _ same => declareSlot_inj same
  · exact List.mem_map_of_mem (List.mem_eraseDups.mpr member)

section Definitions

variable {units : List SourceUnit} {table : SymbolTable} {unit : SourceUnit} {function : Function}
  {heading : Heading} {steps : List Step}

theorem declared_of_slot (compiled : ∀ unit ∈ units, unit.Compiled)
    (analyzed : analyze units = .ok table) (among : (unit, function) ∈ functionsIn units)
    {entry : Bool}
    (stepped : (UnitFrame.within ⟨unit.name, unit.importName, table⟩ function.name entry).steps 0
      function.statements = .ok steps) {name : String}
    (used : .slot name ∈ (Definition.function heading function.parameters steps).referents) :
    ((slotsOf function.parameters steps).map declareSlot).count (declareSlot name) = 1 := by
  apply count_declareSlot
  rcases Definition.referents_cases (by simp) used with ⟨_, _, _, other⟩ | ⟨_, listed, same⟩ |
    ⟨step, inside, used⟩
  · cases other
  · cases same
    exact List.mem_eraseDups.mp listed
  · rcases slot_of_steps stepped inside used with taken | ⟨module, word, symbol, found, kind, spelled⟩
    · exact List.mem_append_right _ taken
    · obtain ⟨base, variable'⟩ := mem_slots_of_lookup compiled analyzed among found kind
      have name : name = word := spelled.elim (fun same => same.trans base) id
      rw [name, taken_of_steps stepped]
      exact variable'

theorem labelled_of_target (compiled : ∀ unit ∈ units, unit.Compiled)
    (analyzed : analyze units = .ok table) (among : (unit, function) ∈ functionsIn units)
    {entry : Bool}
    (stepped : (UnitFrame.within ⟨unit.name, unit.importName, table⟩ function.name entry).steps 0
      function.statements = .ok steps) {target : String}
    (used : .target target ∈ (Definition.function heading function.parameters steps).referents) :
    (Definition.function heading function.parameters steps).rows.count (labelRow target) = 1 := by
  rcases Definition.referents_cases (by simp) used with ⟨_, _, _, other⟩ | ⟨_, _, other⟩ |
    ⟨step, inside, used⟩
  · cases other
  · cases other
  · obtain ⟨statement, inBody, which, jumping⟩ := target_of_steps stepped inside used
    obtain ⟨named, labelled⟩ := label_of_jump compiled analyzed among inBody jumping
    rw [count_labelRow named, labels_of_steps stepped]
    exact List.count_eq_one_of_mem (nodup_labels compiled analyzed among) labelled

end Definitions

/-- The names inside of a function. Its rows mention what it refers to and nothing else, and what is no
function or constant has one word for its C name. -/
structure WellScoped (heading : Heading) (parameters : List String) (steps : List Step) :
    Prop where
  mentions : (Definition.function heading parameters steps).rows.flatMap Row.identifiers =
    (Definition.function heading parameters steps).referents.flatMap Referent.identifiers
  mentions_step : ∀ step ∈ steps,
    step.rows.flatMap Row.identifiers = step.referents.flatMap Referent.identifiers
  words : ∀ referent ∈ (Definition.function heading parameters steps).referents,
    referent.known? = none → referent.identifiers = [referent.identifier]
  /-- The declarations stand in front of the code. -/
  declarations : heading.rows ++ (slotsOf parameters steps).map declareSlot <+:
    (Definition.function heading parameters steps).rows
  declared : ∀ name, .slot name ∈ (Definition.function heading parameters steps).referents →
    ((slotsOf parameters steps).map declareSlot).count (declareSlot name) = 1
  inLoops : ∀ before step behind, steps = before ++ step :: behind →
    step.InLoops (openLoops [] before)
  inBlock : ∀ before step behind, steps = before ++ step :: behind →
    ∀ depth, .iterator depth ∈ step.referents → OpenLoop depth (before.flatMap Step.rows)
  closed : openLoops [] steps = []
  labelled : ∀ target, .target target ∈ (Definition.function heading parameters steps).referents →
    (Definition.function heading parameters steps).rows.count (labelRow target) = 1

/-- The names inside of the functions of generated code. A variable that a function mentions is
declared once in front of its code; a loop count is mentioned only inside of the block of a loop whose
head declares it, so the bounds of a loop mention the counts of the loops around it only; all loops
are closed; and the target of a jump is the line of one label. Code that is copied verbatim is not
looked into. -/
theorem generated_functions_are_well_scoped {units : List SourceUnit}
    (compiled : ∀ unit ∈ units, unit.Compiled) {table : SymbolTable}
    (analyzed : analyze units = .ok table) {unit : SourceUnit} (member : unit ∈ units)
    {settings : RuntimeSettings} {generated : GeneratedUnit}
    (done : generate settings unit table = .ok generated) :
    ∃ code, UnitCode.ofUnit unit table = .ok code ∧ generated = code.files settings ∧
      ∀ heading parameters steps, .function heading parameters steps ∈ code.definitions →
        WellScoped heading parameters steps := by
  obtain ⟨code, made, files⟩ := ofUnit_of_generate done
  refine ⟨code, made, files, ?_⟩
  intro heading parameters steps defined
  have spelled := definitions_spelled compiled analyzed member made _ defined
  obtain ⟨function, inside, rfl, stepped⟩ :=
    (compiled unit member).function_of_definition made defined
  have among : (unit, function) ∈ functionsIn units := mem_functionsIn.mpr ⟨member, inside⟩
  exact {
    mentions := spelled.identifiers_rows
    mentions_step := fun step member => (spelled.2.2 step member).identifiers_rows
    words := fun referent member other =>
      Referent.identifiers_eq ((spelled.referents member).isWord_of_known? other)
    declarations := ⟨popParameters function.parameters ++ (steps.flatMap Step.rows ++
      heading.endRows), by simp [Definition.rows]⟩
    declared := fun name used => declared_of_slot compiled analyzed among stepped used
    inLoops := (Frame.inLoops_of_steps stepped).1
    inBlock := by
      intro before step behind parted depth counted
      have inLoops := (Frame.inLoops_of_steps stepped).1 before step behind parted
      obtain ⟨place, around⟩ :=
        List.mem_iff_getElem?.mp (inLoops.uses depth (Step.mem_iterators.mpr counted))
      obtain ⟨front, head, inside, rows, declares, blocks⟩ := openLoop_of_getElem? around
      exact ⟨front, head, inside, place, rows, declares, blocks⟩
    closed := (Frame.inLoops_of_steps stepped).2
    labelled := fun target used => labelled_of_target compiled analyzed among stepped used }

/-- A loop inside of another one, between a label and a jump back to it. -/
def countingSteps : List Step :=
  [.label "again", .call (.primitive "push") [.address "n"], .take "m",
    .openCounted 1 (.number "0") (.number "1") (.slot "n"),
    .openCounted 2 (.iterator 1) (.number "1") (.slot "m"),
    .call (.primitive "push") [.iterator 2, .slot "n"], .close, .close, .jump .jgz "again"]

theorem counting_function_is_well_scoped :
    ∃ unit table generated code, (∀ other ∈ [unit], other.Compiled) ∧
      analyze [unit] = .ok table ∧ generate {} unit table = .ok generated ∧
      UnitCode.ofUnit unit table = .ok code ∧
      .function (.named "main" "count") ["n"] countingSteps ∈ code.definitions ∧
      ((slotsOf ["n"] countingSteps).map declareSlot).count (declareSlot "n") = 1 ∧
      (Step.openCounted 2 (.iterator 1) (.number "1") (.slot "m")).InLoops [1] ∧
      OpenLoop 1 ((countingSteps.take 4).flatMap Step.rows) ∧
      (Definition.function (.named "main" "count") ["n"] countingSteps).rows.count
        (labelRow "again") = 1 := by
  have accepted : (do
      let unit ← unitOf none "fn count(n) {
again:
push &n
local m
for 0 1 n
for $ 1 m
push $ n
end
end
jgz again
}
fn main() {
}
"
      let table ← (analyze [unit]).toOption
      let code ← (UnitCode.ofUnit unit table).toOption
      return code.definitions.head?) =
        some (some (.function (.named "main" "count") ["n"] countingSteps)) := by decide +kernel
  obtain ⟨unit, read, accepted⟩ := Option.bind_eq_some_iff.mp accepted
  obtain ⟨table, analyzed, accepted⟩ := Option.bind_eq_some_iff.mp accepted
  obtain ⟨code, made, accepted⟩ := Option.bind_eq_some_iff.mp accepted
  have analyzed := eq_ok_of_toOption analyzed
  have made := eq_ok_of_toOption made
  have defined := List.mem_of_mem_head? (Option.some.inj accepted)
  have compiled : ∀ other ∈ [unit], other.Compiled := by simp [compiled_of_unitOf read]
  have done : generate {} unit table = .ok (code.files {}) := by
    rw [generate, made]
    rfl
  obtain ⟨found, remade, _, functions⟩ :=
    generated_functions_are_well_scoped compiled analyzed List.mem_cons_self done
  rw [made] at remade
  cases remade
  have names := functions _ _ _ defined
  refine ⟨unit, table, _, code, compiled, analyzed, done, made, defined, ?_, ?_, ?_, ?_⟩
  · exact names.declared "n" (by decide)
  · exact names.inLoops (countingSteps.take 4) _ (countingSteps.drop 5) rfl
  · exact names.inBlock (countingSteps.take 4) _ (countingSteps.drop 5) rfl 1 (by decide)
  · exact names.labelled "again" (by decide)

end StackLang
