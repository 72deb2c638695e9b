import StackLang.Proofs.CodeErrors

/-! What the tokens of a file refer to is what its tree refers to. The analysis tells the role of
an identifier from the tokens around it; wherever the grammar lets an identifier stand, these
tokens give the role that the tree has for it, inside the same function. -/
namespace StackLang

open StackLang.Grammar StackLang.Parser

structure Lookup where
  role : Role
  function : Option String
  name : String
  deriving DecidableEq, Repr

def Reference.lookup (reference : Reference) : Lookup :=
  ⟨reference.role, reference.function, reference.site.literal⟩

def lookups (module : Option String) (around : Surroundings) (tokens : List Token) : List Lookup :=
  (references module around tokens).map Reference.lookup

/-- A qualified name refers to its module first. -/
def Mention.lookups (function : Option String) (mention : Mention) : List Lookup :=
  match mention.module with
  | some module => [⟨.module, function, module⟩, ⟨.named (some module), function, mention.name⟩]
  | none => [⟨.named none, function, mention.name⟩]

def Action.lookups (function : Option String) : Action → List Lookup
  | .jump _ target => [⟨.label, function, target⟩]
  | action => action.mentions.flatMap (Mention.lookups function)

def Function.lookups (module : Option String) (function : Function) : List Lookup :=
  function.statements.flatMap fun statement =>
    statement.action.lookups (some (qualify module function.name))

/-! ### Surroundings -/

/-- The kinds behind which an identifier declares something, names a reduction, is a label or
belongs to a module. -/
def TokenKind.announces : TokenKind → Bool
  | .fnWord | .constWord | .localWord | .reduceWord | .doubleColon | .jump _ => true
  | _ => false

def TokenKind.isIdle : TokenKind → Bool
  | .identifier | .leftParen => false
  | kind => !kind.announces

theorem TokenKind.isIdle_iff (kind : TokenKind) :
    kind.isIdle = true ↔
      kind ≠ .identifier ∧ kind ≠ .leftParen ∧ kind.announces = false := by
  cases kind <;> simp [isIdle, announces]

namespace Surroundings

/-- Surroundings inside of a function, or of none, but not among parameters. -/
structure Within (around : Surroundings) (function : Option String) : Prop where
  inside : around.function = function
  outside : around.inParameters = false

/-- Surroundings in which an identifier is an ordinary one. -/
structure Calm (around : Surroundings) (function : Option String) : Prop
    extends Within around function where
  quiet : ∀ token ∈ around.last, token.kind.announces = false

theorem calm_start : Calm {} none := ⟨⟨rfl, rfl⟩, by simp⟩

theorem lastIs_past (around : Surroundings) (module : Option String) (token : Token)
    (kind : TokenKind) : (around.past module token).lastIs kind = (token.kind = kind : Bool) := by
  simp [Surroundings.past, lastIs]

theorem Within.past {around : Surroundings} {function module : Option String} {token : Token}
    (within : around.Within function)
    (unnamed : token.kind ≠ .identifier ∨ around.lastIs .fnWord = false)
    (unopened : token.kind ≠ .leftParen) : (around.past module token).Within function := by
  constructor
  · have other : ¬(token.kind = .identifier ∧ around.lastIs .fnWord = true) := by
      rintro ⟨seen, named⟩
      rcases unnamed with unseen | unnamed
      · exact unseen seen
      · rw [unnamed] at named
        cases named
    rw [Surroundings.past, if_neg other, within.inside]
  · simp only [Surroundings.past]
    split
    · next opened => exact absurd opened unopened
    · rfl
    · exact within.outside

theorem Calm.lastIs {around : Surroundings} {function : Option String} {kind : TokenKind}
    (calm : around.Calm function) (loud : kind.announces = true) : around.lastIs kind = false := by
  unfold Surroundings.lastIs
  cases read : around.last with
  | none => simp
  | some token =>
    have quiet := calm.quiet token read
    have other : token.kind ≠ kind := by
      rintro rfl
      rw [quiet] at loud
      cases loud
    simpa using other

theorem Within.calm_past {around : Surroundings} {function module : Option String} {token : Token}
    (within : around.Within function)
    (unnamed : token.kind ≠ .identifier ∨ around.lastIs .fnWord = false)
    (unopened : token.kind ≠ .leftParen) (quiet : token.kind.announces = false) :
    (around.past module token).Calm function := by
  refine ⟨within.past unnamed unopened, ?_⟩
  rintro _ ⟨⟩
  exact quiet

theorem Calm.past {around : Surroundings} {function module : Option String} {token : Token}
    (calm : around.Calm function) (quiet : token.kind.announces = false)
    (unopened : token.kind ≠ .leftParen) : (around.past module token).Calm function :=
  calm.calm_past (.inr (calm.lastIs rfl)) unopened quiet

end Surroundings

/-! ### Shapes -/

section Shapes

variable {module function : Option String} {tokens middle rest : List Token}

theorem lookups_cons (around : Surroundings) (token : Token) (rest : List Token) :
    lookups module around (token :: rest) =
      (if token.kind = .identifier ∧ ¬around.declares (rest.head?.map Token.kind) then
        [⟨around.role (rest.head?.map Token.kind), around.function, token.literal⟩] else []) ++
      lookups module (around.past module token) rest := by
  simp only [lookups, references]
  split <;> rfl

/-- From calm surroundings to calm ones, tokens refer to some names. -/
def Reads (module function : Option String) (tokens rest : List Token) (found : List Lookup) :
    Prop :=
  ∀ around : Surroundings, around.Calm function →
    ∃ after : Surroundings, after.Calm function ∧
      lookups module around tokens = found ++ lookups module after rest

theorem Reads.nothing : Reads module function rest rest [] :=
  fun around calm => ⟨around, calm, rfl⟩

theorem Reads.trans {first second : List Lookup} (front : Reads module function tokens middle first)
    (back : Reads module function middle rest second) :
    Reads module function tokens rest (first ++ second) := by
  intro around calm
  obtain ⟨between, calmed, fronts⟩ := front around calm
  obtain ⟨after, settled, backs⟩ := back between calmed
  exact ⟨after, settled, by rw [fronts, backs, List.append_assoc]⟩

theorem Reads.token {token : Token} {found : List Lookup} (idle : token.kind.isIdle = true)
    (more : Reads module function tokens rest found) :
    Reads module function (token :: tokens) rest found := by
  obtain ⟨other, unopened, quiet⟩ := (TokenKind.isIdle_iff _).mp idle
  intro around calm
  have calmed : (around.past module token).Calm function := calm.past quiet unopened
  obtain ⟨after, settled, seen⟩ := more _ calmed
  refine ⟨after, settled, ?_⟩
  rw [lookups_cons, if_neg (fun both => other both.1), seen, List.nil_append]

/-- Neither colon is next. -/
def Plain (tokens : List Token) : Prop :=
  ∀ token ∈ tokens.head?, token.kind ≠ .colon ∧ token.kind ≠ .doubleColon

theorem Plain.head? {tokens : List Token} (plain : Plain tokens) :
    tokens.head?.map Token.kind ≠ some .colon ∧
      tokens.head?.map Token.kind ≠ some .doubleColon := by
  cases first : tokens.head? with
  | none => simp
  | some token => simpa using plain token first

theorem Surroundings.Calm.declares {around : Surroundings} {next : Option TokenKind}
    (calm : around.Calm function) (unmarked : next ≠ some .colon) :
    around.declares next = false := by
  have byFn : around.lastIs .fnWord = false := calm.lastIs rfl
  have byConst : around.lastIs .constWord = false := calm.lastIs rfl
  have byLocal : around.lastIs .localWord = false := calm.lastIs rfl
  have byReduce : around.lastIs .reduceWord = false := calm.lastIs rfl
  simp [Surroundings.declares, byFn, byConst, byLocal, byReduce, calm.outside, unmarked]

theorem Surroundings.Calm.role {around : Surroundings} {next : Option TokenKind}
    (calm : around.Calm function) :
    around.role next = if next = some .doubleColon then .module else .named none := by
  have unjumped : around.last.any (·.kind.isJump) = false := by
    cases read : around.last with
    | none => rfl
    | some token =>
      have quiet := calm.quiet token read
      cases kind : token.kind <;> simp_all [TokenKind.announces, TokenKind.isJump]
  have unqualified : around.lastIs .doubleColon = false := calm.lastIs rfl
  simp [Surroundings.role, unjumped, unqualified]

theorem Reads.word {word : Token} (seen : word.kind = .identifier) (plain : Plain rest) :
    Reads module function (word :: rest) rest [⟨.named none, function, word.literal⟩] := by
  intro around calm
  obtain ⟨unmarked, unseparated⟩ := plain.head?
  refine ⟨around.past module word, calm.past (by rw [seen]; rfl) (by simp [seen]), ?_⟩
  rw [lookups_cons, if_pos ⟨seen, by simp [calm.declares unmarked]⟩, calm.role, if_neg unseparated,
    calm.inside]

/-- An identifier behind a token that announces it. -/
theorem lookups_announced (module : Option String) (rest : List Token) {around : Surroundings}
    {word name : Token} (within : around.Within function) (loud : word.kind.announces = true)
    (unnamed : word.kind ≠ .fnWord) (seen : name.kind = .identifier) :
    ((around.past module word).past module name).Calm function ∧
      lookups module around (word :: name :: rest) =
        (if (around.past module word).declares (rest.head?.map Token.kind) then []
          else [⟨(around.past module word).role (rest.head?.map Token.kind), function,
            name.literal⟩]) ++
        lookups module ((around.past module word).past module name) rest := by
  have other : word.kind ≠ .identifier := by intro same; rw [same] at loud; cases loud
  have unopened : word.kind ≠ .leftParen := by intro same; rw [same] at loud; cases loud
  have passed : (around.past module word).Within function := within.past (.inl other) unopened
  have first : (around.past module word).lastIs .fnWord = false := by
    simp [Surroundings.lastIs_past, unnamed]
  refine ⟨passed.calm_past (.inr first) (by simp [seen]) (by rw [seen]; rfl), ?_⟩
  rw [lookups_cons, if_neg (fun both => other both.1), List.nil_append, lookups_cons, passed.inside]
  simp only [seen, true_and]
  cases (around.past module word).declares (rest.head?.map Token.kind) <;> rfl

/-- What a word declares, or names as a reduction, is no reference. -/
theorem Reads.declared {word name : Token} {found : List Lookup}
    (declaring : word.kind = .constWord ∨ word.kind = .localWord ∨ word.kind = .reduceWord)
    (seen : name.kind = .identifier) (more : Reads module function tokens rest found) :
    Reads module function (word :: name :: tokens) rest found := by
  intro around calm
  have loud : word.kind.announces = true := by
    rcases declaring with kind | kind | kind <;> rw [kind] <;> rfl
  have unnamed : word.kind ≠ .fnWord := by
    rcases declaring with kind | kind | kind <;> simp [kind]
  obtain ⟨settled, read⟩ := lookups_announced module tokens calm.toWithin loud unnamed seen
  have declares : (around.past module word).declares (tokens.head?.map Token.kind) = true := by
    rcases declaring with kind | kind | kind <;>
      simp [Surroundings.declares, Surroundings.lastIs_past, kind]
  obtain ⟨after, calmed, others⟩ := more _ settled
  exact ⟨after, calmed, by rw [read, if_pos declares, others, List.nil_append]⟩

/-- A colon makes a label of the word in front of it. -/
theorem Reads.marked {word colon : Token} {found : List Lookup} (seen : word.kind = .identifier)
    (colons : colon.kind = .colon) (more : Reads module function tokens rest found) :
    Reads module function (word :: colon :: tokens) rest found := by
  intro around calm
  have calmed : (around.past module word).Calm function :=
    calm.past (by rw [seen]; rfl) (by simp [seen])
  have declares : around.declares ((colon :: tokens).head?.map Token.kind) = true := by
    simp [Surroundings.declares, colons]
  obtain ⟨after, settled, others⟩ := more.token (by rw [colons]; rfl) _ calmed
  refine ⟨after, settled, ?_⟩
  rw [lookups_cons, if_neg (fun both => both.2 declares), others, List.nil_append]

theorem Reads.target {word name : Token} {which : Jump} (jumping : word.kind = .jump which)
    (seen : name.kind = .identifier) (plain : Plain rest) :
    Reads module function (word :: name :: rest) rest [⟨.label, function, name.literal⟩] := by
  intro around calm
  obtain ⟨settled, read⟩ := lookups_announced module rest calm.toWithin
    (by rw [jumping]; rfl) (by simp [jumping]) seen
  refine ⟨_, settled, ?_⟩
  have passed : (around.past module word).Within function :=
    calm.toWithin.past (.inl (by simp [jumping])) (by simp [jumping])
  have ordinary : (around.past module word).declares (rest.head?.map Token.kind) = false := by
    simp only [Surroundings.declares, Surroundings.lastIs_past, jumping, passed.outside,
      plain.head?.1, reduceCtorEq, decide_false, Bool.or_false]
  have role : (around.past module word).role (rest.head?.map Token.kind) = .label := by
    simp [Surroundings.role, Surroundings.past, jumping, TokenKind.isJump]
  rw [read, ordinary, role]
  rfl

theorem Reads.qualified {first colons word : Token} (qualifier : first.kind = .identifier)
    (separated : colons.kind = .doubleColon) (seen : word.kind = .identifier) (plain : Plain rest) :
    Reads module function (first :: colons :: word :: rest) rest
      [⟨.module, function, first.literal⟩,
        ⟨.named (some first.literal), function, word.literal⟩] := by
  intro around calm
  have calmed : (around.past module first).Calm function :=
    calm.past (by rw [qualifier]; rfl) (by simp [qualifier])
  have next : (colons :: word :: rest).head?.map Token.kind = some .doubleColon := by
    simp [separated]
  obtain ⟨settled, read⟩ := lookups_announced module rest calmed.toWithin
    (by rw [separated]; rfl) (by simp [separated]) seen
  refine ⟨_, settled, ?_⟩
  have passed : ((around.past module first).past module colons).Within function :=
    calmed.toWithin.past (.inl (by simp [separated])) (by simp [separated])
  have ordinary : ((around.past module first).past module colons).declares
      (rest.head?.map Token.kind) = false := by
    simp only [Surroundings.declares, Surroundings.lastIs_past, separated, passed.outside,
      plain.head?.1, reduceCtorEq, decide_false, Bool.or_false]
  have role : ((around.past module first).past module colons).role (rest.head?.map Token.kind) =
      .named (some first.literal) := by
    simp only [Surroundings.role, Surroundings.lastIs_past, separated, plain.head?.2]
    simp [Surroundings.past, separated, TokenKind.isJump]
  have undeclared : ¬around.declares ((colons :: word :: rest).head?.map Token.kind) = true := by
    rw [next, calm.declares (by simp)]
    simp
  rw [lookups_cons, if_pos ⟨qualifier, undeclared⟩, next, calm.role, if_pos rfl, calm.inside, read,
    ordinary, role]
  rfl

theorem plain_of_lineEnd (ended : LineEnd tokens rest) : Plain tokens := by
  rintro token first
  cases ended with
  | newLine seen => cases first; simp [seen]
  | brace seen => cases first; simp [seen]

theorem plain_of_operand {looped : Bool} {argument : Argument}
    (operand : Operand looped tokens rest argument) : Plain tokens := by
  rintro token first
  cases operand with
  | number seen => cases first; simp [seen]
  | string seen => cases first; simp [seen]
  | named spelled =>
    cases spelled with
    | plain seen => cases first; simp [seen]
    | qualified seen => cases first; simp [seen]
  | address seen => cases first; simp [seen]
  | iterator seen => cases first; simp [seen]

theorem plain_of_operands {looped : Bool} {given : List Argument}
    (operands : Operands looped tokens rest given) (plain : Plain rest) : Plain tokens := by
  cases operands with
  | done => exact plain
  | comma seen => rintro token ⟨⟩; simp [seen]
  | comment seen => rintro token ⟨⟩; simp [seen]
  | operand first => exact plain_of_operand first

variable (module function)

theorem reads_name {owner : Option String} {name : String} (mention : Mention)
    (spelled : Name tokens rest owner name) (plain : Plain rest)
    (owned : mention.module = owner) (named : mention.name = name) :
    Reads module function tokens rest (mention.lookups function) := by
  unfold Mention.lookups
  rw [owned, named]
  cases spelled with
  | plain seen => exact .word seen plain
  | qualified qualifier separated seen => exact .qualified qualifier separated seen plain

theorem reads_operand {looped : Bool} {argument : Argument}
    (operand : Operand looped tokens rest argument) (plain : Plain rest) :
    Reads module function tokens rest
      (argument.mention?.toList.flatMap (Mention.lookups function)) := by
  cases operand with
  | number seen => exact Reads.nothing.token (by rw [seen]; rfl)
  | string seen => exact Reads.nothing.token (by rw [seen]; rfl)
  | iterator seen => exact Reads.nothing.token (by rw [seen]; rfl)
  | @named _ _ owner name spelled =>
    have read := reads_name module function (.value owner name) spelled plain rfl rfl
    simpa [Argument.mention?] using read
  | address marked seen =>
    have word : Reads module function _ rest _ := .word seen plain
    exact word.token (by rw [marked]; rfl)

theorem reads_operands {looped : Bool} {given : List Argument}
    (operands : Operands looped tokens rest given) (plain : Plain rest) :
    Reads module function tokens rest
      ((given.filterMap Argument.mention?).flatMap (Mention.lookups function)) := by
  induction operands with
  | done => exact .nothing
  | comma seen _ ih => exact (ih plain).token (by rw [seen]; rfl)
  | comment opened closed _ ih =>
    refine Reads.token (by rw [opened]; rfl) ?_
    exact (ih plain).token (by rw [closed]; rfl)
  | @operand _ _ _ argument given first more ih =>
    have front := reads_operand module function first (plain_of_operands more plain)
    have both := front.trans (ih plain)
    cases named : argument.mention? with
    | none => simpa [named] using both
    | some mention => simpa [named] using both

theorem reads_lineEnd (ended : LineEnd tokens rest) : Reads module function tokens rest [] := by
  cases ended with
  | newLine seen => exact Reads.nothing.token (by rw [seen]; rfl)
  | brace => exact .nothing

theorem reads_call {looped : Bool} {action : Action} (called : Call looped tokens rest action) :
    Reads module function tokens rest (action.lookups function) := by
  obtain ⟨spelled, operands, ended⟩ := called
  have plain := plain_of_lineEnd ended
  have named := reads_name module function (.called _ _) spelled
    (plain_of_operands operands plain) rfl rfl
  have given := reads_operands module function operands plain
  have read := (named.trans given).trans (reads_lineEnd module function ended)
  simpa [Action.lookups, Action.mentions] using read

theorem reads_line {depth inner : Nat} {action : Action}
    (line : Line depth tokens rest action inner) :
    Reads module function tokens rest (action.lookups function) := by
  have ends {behind : List Token} (ended : LineEnd behind rest) :
      Reads module function behind rest [] := reads_lineEnd module function ended
  cases line with
  | call called => exact reads_call module function called
  | inlineC seen => exact Reads.nothing.token (by rw [seen]; rfl)
  | label seen marked _ ended => exact (ends ended).marked seen marked
  | jump seen aimed ended =>
    exact (Reads.target seen aimed (plain_of_lineEnd ended)).trans (ends ended)
  | takeLocal seen named ended => exact (ends ended).declared (.inr (.inl seen)) named
  | reduce seen named _ ended => exact (ends ended).declared (.inr (.inr seen)) named
  | leave seen ended => exact (ends ended).token (by rw [seen]; rfl)
  | pushIterator seen _ ended => exact (ends ended).token (by rw [seen]; rfl)
  | breakLoop seen _ ended => exact (ends ended).token (by rw [seen]; rfl)
  | continueLoop seen _ ended => exact (ends ended).token (by rw [seen]; rfl)
  | endlessLoop seen ended => exact (ends ended).token (by rw [seen]; rfl)
  | endLoop seen ended => exact (ends ended).token (by rw [seen]; rfl)
  | countedLoop seen started stepped stopped ended =>
    -- Three bounds are three operands in a row.
    have bounds := Operands.operand started.operand
      (.operand stepped.operand (.operand stopped.operand .done))
    have read := (reads_operands module function bounds (plain_of_lineEnd ended)).trans (ends ended)
    rw [List.append_nil] at read
    exact read.token (by rw [seen]; rfl)

theorem reads_blank (skipped : Blank tokens rest) : Reads module function tokens rest [] := by
  cases skipped with
  | newLine seen => exact Reads.nothing.token (by rw [seen]; rfl)
  | comment opened closed =>
    refine Reads.token (by rw [opened]; rfl) ?_
    exact Reads.nothing.token (by rw [closed]; rfl)

theorem reads_newLines (skipped : NewLines tokens rest) : Reads module function tokens rest [] := by
  induction skipped with
  | done => exact .nothing
  | newLine seen _ ih => exact ih.token (by rw [seen]; rfl)

theorem reads_item {depth inner : Nat} {item : BodyItem}
    (read : Item depth tokens rest item inner) :
    Reads module function tokens rest (item.statement.action.lookups function) := by
  cases read with
  | plain line => exact reads_line module function line
  | deferred seen called => exact (reads_call module function called).token (by rw [seen]; rfl)

theorem reads_body {depth : Nat} {items : List BodyItem} (body : Body depth tokens rest items) :
    Reads module function tokens rest
      (items.flatMap fun item => item.statement.action.lookups function) := by
  induction body with
  | close seen => exact Reads.nothing.token (by rw [seen]; rfl)
  | blank skipped _ ih => exact (reads_blank module function skipped).trans ih
  | item first _ ih => exact (reads_item module function first).trans ih

end Shapes

/-! ### Functions -/

section Functions

variable {module function : Option String} {tokens rest : List Token}

structure Surroundings.Listing (around : Surroundings) (function : Option String) : Prop where
  inside : around.function = function
  among : around.inParameters = true
  unnamed : around.lastIs .fnWord = false

theorem Surroundings.Listing.past {around : Surroundings} {token : Token}
    (listing : around.Listing function) (module : Option String)
    (kept : token.kind = .newLine ∨ token.kind = .comma ∨ token.kind = .identifier) :
    (around.past module token).Listing function := by
  constructor
  · simp [Surroundings.past, listing.unnamed, listing.inside]
  · rcases kept with seen | seen | seen <;> simp [Surroundings.past, seen, listing.among]
  · rw [lastIs_past]
    rcases kept with seen | seen | seen <;> simp [seen]

theorem Surroundings.Listing.lookups_cons {around : Surroundings}
    (listing : around.Listing function) (token : Token) (rest : List Token) :
    lookups module around (token :: rest) = lookups module (around.past module token) rest := by
  have declares : around.declares (rest.head?.map Token.kind) = true := by
    simp [Surroundings.declares, listing.among]
  rw [StackLang.lookups_cons, if_neg (fun both => both.2 declares), List.nil_append]

variable (module)

theorem lookups_parameters {around : Surroundings} {names : List String}
    (taken : Parameters tokens rest names) (listing : around.Listing function) :
    ∃ after : Surroundings, after.Calm function ∧
      lookups module around tokens = lookups module after rest := by
  induction taken generalizing around with
  | @close token rest seen =>
    refine ⟨around.past module token, ⟨⟨?_, ?_⟩, ?_⟩, listing.lookups_cons token rest⟩
    · simp [Surroundings.past, seen, listing.inside]
    · simp [Surroundings.past, seen]
    · rintro _ ⟨⟩
      rw [seen]
      rfl
  | blank seen _ ih =>
    obtain ⟨after, calm, others⟩ := ih (listing.past module (seen.imp_right .inl))
    exact ⟨after, calm, by rw [listing.lookups_cons, others]⟩
  | name seen _ ih =>
    obtain ⟨after, calm, others⟩ := ih (listing.past module (.inr (.inr seen)))
    exact ⟨after, calm, by rw [listing.lookups_cons, others]⟩

/-- Behind its opening parenthesis a function lists its parameters. -/
theorem lookups_fn (around : Surroundings) (rest : List Token) {word name opening : Token}
    (seen : word.kind = .fnWord) (named : name.kind = .identifier)
    (opened : opening.kind = .leftParen) :
    ∃ after : Surroundings, after.Listing (some (qualify module name.literal)) ∧
      lookups module around (word :: name :: opening :: rest) = lookups module after rest := by
  have announced : (around.past module word).lastIs .fnWord = true := by
    simp [Surroundings.lastIs_past, seen]
  have declares : (around.past module word).declares
      ((opening :: rest).head?.map Token.kind) = true := by
    simp [Surroundings.declares, announced]
  refine ⟨((around.past module word).past module name).past module opening, ⟨?_, ?_, ?_⟩, ?_⟩
  · simp [Surroundings.past, named, opened, Surroundings.lastIs, seen]
  · simp [Surroundings.past, opened, seen]
  · rw [Surroundings.lastIs_past, opened]
    rfl
  · rw [lookups_cons, if_neg (by simp [seen]), lookups_cons, if_neg (fun both => both.2 declares),
      lookups_cons, if_neg (by simp [opened])]
    rfl

/-- A declaration at the top of a file leads from calm surroundings to calm ones, and what its
functions refer to is what is found on the way. -/
theorem lookups_declaration {around : Surroundings} {statements : List Statement}
    (declared : Grammar.Declaration tokens rest statements) (calm : around.Calm function) :
    ∃ (after : Surroundings) (inside : Option String) (found : List Lookup), after.Calm inside ∧
      lookups module around tokens = found ++ lookups module after rest ∧
      ∀ lookup, lookup ∈ found ↔
        ∃ function ∈ functionsOf statements, lookup ∈ function.lookups module := by
  have empty (read : Reads module function tokens rest [])
      (functionless : functionsOf statements = []) :
      ∃ (after : Surroundings) (inside : Option String) (found : List Lookup), after.Calm inside ∧
        lookups module around tokens = found ++ lookups module after rest ∧
        ∀ lookup, lookup ∈ found ↔
          ∃ function ∈ functionsOf statements, lookup ∈ function.lookups module := by
    obtain ⟨after, settled, seen⟩ := read around calm
    exact ⟨after, function, [], settled, seen, by simp [functionless]⟩
  cases declared with
  | blank skipped => exact empty (reads_blank module function skipped) rfl
  | use seen found =>
    refine empty (Reads.token (by rw [seen]; rfl) ?_) rfl
    exact Reads.nothing.token (by rw [found]; rfl)
  | constant seen named valued =>
    refine empty (Reads.declared (.inl seen) named ?_) rfl
    exact Reads.nothing.token (by rw [valued]; rfl)
  | inlineC seen => exact empty (Reads.nothing.token (by rw [seen]; rfl)) rfl
  | @function word name opening brace atNames behindNames inside _ names items _ _ seen named opened
      taken skipped entered body =>
    obtain ⟨listed, listing, front⟩ := lookups_fn module around atNames seen named opened
    obtain ⟨begun, calmed, behind⟩ := lookups_parameters module taken listing
    have read := reads_body module (some (qualify module name.literal)) body
    obtain ⟨after, settled, found⟩ :=
      ((reads_newLines module _ skipped).trans (read.token (by rw [entered]; rfl))) begun calmed
    refine ⟨after, _, _, settled, by rw [front, behind, found], ?_⟩
    intro lookup
    simp [functionsOf, Function.lookups, mem_replay]

/-- Whatever a function of a file refers to, the tokens of the file refer to. -/
theorem lookups_of_file {around : Surroundings} {statements : List Statement}
    (file : File tokens statements) (calm : around.Calm function) :
    ∀ function ∈ functionsOf statements,
      function.lookups module ⊆ lookups module around tokens := by
  induction file generalizing around function with
  | done => simp [functionsOf]
  | declaration first _ ih =>
    obtain ⟨after, _, found, settled, read, covered⟩ := lookups_declaration module first calm
    intro function member lookup here
    rw [first.functionsOf_append] at member
    rw [read]
    rcases List.mem_append.mp member with among | later
    · exact List.mem_append_left _ ((covered lookup).mpr ⟨function, among, here⟩)
    · exact List.mem_append_right _ (ih settled function later here)

end Functions

end StackLang
