import StackLang.Proofs.References

/-! Whatever has the shape of a file is parsed. A shape of the grammar drives the step that reads it
to the tokens behind the shape; where a name could be read on, the tokens behind it start with no
colon. -/
namespace StackLang.Parser

open Grammar

/-- A step succeeds at a cursor, and something holds of its value and of the cursor behind it. -/
def Accepts {α : Type} (step : Parser α) (cursor : Cursor) (post : α → Cursor → Prop) : Prop :=
  ∃ value behind, step cursor = (.ok value, behind) ∧ post value behind

section Steps

variable {α β : Type} {cursor : Cursor} {kind : TokenKind} {token : Token}
  {tokens rest : List Token}

theorem Accepts.bind {step : Parser α} {next : α → Parser β} {middle : α → Cursor → Prop}
    {post : β → Cursor → Prop} (first : Accepts step cursor middle)
    (second : ∀ value behind, middle value behind → Accepts (next value) behind post) :
    Accepts (step >>= next) cursor post := by
  obtain ⟨found, between, stepped, holds⟩ := first
  obtain ⟨value, behind, followed, done⟩ := second found between holds
  refine ⟨value, behind, ?_, done⟩
  rw [bind_apply, stepped]
  exact followed

theorem Accepts.imp {step : Parser α} {first second : α → Cursor → Prop}
    (accepted : Accepts step cursor first)
    (weaker : ∀ value behind, first value behind → second value behind) :
    Accepts step cursor second := by
  obtain ⟨value, behind, stepped, holds⟩ := accepted
  exact ⟨value, behind, stepped, weaker value behind holds⟩

theorem accepts_pure {value : α} {post : α → Cursor → Prop} (holds : post value cursor) :
    Accepts (pure value) cursor post :=
  ⟨value, cursor, rfl, holds⟩

theorem accepts_cursor : Accepts Parser.cursor cursor fun _ behind => behind = cursor :=
  ⟨cursor, cursor, rfl, rfl⟩

theorem current_of_rest (read : cursor.rest = token :: rest) : cursor.current = token := by
  simp [Cursor.current, read]

theorem moved_of_rest (read : cursor.rest = token :: rest) : cursor.moved.rest = rest := by
  simp [Cursor.moved, read]

theorem sees_of_rest (read : cursor.rest = token :: rest) (kind : TokenKind) :
    cursor.sees kind = (token.kind == kind) := by
  rw [Cursor.sees, current_of_rest read]

theorem accepts_bump (read : cursor.rest = token :: rest) :
    Accepts bump cursor fun found behind => found = token ∧ behind.rest = rest :=
  ⟨_, _, rfl, current_of_rest read, moved_of_rest read⟩

theorem accepts_expect {complaint : Complaint} (read : cursor.rest = token :: rest)
    (seen : token.kind = kind) :
    Accepts (expect kind complaint) cursor fun found behind =>
      found = token ∧ behind.rest = rest := by
  have here : cursor.sees kind = true := by simp [sees_of_rest read, seen]
  refine ⟨cursor.current, cursor.moved, ?_, current_of_rest read, moved_of_rest read⟩
  rw [expect, if_pos here]

theorem accepts_skip (read : cursor.rest = token :: rest) (seen : token.kind = kind) :
    Accepts (skip kind) cursor fun found behind => found = true ∧ behind.rest = rest := by
  have here : cursor.sees kind = true := by simp [sees_of_rest read, seen]
  refine ⟨true, cursor.moved, ?_, rfl, moved_of_rest read⟩
  rw [skip, if_pos here]

theorem accepts_skip_other (unseen : cursor.sees kind = false) :
    Accepts (skip kind) cursor fun found behind => found = false ∧ behind = cursor := by
  refine ⟨false, cursor, ?_, rfl, rfl⟩
  rw [skip, unseen]
  rfl

theorem atTerminator_of_lineEnd (ended : LineEnd cursor.rest rest) :
    cursor.atTerminator = true := by
  generalize read : cursor.rest = tokens at ended
  cases ended with
  | newLine seen => simp [Cursor.atTerminator, sees_of_rest read, seen]
  | brace seen => simp [Cursor.atTerminator, sees_of_rest read, seen]

theorem accepts_skip_newLine (ended : LineEnd cursor.rest rest) :
    Accepts (skip .newLine) cursor fun _ behind => behind.rest = rest := by
  generalize read : cursor.rest = tokens at ended
  cases ended with
  | newLine seen =>
    exact (accepts_skip read seen).imp fun _ _ holds => holds.2
  | brace seen =>
    have unseen : cursor.sees .newLine = false := by simp [sees_of_rest read, seen]
    exact (accepts_skip_other unseen).imp fun _ _ ⟨_, stayed⟩ => by rw [stayed, read]

/-- The end of a line is read as a line end is skipped, if there is one. -/
theorem accepts_endLine (what : String) (ended : LineEnd cursor.rest rest) :
    Accepts (endLine what) cursor fun _ behind => behind.rest = rest := by
  obtain ⟨found, behind, skipped, left⟩ := accepts_skip_newLine ended
  refine ⟨(), behind, ?_, left⟩
  have terminated := atTerminator_of_lineEnd ended
  unfold skip at skipped
  unfold endLine
  rw [if_pos terminated]
  split at skipped
  · next seen => cases skipped; rw [if_pos seen]
  · next unseen => cases skipped; rw [if_neg unseen]

theorem accepts_comment {opening closing : Token} (read : cursor.rest = opening :: closing :: rest)
    (closed : closing.kind = .commentEnd) :
    Accepts comment cursor fun _ behind => behind.rest = rest := by
  refine (accepts_bump read).bind fun start middle ⟨_, left⟩ => ?_
  refine (accepts_skip left closed).bind fun found behind ⟨skipped, last⟩ => ?_
  rw [skipped]
  exact accepts_pure last

end Steps

section Calls

variable {cursor : Cursor} {looped : Bool} {tokens rest : List Token}

theorem sees_doubleColon_of_plain (plain : Plain cursor.rest) :
    cursor.sees .doubleColon = false := by
  cases read : cursor.rest with
  | nil => simp [Cursor.sees, Cursor.current, Cursor.sentinel, read]
  | cons token rest =>
    have other := (plain token (by rw [read]; rfl)).2
    simpa [sees_of_rest read] using other

theorem accepts_qualified {first : Token} {module : Option String} {name : String}
    (spelled : Name (first :: tokens) rest module name) (plain : Plain rest)
    (read : cursor.rest = tokens) :
    Accepts (qualified first) cursor fun found behind =>
      found = (module, name) ∧ behind.rest = rest := by
  cases spelled with
  | plain =>
    rw [← read] at plain
    refine (accepts_skip_other (sees_doubleColon_of_plain plain)).bind ?_
    rintro _ behind ⟨rfl, rfl⟩
    exact accepts_pure ⟨rfl, read⟩
  | qualified _ separated seen =>
    refine (accepts_skip read separated).bind ?_
    rintro _ middle ⟨rfl, left⟩
    refine (accepts_expect left seen).bind fun word behind ⟨named, last⟩ => ?_
    rw [named]
    exact accepts_pure ⟨rfl, last⟩

theorem name_starts {module : Option String} {name : String}
    (spelled : Name tokens rest module name) :
    ∃ first behind, tokens = first :: behind ∧ first.kind = .identifier := by
  cases spelled with
  | plain seen => exact ⟨_, _, rfl, seen⟩
  | qualified qualifier => exact ⟨_, _, rfl, qualifier⟩

theorem accepts_argument {given : Argument} (operand : Operand looped tokens rest given)
    (plain : Plain rest) (read : cursor.rest = tokens) :
    Accepts (argument looped) cursor fun found behind =>
      found = given ∧ behind.rest = rest := by
  change Accepts (argumentOf looped cursor.current) cursor _
  unfold argumentOf
  cases operand with
  | number seen =>
    rw [current_of_rest read, seen]
    refine (accepts_bump read).bind fun token behind ⟨same, left⟩ => ?_
    exact accepts_pure ⟨by rw [same], left⟩
  | string seen =>
    rw [current_of_rest read, seen]
    refine (accepts_bump read).bind fun token behind ⟨same, left⟩ => ?_
    exact accepts_pure ⟨by rw [same], left⟩
  | named spelled =>
    obtain ⟨first, behind, rfl, seen⟩ := name_starts spelled
    rw [current_of_rest read, seen]
    refine (accepts_bump read).bind fun word middle ⟨same, left⟩ => ?_
    rw [same]
    refine (accepts_qualified spelled plain left).bind fun found behind ⟨names, last⟩ => ?_
    rw [names]
    exact accepts_pure ⟨rfl, last⟩
  | address marked seen =>
    rw [current_of_rest read, marked]
    refine (accepts_bump read).bind fun mark middle ⟨_, left⟩ => ?_
    refine (accepts_expect left seen).bind fun word behind ⟨same, last⟩ => ?_
    exact accepts_pure ⟨by rw [same], last⟩
  | iterator seen inside =>
    rw [current_of_rest read, seen]
    dsimp only
    rw [if_pos inside]
    refine (accepts_bump read).bind fun token behind ⟨_, left⟩ => ?_
    exact accepts_pure ⟨rfl, left⟩

theorem arguments_cons {middle finished : Cursor} {found : Option Argument} {more : List Argument}
    (going : cursor.atTerminator = false) (stepped : argumentItem looped cursor = (.ok found, middle))
    (followed : arguments looped middle = (.ok more, finished)) :
    arguments looped cursor = (.ok (found.toList ++ more), finished) := by
  rw [arguments]
  simp only [going, Bool.false_eq_true, if_false]
  split
  · next failed => rw [stepped] at failed; cases failed
  · next same =>
    rw [stepped] at same
    cases same
    rw [followed]

/-- A token that starts an operand, or stands between operands, ends no line. -/
theorem atTerminator_of_kind {token : Token} (read : cursor.rest = token :: rest)
    (noLine : token.kind ≠ .newLine) (noBrace : token.kind ≠ .rightBrace)
    (noEnd : token.kind ≠ .endOfInput) : cursor.atTerminator = false := by
  simp [Cursor.atTerminator, sees_of_rest read, noLine, noBrace, noEnd]

theorem atTerminator_of_operand {given : Argument} (operand : Operand looped tokens rest given)
    (read : cursor.rest = tokens) : cursor.atTerminator = false := by
  cases operand with
  | named spelled =>
    obtain ⟨first, behind, rfl, seen⟩ := name_starts spelled
    apply atTerminator_of_kind read <;> simp [seen]
  | number seen | string seen | address seen | iterator seen =>
    apply atTerminator_of_kind read <;> simp [seen]

theorem argumentItem_operand {given : Argument} (operand : Operand looped tokens rest given)
    (plain : Plain rest) (read : cursor.rest = tokens) :
    Accepts (argumentItem looped) cursor fun found behind =>
      found = some given ∧ behind.rest = rest := by
  have other : argumentItem looped cursor =
      (do let found ← argument looped; pure (some found) : Parser (Option Argument)) cursor := by
    unfold argumentItem argumentItemOf
    cases operand with
    | named spelled =>
      obtain ⟨first, behind, rfl, seen⟩ := name_starts spelled
      rw [current_of_rest read, seen]
    | number seen | string seen | address seen | iterator seen =>
      rw [current_of_rest read, seen]
  have accepted : Accepts (do let found ← argument looped; pure (some found)) cursor
      fun found behind => found = some given ∧ behind.rest = rest := by
    refine (accepts_argument operand plain read).bind fun found behind ⟨same, left⟩ => ?_
    exact accepts_pure ⟨by rw [same], left⟩
  obtain ⟨value, behind, stepped, holds⟩ := accepted
  exact ⟨value, behind, other.trans stepped, holds⟩

theorem accepts_arguments {behind : List Token} {given : List Argument}
    (operands : Operands looped tokens behind given) (ended : LineEnd behind rest)
    (read : cursor.rest = tokens) :
    Accepts (arguments looped) cursor fun _ finished => finished.rest = behind := by
  have plain := plain_of_lineEnd ended
  induction operands generalizing cursor with
  | done =>
    have terminated : cursor.atTerminator = true := atTerminator_of_lineEnd (read ▸ ended)
    refine ⟨[], cursor, ?_, read⟩
    rw [arguments, if_pos terminated]
  | comma seen _ ih =>
    have going : cursor.atTerminator = false := by
      apply atTerminator_of_kind read <;> simp [seen]
    have stepped : argumentItem looped cursor = (.ok none, cursor.moved) := by
      unfold argumentItem argumentItemOf
      rw [current_of_rest read, seen]
      rfl
    obtain ⟨more, finished, followed, left⟩ := ih ended (moved_of_rest read) plain
    exact ⟨_, finished, arguments_cons going stepped followed, left⟩
  | comment opened closed _ ih =>
    have going : cursor.atTerminator = false := by
      apply atTerminator_of_kind read <;> simp [opened]
    obtain ⟨_, middle, skipped, left⟩ := accepts_comment read closed
    have stepped : argumentItem looped cursor = (.ok none, middle) := by
      unfold argumentItem argumentItemOf
      rw [current_of_rest read, opened]
      simp only [bind_apply, skipped]
      rfl
    obtain ⟨more, finished, followed, last⟩ := ih ended left plain
    exact ⟨_, finished, arguments_cons going stepped followed, last⟩
  | operand first more ih =>
    have going := atTerminator_of_operand first read
    have unmarked := plain_of_operands more plain
    obtain ⟨found, middle, stepped, _, left⟩ := argumentItem_operand first unmarked read
    obtain ⟨others, finished, followed, last⟩ := ih ended left plain
    exact ⟨_, finished, arguments_cons going stepped followed, last⟩

theorem accepts_call {action : Action} (called : Call looped tokens rest action)
    (read : cursor.rest = tokens) :
    Accepts (call looped) cursor fun _ behind => behind.rest = rest := by
  obtain ⟨spelled, operands, ended⟩ := called
  obtain ⟨first, behind, rfl, _⟩ := name_starts spelled
  have plain := plain_of_operands operands (plain_of_lineEnd ended)
  refine (accepts_bump read).bind fun word atName ⟨same, left⟩ => ?_
  rw [same]
  refine (accepts_qualified spelled plain left).bind fun names atOperands ⟨_, left⟩ => ?_
  refine (accepts_arguments operands ended left).bind fun given atEnd left => ?_
  refine accepts_cursor.bind fun _ here stayed => ?_
  subst stayed
  refine (accepts_skip_newLine (left ▸ ended)).bind fun _ finished last => ?_
  exact accepts_pure last

theorem accepts_bound {given : Argument} (bounded : Bound looped tokens rest given)
    (plain : Plain rest) (read : cursor.rest = tokens) :
    Accepts (bound looped) cursor fun _ behind => behind.rest = rest := by
  obtain ⟨operand, numeric⟩ := bounded
  have going := atTerminator_of_operand operand read
  obtain ⟨found, behind, stepped, rfl, left⟩ := accepts_argument operand plain read
  refine ⟨found, behind, ?_, left⟩
  rw [bound, going]
  simp only [Bool.false_eq_true, if_false, bind_apply, stepped]
  cases found with
  | string => cases numeric
  | address => cases numeric
  | number | named | iterator => rfl

end Calls

section Bodies

variable {cursor : Cursor} {depth inner : Nat} {tokens rest : List Token}

/-- A step through a body has read an item, with so many loops open behind it. -/
def ReadsItem (inner : Nat) (rest : List Token) (step : BodyStep) (behind : Cursor) : Prop :=
  ∃ item, step = .item item inner ∧ behind.rest = rest

theorem accepts_flat {step : Parser Statement}
    (accepted : Accepts step cursor fun _ behind => behind.rest = rest) :
    Accepts (flat depth step) cursor (ReadsItem depth rest) := by
  refine accepted.bind fun statement behind left => ?_
  exact accepts_pure ⟨_, rfl, left⟩

theorem accepts_nested {step : Parser Nested}
    (accepted : Accepts step cursor fun found behind => found.2 = inner ∧ behind.rest = rest) :
    Accepts (nested step) cursor (ReadsItem inner rest) := by
  refine accepted.bind fun found behind ⟨counted, left⟩ => ?_
  exact accepts_pure ⟨.plain found.1, by rw [← counted], left⟩

theorem accepts_word {α : Type} (what : Token → String) (value : Token → α) {word : Token}
    {behind : List Token} (read : cursor.rest = word :: behind) (ended : LineEnd behind rest) :
    Accepts (do
      let token ← bump
      endLine (what token)
      pure (value token)) cursor fun found finished =>
        found = value word ∧ finished.rest = rest := by
  refine (accepts_bump read).bind fun token middle ⟨same, left⟩ => ?_
  refine (accepts_endLine _ (left ▸ ended)).bind fun _ finished last => ?_
  exact accepts_pure ⟨by rw [same], last⟩

theorem accepts_countedLoop {word : Token} {atStart atStep atStop behind : List Token}
    {start step stop : Argument} (started : Bound (0 < depth) atStart atStep start)
    (stepped : Bound (0 < depth) atStep atStop step)
    (stopped : Bound (0 < depth) atStop behind stop) (ended : LineEnd behind rest)
    (read : cursor.rest = word :: atStart) :
    Accepts (countedLoop depth) cursor fun found finished =>
      found.2 = depth + 1 ∧ finished.rest = rest := by
  have third := plain_of_lineEnd ended
  have second := plain_of_operand stopped.operand
  have first := plain_of_operand stepped.operand
  refine (accepts_bump read).bind fun _ _ ⟨_, left⟩ => ?_
  refine (accepts_bound started first left).bind fun _ _ left => ?_
  refine (accepts_bound stepped second left).bind fun _ _ left => ?_
  refine (accepts_bound stopped third left).bind fun _ here left => ?_
  refine accepts_cursor.bind fun _ stayed same => ?_
  subst same
  refine (accepts_endLine _ (left ▸ ended)).bind fun _ finished last => ?_
  exact accepts_pure ⟨rfl, last⟩

theorem accepts_label {word colon : Token} {behind : List Token}
    (free : word.literal ∉ reservedLabels) (ended : LineEnd behind rest)
    (read : cursor.rest = word :: colon :: behind) :
    Accepts label cursor fun _ finished => finished.rest = rest := by
  have unreserved : reservedLabels.contains cursor.current.literal = false := by
    rw [current_of_rest read]
    simpa using free
  unfold label Accepts
  simp only [unreserved, Bool.false_eq_true, if_false]
  refine (accepts_bump read).bind fun _ _ ⟨_, left⟩ => ?_
  refine (accepts_bump left).bind fun _ here ⟨_, left⟩ => ?_
  refine accepts_cursor.bind fun _ stayed same => ?_
  subst same
  refine (accepts_endLine _ (left ▸ ended)).bind fun _ finished last => ?_
  exact accepts_pure last

theorem accepts_jump {word target : Token} {which : Jump} {behind : List Token}
    (seen : word.kind = .jump which) (aimed : target.kind = .identifier)
    (ended : LineEnd behind rest) (read : cursor.rest = word :: target :: behind) :
    Accepts jump cursor fun _ finished => finished.rest = rest := by
  refine (accepts_bump read).bind fun token _ ⟨same, left⟩ => ?_
  unfold jumpFrom
  rw [same, seen]
  refine (accepts_expect left aimed).bind fun _ _ ⟨_, left⟩ => ?_
  refine (accepts_endLine _ (left ▸ ended)).bind fun _ finished last => ?_
  exact accepts_pure last

theorem accepts_takeLocal {word name : Token} {behind : List Token}
    (named : name.kind = .identifier) (ended : LineEnd behind rest)
    (read : cursor.rest = word :: name :: behind) :
    Accepts takeLocal cursor fun _ finished => finished.rest = rest := by
  refine (accepts_bump read).bind fun _ _ ⟨_, left⟩ => ?_
  refine (accepts_expect left named).bind fun _ _ ⟨_, left⟩ => ?_
  refine (accepts_endLine _ (left ▸ ended)).bind fun _ finished last => ?_
  exact accepts_pure last

theorem accepts_reduce {word name : Token} {reduction : Reduction} {behind : List Token}
    (named : name.kind = .identifier) (chosen : Reduction.ofName? name.literal = some reduction)
    (ended : LineEnd behind rest) (read : cursor.rest = word :: name :: behind) :
    Accepts reduce cursor fun _ finished => finished.rest = rest := by
  refine (accepts_bump read).bind fun _ _ ⟨_, left⟩ => ?_
  refine (accepts_expect left named).bind fun _ _ ⟨same, left⟩ => ?_
  unfold reduceFrom
  rw [same, chosen]
  refine (accepts_endLine _ (left ▸ ended)).bind fun _ finished last => ?_
  exact accepts_pure last

theorem accepts_loopExit {word : Token} {behind : List Token} (inside : 0 < depth)
    (ended : LineEnd behind rest) (read : cursor.rest = word :: behind) :
    Accepts (loopExit depth) cursor fun _ finished => finished.rest = rest := by
  unfold loopExit Accepts
  simp only [Nat.ne_of_gt inside, if_false]
  exact (accepts_word _ _ read ended).imp fun _ _ holds => holds.2

/-- Behind the first word of a call there is no colon, so the word is no label. -/
theorem ahead_of_call {looped : Bool} {action : Action} (called : Call looped tokens rest action)
    (read : cursor.rest = tokens) : (cursor.ahead 1).kind ≠ .colon := by
  obtain ⟨spelled, operands, ended⟩ := called
  have plain := plain_of_operands operands (plain_of_lineEnd ended)
  cases spelled with
  | plain =>
    rw [Cursor.ahead, read, List.getElem?_cons_succ, ← List.head?_eq_getElem?]
    cases first : List.head? _ with
    | none => simp [Cursor.sentinel]
    | some token => exact (plain token first).1
  | qualified _ separated => simp [Cursor.ahead, read, separated]

/-- A statement of the grammar is read as one step through a body. -/
theorem accepts_line {action : Action} (line : Line depth tokens rest action inner)
    (read : cursor.rest = tokens) : Accepts (bodyStep depth) cursor (ReadsItem inner rest) := by
  change Accepts (bodyStepOf depth cursor.current (cursor.ahead 1)) cursor _
  unfold bodyStepOf
  cases line with
  | call called =>
    have unmarked := ahead_of_call called read
    have accepted := accepts_call called read
    obtain ⟨spelled, _, _⟩ := called
    obtain ⟨first, behind, rfl, seen⟩ := name_starts spelled
    rw [current_of_rest read, seen]
    dsimp only
    rw [if_neg unmarked]
    exact accepts_flat accepted
  | inlineC seen =>
    rw [current_of_rest read, seen]
    exact accepts_flat ((accepts_bump read).bind fun _ behind found => accepts_pure found.2)
  | label seen marked free ended =>
    have coloned : (cursor.ahead 1).kind = .colon := by simp [Cursor.ahead, read, marked]
    rw [current_of_rest read, seen]
    dsimp only
    rw [if_pos coloned]
    exact accepts_flat (accepts_label free ended read)
  | jump seen aimed ended =>
    rw [current_of_rest read, seen]
    exact accepts_flat (accepts_jump seen aimed ended read)
  | takeLocal seen named ended =>
    rw [current_of_rest read, seen]
    exact accepts_flat (accepts_takeLocal named ended read)
  | reduce seen named chosen ended =>
    rw [current_of_rest read, seen]
    exact accepts_flat (accepts_reduce named chosen ended read)
  | leave seen ended =>
    rw [current_of_rest read, seen]
    exact accepts_flat ((accepts_word _ _ read ended).imp fun _ _ holds => holds.2)
  | pushIterator seen inside ended =>
    rw [current_of_rest read, seen]
    cases depth with
    | zero => cases inside
    | succ outer =>
      exact accepts_flat ((accepts_word _ _ read ended).imp fun _ _ holds => holds.2)
  | breakLoop seen inside ended =>
    rw [current_of_rest read, seen]
    exact accepts_flat (accepts_loopExit inside ended read)
  | continueLoop seen inside ended =>
    rw [current_of_rest read, seen]
    exact accepts_flat (accepts_loopExit inside ended read)
  | countedLoop seen started stepped stopped ended =>
    rw [current_of_rest read, seen]
    exact accepts_nested (accepts_countedLoop started stepped stopped ended read)
  | endlessLoop seen ended =>
    rw [current_of_rest read, seen]
    exact accepts_nested ((accepts_word _ _ read ended).imp fun _ _ found =>
      ⟨by rw [found.1], found.2⟩)
  | endLoop seen ended =>
    rw [current_of_rest read, seen]
    exact accepts_nested ((accepts_word _ _ read ended).imp fun _ _ found =>
      ⟨by rw [found.1], found.2⟩)

theorem accepts_deferFrom {action : Action} (word : Token) (called : Call false tokens rest action)
    (read : cursor.rest = tokens) :
    Accepts (deferFrom word) cursor fun _ behind => behind.rest = rest := by
  have accepted := accepts_call called read
  obtain ⟨spelled, _, _⟩ := called
  obtain ⟨first, behind, rfl, seen⟩ := name_starts spelled
  have here : cursor.sees .identifier = true := by simp [sees_of_rest read, seen]
  unfold deferFrom Accepts
  simp only [here, if_true]
  exact accepted.bind fun _ _ left => accepts_pure left

theorem accepts_item {item : BodyItem} (found : Item depth tokens rest item inner)
    (read : cursor.rest = tokens) : Accepts (bodyStep depth) cursor (ReadsItem inner rest) := by
  cases found with
  | plain line => exact accepts_line line read
  | deferred seen called =>
    change Accepts (bodyStepOf depth cursor.current (cursor.ahead 1)) cursor _
    unfold bodyStepOf
    rw [current_of_rest read, seen]
    refine (accepts_bump read).bind fun word middle ⟨_, left⟩ => ?_
    refine (accepts_deferFrom word called left).bind fun _ behind last => ?_
    exact accepts_pure ⟨_, rfl, last⟩

theorem accepts_blank (skipped : Blank tokens rest) (read : cursor.rest = tokens) :
    Accepts (bodyStep depth) cursor fun step behind => step = .blank ∧ behind.rest = rest := by
  change Accepts (bodyStepOf depth cursor.current (cursor.ahead 1)) cursor _
  unfold bodyStepOf
  cases skipped with
  | newLine seen =>
    rw [current_of_rest read, seen]
    exact (accepts_bump read).bind fun _ _ ⟨_, left⟩ => accepts_pure ⟨rfl, left⟩
  | comment opened closed =>
    rw [current_of_rest read, opened]
    exact (accepts_comment read closed).bind fun _ _ left => accepts_pure ⟨rfl, left⟩

theorem accepts_close {brace : Token} (seen : brace.kind = .rightBrace)
    (read : cursor.rest = brace :: rest) :
    Accepts (bodyStep 0) cursor fun step behind => step = .closed ∧ behind.rest = rest := by
  change Accepts (bodyStepOf 0 cursor.current (cursor.ahead 1)) cursor _
  unfold bodyStepOf
  rw [current_of_rest read, seen]
  exact (accepts_bump read).bind fun _ _ ⟨_, left⟩ => accepts_pure ⟨rfl, left⟩

theorem bodyItems_closed {middle : Cursor} (stepped : bodyStep depth cursor = (.ok .closed, middle)) :
    bodyItems depth cursor = (.ok [], middle) := by
  rw [bodyItems]
  split <;> rename_i same <;> rw [stepped] at same <;> cases same
  rfl

theorem bodyItems_blank {middle : Cursor} (stepped : bodyStep depth cursor = (.ok .blank, middle)) :
    bodyItems depth cursor = bodyItems depth middle := by
  rw [bodyItems]
  split <;> rename_i same <;> rw [stepped] at same <;> cases same
  rfl

theorem bodyItems_item {middle finished : Cursor} {item : BodyItem} {items : List BodyItem}
    (stepped : bodyStep depth cursor = (.ok (.item item inner), middle))
    (followed : bodyItems inner middle = (.ok items, finished)) :
    bodyItems depth cursor = (.ok (item :: items), finished) := by
  rw [bodyItems]
  split <;> rename_i same <;> rw [stepped] at same <;> cases same
  rw [followed]

theorem accepts_bodyItems {items : List BodyItem} (body : Body depth tokens rest items)
    (read : cursor.rest = tokens) :
    Accepts (bodyItems depth) cursor fun _ behind => behind.rest = rest := by
  induction body generalizing cursor with
  | close seen =>
    obtain ⟨_, middle, stepped, rfl, left⟩ := accepts_close seen read
    exact ⟨[], middle, bodyItems_closed stepped, left⟩
  | blank skipped _ ih =>
    obtain ⟨_, middle, stepped, rfl, left⟩ := accepts_blank skipped read
    obtain ⟨found, behind, followed, last⟩ := ih left
    exact ⟨found, behind, (bodyItems_blank stepped).trans followed, last⟩
  | item first _ ih =>
    obtain ⟨_, middle, stepped, item, rfl, left⟩ := accepts_item first read
    obtain ⟨found, behind, followed, last⟩ := ih left
    exact ⟨item :: found, behind, bodyItems_item stepped followed, last⟩

end Bodies

section Declarations

variable {cursor : Cursor} {tokens rest : List Token}

theorem parameters_closed {middle : Cursor} (stepped : parameterStep cursor = (.ok .closed, middle)) :
    parameters cursor = (.ok [], middle) := by
  rw [parameters]
  split <;> rename_i same <;> rw [stepped] at same <;> cases same
  rfl

theorem parameters_blank {middle : Cursor} (stepped : parameterStep cursor = (.ok .blank, middle)) :
    parameters cursor = parameters middle := by
  rw [parameters]
  split <;> rename_i same <;> rw [stepped] at same <;> cases same
  rfl

theorem parameters_name {middle finished : Cursor} {text : String} {names : List String}
    (stepped : parameterStep cursor = (.ok (.name text), middle))
    (followed : parameters middle = (.ok names, finished)) :
    parameters cursor = (.ok (text :: names), finished) := by
  rw [parameters]
  split <;> rename_i same <;> rw [stepped] at same <;> cases same
  rw [followed]

theorem accepts_parameters {names : List String} (taken : Parameters tokens rest names)
    (read : cursor.rest = tokens) :
    Accepts parameters cursor fun _ behind => behind.rest = rest := by
  induction taken generalizing cursor with
  | close seen =>
    have stepped : parameterStep cursor = (.ok .closed, cursor.moved) := by
      rw [parameterStep, parameterStepOf, current_of_rest read, seen]
      rfl
    exact ⟨[], _, parameters_closed stepped, moved_of_rest read⟩
  | blank seen _ ih =>
    have stepped : parameterStep cursor = (.ok .blank, cursor.moved) := by
      rcases seen with seen | seen <;>
        · rw [parameterStep, parameterStepOf, current_of_rest read, seen]
          rfl
    obtain ⟨found, behind, followed, left⟩ := ih (moved_of_rest read)
    exact ⟨found, behind, (parameters_blank stepped).trans followed, left⟩
  | @name token _ _ _ seen _ ih =>
    have stepped : parameterStep cursor = (.ok (.name token.literal), cursor.moved) := by
      rw [parameterStep, parameterStepOf, current_of_rest read, seen]
      simp only [bind_apply, bump, current_of_rest read]
      rfl
    obtain ⟨found, behind, followed, left⟩ := ih (moved_of_rest read)
    exact ⟨_, behind, parameters_name stepped followed, left⟩

theorem newLinesFrom_rest {brace : Token} {inside : List Token} (entered : brace.kind ≠ .newLine)
    (skipped : NewLines tokens (brace :: inside)) :
    ∀ cursor, (skipNewLines.newLinesFrom cursor tokens).rest = brace :: inside := by
  generalize behind : brace :: inside = rest at skipped
  induction skipped with
  | done =>
    intro cursor
    rw [← behind, skipNewLines.newLinesFrom, if_neg entered]
  | newLine seen _ ih =>
    intro cursor
    rw [skipNewLines.newLinesFrom, if_pos seen]
    exact ih behind _

theorem accepts_skipNewLines {brace : Token} {inside : List Token}
    (entered : brace.kind = .leftBrace) (skipped : NewLines tokens (brace :: inside))
    (read : cursor.rest = tokens) :
    Accepts skipNewLines cursor fun _ behind => behind.rest = brace :: inside := by
  refine ⟨(), _, rfl, ?_⟩
  rw [read]
  exact newLinesFrom_rest (by simp [entered]) skipped cursor

theorem accepts_openBody {brace : Token} (entered : brace.kind = .leftBrace)
    (read : cursor.rest = brace :: rest) :
    Accepts openBody cursor fun _ behind => behind.rest = rest :=
  (accepts_expect read entered).imp fun _ _ holds => holds.2

theorem accepts_function {word name opening brace : Token}
    {atNames behindNames inside : List Token} {names : List String} {items : List BodyItem}
    (named : name.kind = .identifier) (opened : opening.kind = .leftParen)
    (taken : Parameters atNames behindNames names)
    (skipped : NewLines behindNames (brace :: inside)) (entered : brace.kind = .leftBrace)
    (body : Body 0 inside rest items) (read : cursor.rest = word :: name :: opening :: atNames) :
    Accepts function cursor fun _ behind => behind.rest = rest := by
  refine (accepts_bump read).bind fun _ _ ⟨_, left⟩ => ?_
  refine (accepts_expect left named).bind fun _ _ ⟨_, left⟩ => ?_
  refine (accepts_expect left opened).bind fun _ _ ⟨_, left⟩ => ?_
  refine (accepts_parameters taken left).bind fun _ here left => ?_
  refine accepts_cursor.bind fun _ stayed same => ?_
  subst same
  refine (accepts_skipNewLines entered skipped left).bind fun _ _ left => ?_
  refine (accepts_openBody entered left).bind fun _ _ left => ?_
  have inner : Accepts Parser.body _ fun _ behind => behind.rest = rest :=
    (accepts_bodyItems body left).bind fun _ _ left => accepts_pure left
  refine inner.bind fun _ here left => ?_
  refine accepts_cursor.bind fun _ stayed same => ?_
  subst same
  exact accepts_pure left

theorem accepts_declaration {statements : List Statement}
    (declared : Grammar.Declaration tokens rest statements) (read : cursor.rest = tokens) :
    Accepts declaration cursor fun _ behind => behind.rest = rest := by
  change Accepts (declarationOf cursor.current) cursor _
  unfold declarationOf
  cases declared with
  | blank skipped =>
    cases skipped with
    | newLine seen =>
      rw [current_of_rest read, seen]
      exact (accepts_bump read).bind fun _ _ ⟨_, left⟩ => accepts_pure left
    | comment opened closed =>
      rw [current_of_rest read, opened]
      exact (accepts_comment read closed).bind fun _ _ left => accepts_pure left
  | use seen found =>
    rw [current_of_rest read, seen]
    have used : Accepts use cursor fun _ behind => behind.rest = rest := by
      refine (accepts_bump read).bind fun _ _ ⟨_, left⟩ => ?_
      refine (accepts_expect left found).bind fun _ here ⟨_, left⟩ => ?_
      refine accepts_cursor.bind fun _ stayed same => ?_
      subst same
      exact accepts_pure left
    exact used.bind fun _ _ left => accepts_pure left
  | constant seen named valued =>
    rw [current_of_rest read, seen]
    have defined : Accepts const cursor fun _ behind => behind.rest = rest := by
      refine (accepts_bump read).bind fun _ _ ⟨_, left⟩ => ?_
      refine (accepts_expect left named).bind fun _ _ ⟨_, left⟩ => ?_
      refine (accepts_expect left valued).bind fun _ here ⟨_, left⟩ => ?_
      refine accepts_cursor.bind fun _ stayed same => ?_
      subst same
      exact accepts_pure left
    exact defined.bind fun _ _ left => accepts_pure left
  | inlineC seen =>
    rw [current_of_rest read, seen]
    have copied : Accepts inlineC cursor fun _ behind => behind.rest = rest :=
      (accepts_bump read).bind fun _ _ ⟨_, left⟩ => accepts_pure left
    exact copied.bind fun _ _ left => accepts_pure left
  | function seen named opened taken skipped entered body =>
    rw [current_of_rest read, seen]
    refine (accepts_function named opened taken skipped entered body read).bind fun _ _ left => ?_
    exact accepts_pure left

/-- A declaration does not start where the input ends. -/
theorem atEnd_of_declaration {statements : List Statement}
    (declared : Grammar.Declaration tokens rest statements) (read : cursor.rest = tokens) :
    cursor.atEnd = false := by
  rw [Cursor.atEnd]
  cases declared with
  | blank skipped =>
    cases skipped with
    | newLine seen | comment seen => simp [sees_of_rest read, seen]
  | use seen | constant seen | inlineC seen | function seen => simp [sees_of_rest read, seen]

theorem atEnd_of_finished (finished : Finished cursor.rest) : cursor.atEnd = true := by
  cases read : cursor.rest with
  | nil => simp [Cursor.atEnd, Cursor.sees, Cursor.current, Cursor.sentinel, read]
  | cons token rest =>
    have ended : token.kind = .endOfInput := finished token (by rw [read]; rfl)
    simp [Cursor.atEnd, sees_of_rest read, ended]

theorem topLevel_cons {middle finished : Cursor} {found more : List Statement}
    (going : cursor.atEnd = false) (stepped : declaration cursor = (.ok found, middle))
    (followed : topLevel middle = (.ok more, finished)) :
    topLevel cursor = (.ok (found ++ more), finished) := by
  rw [topLevel]
  simp only [going, Bool.false_eq_true, if_false]
  split
  · next failed => rw [stepped] at failed; cases failed
  · next same =>
    rw [stepped] at same
    cases same
    rw [followed]

theorem accepts_topLevel {statements : List Statement} (file : File tokens statements)
    (read : cursor.rest = tokens) : Accepts topLevel cursor fun _ _ => True := by
  induction file generalizing cursor with
  | done finished =>
    have ended := atEnd_of_finished (read ▸ finished)
    exact ⟨[], cursor, by rw [topLevel, if_pos ended], trivial⟩
  | declaration first _ ih =>
    have going := atEnd_of_declaration first read
    obtain ⟨found, middle, stepped, left⟩ := accepts_declaration first read
    obtain ⟨more, finished, followed, _⟩ := ih left
    exact ⟨_, finished, topLevel_cons going stepped followed, trivial⟩

end Declarations

end StackLang.Parser

namespace StackLang

theorem parse_of_file {path : Path} {tokens : List Token} {statements : List Statement}
    (file : Grammar.File tokens statements) : ∃ tree, SourceTree.parse path tokens = .ok tree := by
  have begun : (Cursor.ofTokens path tokens).rest = tokens := rfl
  obtain ⟨found, behind, read, _⟩ := Parser.accepts_topLevel file begun
  unfold SourceTree.parse
  rw [read]
  exact ⟨_, rfl⟩

end StackLang
