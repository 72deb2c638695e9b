import StackLang.Proofs.Outcome
import StackLang.Proofs.Parsing

/-! An end of input that is missing, and what stands behind one. The parser never passes an end of
input and never looks beyond it, so it does the same at two cursors of which one has an end of input
and further tokens where the other has nothing. One step of the parser after the other keeps them
apart in this way only, whether it succeeds or fails. -/
namespace StackLang

open Text (Span)

/-- A cursor without an end of input, and one that has one behind the same tokens, and anything
behind that. -/
structure Padded (cursor padded : Cursor) : Prop where
  path : padded.path = cursor.path
  last : padded.last = cursor.last
  endless : ∀ token ∈ cursor.rest, token.kind ≠ .endOfInput
  rest : ∃ more, padded.rest = cursor.rest ++ cursor.sentinel :: more

namespace Padded

variable {cursor padded : Cursor} {kind : TokenKind}

theorem current (pair : Padded cursor padded) : padded.current = cursor.current := by
  obtain ⟨more, rest⟩ := pair.rest
  rw [Cursor.current, Cursor.current, rest]
  cases cursor.rest <;> rfl

theorem sees (pair : Padded cursor padded) (kind : TokenKind) :
    padded.sees kind = cursor.sees kind := by
  rw [Cursor.sees, pair.current, Cursor.sees]

theorem atTerminator (pair : Padded cursor padded) :
    padded.atTerminator = cursor.atTerminator := by
  simp only [Cursor.atTerminator, pair.sees]

theorem spanFrom (pair : Padded cursor padded) (start : Span) :
    padded.spanFrom start = cursor.spanFrom start := by
  simp only [Cursor.spanFrom, Cursor.lastSpan, pair.last, pair.current]

theorem complainAt (pair : Padded cursor padded) (complaint : Complaint) (span : Span) :
    padded.complainAt complaint span = cursor.complainAt complaint span := by
  rw [Cursor.complainAt, pair.path, Cursor.complainAt]

theorem complain (pair : Padded cursor padded) (complaint : Complaint) :
    padded.complain complaint = cursor.complain complaint := by
  rw [Cursor.complain, pair.complainAt, pair.current, Cursor.complain]

/-- Both go on behind the same token, unless it is an end of input. -/
theorem moved (pair : Padded cursor padded) (seen : cursor.current.kind = kind)
    (inside : kind ≠ .endOfInput) : Padded cursor.moved padded.moved := by
  obtain ⟨more, rest⟩ := pair.rest
  obtain ⟨token, others, here⟩ :=
    List.exists_cons_of_ne_nil (Parser.rest_ne_nil_of_kind seen inside)
  have endless := pair.endless
  rw [here, List.forall_mem_cons] at endless
  rw [here, List.cons_append] at rest
  have left : cursor.moved = { cursor with last := some token.span, rest := others } := by
    rw [Cursor.moved, here]
  have right : padded.moved = { padded with
      last := some token.span, rest := others ++ cursor.sentinel :: more } := by
    rw [Cursor.moved, rest]
  rw [left, right]
  exact ⟨pair.path, rfl, endless.2, more, rfl⟩

/-- The token behind one that is no end of input is the same for both. -/
theorem ahead (pair : Padded cursor padded) (seen : cursor.current.kind = kind)
    (inside : kind ≠ .endOfInput) : padded.ahead 1 = cursor.ahead 1 := by
  have seen' : padded.current.kind = kind := by rw [pair.current, seen]
  rw [← Parser.current_moved seen inside, ← Parser.current_moved seen' inside]
  exact (pair.moved seen inside).current

end Padded

namespace Parser

/-- A step that does the same at two cursors, and keeps the second one padded. -/
def Agrees {α : Type} (step : Parser α) (cursor padded : Cursor) : Prop :=
  (step padded).1 = (step cursor).1 ∧ Padded (step cursor).2 (step padded).2

section Steps

variable {α β : Type} {cursor padded : Cursor} {kind : TokenKind}

theorem bind_of_ok {step : Parser α} {next : α → Parser β} {behind : Cursor} {value : α}
    (stepped : step cursor = (.ok value, behind)) : (step >>= next) cursor = next value behind := by
  rw [bind_apply, stepped]

theorem bind_of_error {step : Parser α} {next : α → Parser β} {behind : Cursor}
    {error : SyntaxError} (failed : step cursor = (.error error, behind)) :
    (step >>= next) cursor = (.error error, behind) := by
  rw [bind_apply, failed]

theorem Agrees.bind {step : Parser α} {next : α → Parser β} (first : Agrees step cursor padded)
    (second : ∀ value behind behind', step cursor = (.ok value, behind) → Padded behind behind' →
      Agrees (next value) behind behind') : Agrees (step >>= next) cursor padded := by
  obtain ⟨same, pair⟩ := first
  unfold Agrees
  rw [bind_apply, bind_apply]
  generalize step padded = result at same pair
  obtain ⟨outcome', behind'⟩ := result
  cases stepped : step cursor with
  | mk outcome behind =>
    rw [stepped] at same pair
    obtain rfl : outcome' = outcome := same
    cases outcome' with
    | error error => exact ⟨rfl, pair⟩
    | ok value => exact second value behind behind' stepped pair

/-- A step that is another one at both cursors. -/
theorem Agrees.of_eq {step other : Parser α} (agrees : Agrees other cursor padded)
    (here : step cursor = other cursor) (there : step padded = other padded) :
    Agrees step cursor padded := by
  unfold Agrees
  rw [here, there]
  exact agrees

theorem agrees_pure (pair : Padded cursor padded) (value : α) : Agrees (pure value) cursor padded :=
  ⟨rfl, pair⟩

theorem agrees_fail (pair : Padded cursor padded) (complaint : Complaint) :
    Agrees (fail complaint : Parser α) cursor padded :=
  ⟨congrArg Except.error (pair.complain complaint), pair⟩

theorem agrees_failAt (pair : Padded cursor padded) (complaint : Complaint) (span : Span) :
    Agrees (failAt complaint span : Parser α) cursor padded :=
  ⟨congrArg Except.error (pair.complainAt complaint span), pair⟩

/-- Of a cursor a step takes only what both cursors share. -/
theorem agrees_cursor {next : Cursor → Parser α} (same : next padded = next cursor)
    (rest : Agrees (next cursor) cursor padded) :
    Agrees (Parser.cursor >>= next) cursor padded := by
  refine rest.of_eq rfl ?_
  rw [← same]
  rfl

theorem agrees_bump (pair : Padded cursor padded) (seen : cursor.current.kind = kind)
    (inside : kind ≠ .endOfInput) : Agrees bump cursor padded :=
  ⟨congrArg Except.ok pair.current, pair.moved seen inside⟩

theorem agrees_skip (pair : Padded cursor padded) (inside : kind ≠ .endOfInput) :
    Agrees (skip kind) cursor padded := by
  unfold Agrees skip
  rw [pair.sees]
  split
  · next seen => exact ⟨rfl, pair.moved (by simpa [Cursor.sees] using seen) inside⟩
  · exact ⟨rfl, pair⟩

theorem agrees_expect (pair : Padded cursor padded) (inside : kind ≠ .endOfInput)
    (complaint : Complaint) : Agrees (expect kind complaint) cursor padded := by
  unfold Agrees expect
  rw [pair.sees]
  split
  · next seen =>
    exact ⟨congrArg Except.ok pair.current, pair.moved (by simpa [Cursor.sees] using seen) inside⟩
  · exact ⟨congrArg Except.error (pair.complain complaint), pair⟩

theorem agrees_endLine (pair : Padded cursor padded) (what : String) :
    Agrees (endLine what) cursor padded := by
  unfold Agrees endLine
  rw [pair.atTerminator, pair.sees, pair.complain, pair.current]
  split
  · split
    · next seen => exact ⟨rfl, pair.moved (by simpa [Cursor.sees] using seen) (by decide)⟩
    · exact ⟨rfl, pair⟩
  · exact ⟨rfl, pair⟩

theorem padded_newLinesFrom {tokens : List Token}
    (endless : ∀ token ∈ tokens, token.kind ≠ .endOfInput) (cursor padded : Cursor)
    (path : padded.path = cursor.path) (last : padded.last = cursor.last) (more : List Token) :
    Padded (skipNewLines.newLinesFrom cursor tokens)
      (skipNewLines.newLinesFrom padded (tokens ++ cursor.sentinel :: more)) := by
  induction tokens generalizing cursor padded with
  | nil => exact ⟨path, last, List.forall_mem_nil _, more, rfl⟩
  | cons token tokens ih =>
    rw [List.cons_append]
    unfold skipNewLines.newLinesFrom
    split
    · exact ih (List.forall_mem_cons.mp endless).2 { cursor with last := some token.span }
        { padded with last := some token.span } path rfl
    · exact ⟨path, last, endless, more, rfl⟩

theorem agrees_skipNewLines (pair : Padded cursor padded) : Agrees skipNewLines cursor padded := by
  obtain ⟨more, rest⟩ := pair.rest
  refine ⟨rfl, ?_⟩
  change Padded _ (skipNewLines.newLinesFrom padded padded.rest)
  rw [rest]
  exact padded_newLinesFrom pair.endless cursor padded pair.path pair.last more

theorem agrees_comment (pair : Padded cursor padded) (seen : cursor.current.kind = .commentBegin) :
    Agrees comment cursor padded := by
  refine (agrees_bump pair seen (by decide)).bind fun start _ _ _ pair => ?_
  refine (agrees_skip pair (by decide)).bind fun closed _ _ _ pair => ?_
  cases closed with
  | false => exact agrees_failAt pair _ _
  | true => exact agrees_pure pair _

end Steps

section Calls

variable {cursor padded : Cursor}

theorem agrees_qualified (pair : Padded cursor padded) (first : Token) :
    Agrees (qualified first) cursor padded := by
  refine (agrees_skip pair (by decide)).bind fun separated _ _ _ pair => ?_
  cases separated with
  | false => exact agrees_pure pair _
  | true =>
    refine (agrees_expect pair (by decide) _).bind fun name _ _ _ pair => ?_
    exact agrees_pure pair _

theorem agrees_argument (pair : Padded cursor padded) (looped : Bool) :
    Agrees (argument looped) cursor padded := by
  suffices starts : Agrees (argumentOf looped cursor.current) cursor padded by
    refine starts.of_eq rfl ?_
    rw [argument, pair.current]
  unfold argumentOf
  split
  · next seen =>
    exact (agrees_bump pair seen (by decide)).bind fun _ _ _ _ pair => agrees_pure pair _
  · next seen =>
    exact (agrees_bump pair seen (by decide)).bind fun _ _ _ _ pair => agrees_pure pair _
  · next seen =>
    refine (agrees_bump pair seen (by decide)).bind fun first _ _ _ pair => ?_
    exact (agrees_qualified pair first).bind fun _ _ _ _ pair => agrees_pure pair _
  · next seen =>
    refine (agrees_bump pair seen (by decide)).bind fun _ _ _ _ pair => ?_
    exact (agrees_expect pair (by decide) _).bind fun _ _ _ _ pair => agrees_pure pair _
  · next seen =>
    split
    · exact (agrees_bump pair seen (by decide)).bind fun _ _ _ _ pair => agrees_pure pair _
    · exact agrees_fail pair _
  · exact agrees_fail pair _

theorem agrees_argumentItem (pair : Padded cursor padded) (looped : Bool) :
    Agrees (argumentItem looped) cursor padded := by
  suffices starts : Agrees (argumentItemOf looped cursor.current.kind) cursor padded by
    refine starts.of_eq rfl ?_
    rw [argumentItem, pair.current]
  unfold argumentItemOf
  split
  · next seen =>
    exact (agrees_bump pair seen (by decide)).bind fun _ _ _ _ pair => agrees_pure pair _
  · next seen => exact (agrees_comment pair seen).bind fun _ _ _ _ pair => agrees_pure pair _
  · exact (agrees_argument pair looped).bind fun _ _ _ _ pair => agrees_pure pair _

/-- The arguments of a call as steps one behind the other. -/
theorem arguments_eq (looped : Bool) (cursor : Cursor) :
    arguments looped cursor = (if cursor.atTerminator then pure [] else do
      let found ← argumentItem looped
      let more ← arguments looped
      pure (found.toList ++ more) : Parser (List Argument)) cursor := by
  rw [arguments]
  split
  · rfl
  · split
    · next failed => exact (bind_of_error failed).symm
    · next found behind stepped =>
      refine Eq.trans ?_ (bind_of_ok stepped).symm
      split
      · next failed => exact (bind_of_error failed).symm
      · next followed =>
        refine Eq.trans ?_ (bind_of_ok followed).symm
        rfl

theorem agrees_arguments (pair : Padded cursor padded) (looped : Bool) :
    Agrees (arguments looped) cursor padded := by
  induction size : cursor.rest.length using Nat.strongRecOn generalizing cursor padded with
  | _ size shorter =>
    refine Agrees.of_eq ?_ (arguments_eq looped cursor)
      (by rw [arguments_eq, pair.atTerminator])
    split
    · exact agrees_pure pair _
    · refine (agrees_argumentItem pair looped).bind fun found behind _ read pair => ?_
      have fewer := shrinksAt_argumentItem looped cursor found behind read
      refine (shorter _ (size ▸ fewer) pair rfl).bind fun more _ _ _ pair => ?_
      exact agrees_pure pair _

theorem agrees_callFrom (pair : Padded cursor padded) (looped : Bool) (first : Token) :
    Agrees (callFrom looped first) cursor padded := by
  refine (agrees_qualified pair first).bind fun spelled _ _ _ pair => ?_
  refine (agrees_arguments pair looped).bind fun given _ _ _ pair => ?_
  refine agrees_cursor (by simp only [pair.spanFrom]) ?_
  exact (agrees_skip pair (by decide)).bind fun _ _ _ _ pair => agrees_pure pair _

theorem agrees_call (pair : Padded cursor padded) (seen : cursor.current.kind = .identifier)
    (looped : Bool) : Agrees (call looped) cursor padded :=
  (agrees_bump pair seen (by decide)).bind fun first _ _ _ pair => agrees_callFrom pair looped first

theorem agrees_bound (pair : Padded cursor padded) (looped : Bool) :
    Agrees (bound looped) cursor padded := by
  unfold Agrees bound
  rw [pair.atTerminator, pair.current]
  split
  · exact agrees_fail pair _
  · change Agrees (argument looped >>= _) cursor padded
    refine (agrees_argument pair looped).bind fun found _ _ _ pair => ?_
    cases found with
    | string => exact agrees_failAt pair _ _
    | address => exact agrees_failAt pair _ _
    | number => exact agrees_pure pair _
    | named => exact agrees_pure pair _
    | iterator => exact agrees_pure pair _

end Calls

section Lines

variable {cursor padded : Cursor} {depth : Nat}

theorem agrees_countedLoop (pair : Padded cursor padded) (seen : cursor.current.kind = .forWord) :
    Agrees (countedLoop depth) cursor padded := by
  refine (agrees_bump pair seen (by decide)).bind fun word _ _ _ pair => ?_
  refine (agrees_bound pair _).bind fun start _ _ _ pair => ?_
  refine (agrees_bound pair _).bind fun step _ _ _ pair => ?_
  refine (agrees_bound pair _).bind fun stop _ _ _ pair => ?_
  refine agrees_cursor (by simp only [pair.spanFrom]) ?_
  exact (agrees_endLine pair _).bind fun _ _ _ _ pair => agrees_pure pair _

theorem agrees_word {α : Type} {kind : TokenKind} (pair : Padded cursor padded)
    (seen : cursor.current.kind = kind) (inside : kind ≠ .endOfInput) (what : Token → String)
    (value : Token → α) :
    Agrees (do let word ← bump; endLine (what word); pure (value word)) cursor padded := by
  refine (agrees_bump pair seen inside).bind fun word _ _ _ pair => ?_
  exact (agrees_endLine pair _).bind fun _ _ _ _ pair => agrees_pure pair _

theorem agrees_endLoop (pair : Padded cursor padded) (seen : cursor.current.kind = .endWord) :
    Agrees (endLoop depth) cursor padded := by
  cases depth with
  | zero => exact agrees_fail pair _
  | succ outer => exact agrees_word pair seen (by decide) (fun _ => "end") _

theorem agrees_pushIterator (pair : Padded cursor padded) (seen : cursor.current.kind = .dollar) :
    Agrees (pushIterator depth) cursor padded := by
  cases depth with
  | zero => exact agrees_fail pair _
  | succ outer => exact agrees_word pair seen (by decide) (fun _ => "$") _

theorem agrees_loopExit {kind : TokenKind} (pair : Padded cursor padded)
    (seen : cursor.current.kind = kind) (inside : kind ≠ .endOfInput) :
    Agrees (loopExit depth) cursor padded := by
  suffices starts : Agrees (if depth = 0 then fail (.unexpected cursor.current.literal) else do
      let word ← bump
      endLine word.literal
      pure ⟨exitOf word.kind, word.span⟩ : Parser Statement) cursor padded by
    refine starts.of_eq ?_ ?_
    · unfold loopExit
      split <;> rfl
    · unfold loopExit
      rw [pair.current]
      split <;> rfl
  split
  · exact agrees_fail pair _
  · exact agrees_word pair seen inside Token.literal _

theorem agrees_jump {which : Jump} (pair : Padded cursor padded)
    (seen : cursor.current.kind = .jump which) : Agrees jump cursor padded := by
  refine (agrees_bump pair seen (by simp)).bind fun word _ _ _ pair => ?_
  unfold jumpFrom
  split
  · refine (agrees_expect pair (by decide) _).bind fun target _ _ _ pair => ?_
    exact (agrees_endLine pair _).bind fun _ _ _ _ pair => agrees_pure pair _
  · exact agrees_failAt pair _ _

theorem agrees_takeLocal (pair : Padded cursor padded) (seen : cursor.current.kind = .localWord) :
    Agrees takeLocal cursor padded := by
  refine (agrees_bump pair seen (by decide)).bind fun word _ _ _ pair => ?_
  refine (agrees_expect pair (by decide) _).bind fun name _ _ _ pair => ?_
  exact (agrees_endLine pair _).bind fun _ _ _ _ pair => agrees_pure pair _

theorem agrees_reduce (pair : Padded cursor padded) (seen : cursor.current.kind = .reduceWord) :
    Agrees reduce cursor padded := by
  refine (agrees_bump pair seen (by decide)).bind fun word _ _ _ pair => ?_
  refine (agrees_expect pair (by decide) _).bind fun name _ _ _ pair => ?_
  unfold reduceFrom
  split
  · exact agrees_failAt pair _ _
  · exact (agrees_endLine pair _).bind fun _ _ _ _ pair => agrees_pure pair _

theorem agrees_label (pair : Padded cursor padded) (seen : cursor.current.kind = .identifier)
    (marked : (cursor.ahead 1).kind = .colon) : Agrees label cursor padded := by
  suffices starts : Agrees (if reservedLabels.contains cursor.current.literal then
        fail (.labelReserved cursor.current.literal)
      else do
        let name ← bump
        let _ ← bump
        let span := (← Parser.cursor).spanFrom name.span
        endLine (name.literal ++ ":")
        pure ⟨.label name.literal, span⟩ : Parser Statement) cursor padded by
    refine starts.of_eq ?_ ?_
    · unfold label
      split <;> rfl
    · unfold label
      rw [pair.current]
      split <;> rfl
  split
  · exact agrees_fail pair _
  · refine (agrees_bump pair seen (by decide)).bind fun name behind _ read pair => ?_
    cases read
    have coloned : cursor.moved.current.kind = .colon := by
      rw [current_moved seen (by decide), marked]
    refine (agrees_bump pair coloned (by decide)).bind fun _ _ _ _ pair => ?_
    refine agrees_cursor (by simp only [pair.spanFrom]) ?_
    exact (agrees_endLine pair _).bind fun _ _ _ _ pair => agrees_pure pair _

theorem agrees_deferFrom (pair : Padded cursor padded) (word : Token) :
    Agrees (deferFrom word) cursor padded := by
  unfold Agrees deferFrom
  rw [pair.sees]
  split
  · next seen =>
    refine (agrees_call pair ?_ false).bind fun called _ _ _ pair => agrees_pure pair _
    simpa [Cursor.sees] using seen
  · exact agrees_fail pair _

theorem agrees_inlineC (pair : Padded cursor padded) (seen : cursor.current.kind = .inlineC) :
    Agrees inlineC cursor padded :=
  (agrees_bump pair seen (by decide)).bind fun _ _ _ _ pair => agrees_pure pair _

end Lines

section Bodies

variable {cursor padded : Cursor} {depth : Nat}

theorem agrees_flat {step : Parser Statement} (agrees : Agrees step cursor padded) :
    Agrees (flat depth step) cursor padded :=
  agrees.bind fun _ _ _ _ pair => agrees_pure pair _

theorem agrees_nested {step : Parser Nested} (agrees : Agrees step cursor padded) :
    Agrees (nested step) cursor padded :=
  agrees.bind fun _ _ _ _ pair => agrees_pure pair _

/-- What follows the current token is looked at behind a name only, so never behind the end. -/
theorem bodyStepOf_unnamed {token : Token} (unnamed : token.kind ≠ .identifier)
    (following other : Token) : bodyStepOf depth token following = bodyStepOf depth token other := by
  unfold bodyStepOf
  split
  case h_10 seen => exact absurd seen unnamed
  all_goals rfl

theorem agrees_bodyStep (pair : Padded cursor padded) (depth : Nat) :
    Agrees (bodyStep depth) cursor padded := by
  suffices starts : Agrees (bodyStepOf depth cursor.current (cursor.ahead 1)) cursor padded by
    refine starts.of_eq rfl ?_
    rw [bodyStep, pair.current]
    by_cases named : cursor.current.kind = .identifier
    · rw [pair.ahead named (by decide)]
    · rw [bodyStepOf_unnamed named (padded.ahead 1) (cursor.ahead 1)]
  unfold bodyStepOf
  split
  case h_1 seen =>
    exact (agrees_bump pair seen (by decide)).bind fun _ _ _ _ pair => agrees_pure pair _
  case h_2 seen => exact (agrees_comment pair seen).bind fun _ _ _ _ pair => agrees_pure pair _
  case h_3 seen =>
    split
    · exact (agrees_bump pair seen (by decide)).bind fun _ _ _ _ pair => agrees_pure pair _
    · exact agrees_fail pair _
  case h_9 seen => exact agrees_flat (agrees_inlineC pair seen)
  case h_10 seen =>
    split
    · next marked => exact agrees_flat (agrees_label pair seen marked)
    · exact agrees_flat (agrees_call pair seen _)
  case h_11 seen =>
    refine (agrees_bump pair seen (by decide)).bind fun word _ _ _ pair => ?_
    exact (agrees_deferFrom pair word).bind fun _ _ _ _ pair => agrees_pure pair _
  case h_12 seen => exact agrees_flat (agrees_word pair seen (by decide) (fun _ => "return") _)
  case h_13 seen => exact agrees_flat (agrees_pushIterator pair seen)
  case h_14 seen => exact agrees_nested (agrees_countedLoop pair seen)
  case h_15 seen => exact agrees_nested (agrees_word pair seen (by decide) (fun _ => "loop") _)
  case h_16 seen => exact agrees_nested (agrees_endLoop pair seen)
  case h_17 seen => exact agrees_flat (agrees_loopExit pair seen (by decide))
  case h_18 seen => exact agrees_flat (agrees_loopExit pair seen (by decide))
  case h_19 seen => exact agrees_flat (agrees_jump pair seen)
  case h_20 seen => exact agrees_flat (agrees_takeLocal pair seen)
  case h_21 seen => exact agrees_flat (agrees_reduce pair seen)
  all_goals exact agrees_fail pair _

/-- The items of a body as steps one behind the other. -/
theorem bodyItems_eq (depth : Nat) (cursor : Cursor) :
    bodyItems depth cursor = (do
      match ← bodyStep depth with
      | .closed => pure []
      | .blank => bodyItems depth
      | .item item inner => do
        let items ← bodyItems inner
        pure (item :: items) : Parser (List BodyItem)) cursor := by
  rw [bodyItems]
  split
  · next failed => exact (bind_of_error failed).symm
  · next stepped => exact Eq.symm (bind_of_ok stepped)
  · next stepped => exact Eq.symm (bind_of_ok stepped)
  · next item inner behind stepped =>
    refine Eq.trans ?_ (bind_of_ok stepped).symm
    split
    · next failed => exact (bind_of_error failed).symm
    · next followed =>
      refine Eq.trans ?_ (bind_of_ok followed).symm
      rfl

theorem agrees_bodyItems (pair : Padded cursor padded) (depth : Nat) :
    Agrees (bodyItems depth) cursor padded := by
  induction size : cursor.rest.length using Nat.strongRecOn generalizing cursor padded depth with
  | _ size shorter =>
    refine Agrees.of_eq ?_ (bodyItems_eq depth cursor) (bodyItems_eq depth padded)
    refine (agrees_bodyStep pair depth).bind fun step behind _ read pair => ?_
    have fewer := shrinksAt_bodyStep depth cursor step behind read
    cases step with
    | closed => exact agrees_pure pair _
    | blank => exact shorter _ (size ▸ fewer) pair depth rfl
    | item item inner =>
      refine (shorter _ (size ▸ fewer) pair inner rfl).bind fun items _ _ _ pair => ?_
      exact agrees_pure pair _

theorem agrees_body (pair : Padded cursor padded) : Agrees body cursor padded :=
  (agrees_bodyItems pair 0).bind fun _ _ _ _ pair => agrees_pure pair _

end Bodies

section Declarations

variable {cursor padded : Cursor}

theorem agrees_parameterStep (pair : Padded cursor padded) :
    Agrees parameterStep cursor padded := by
  suffices starts : Agrees (parameterStepOf cursor.current) cursor padded by
    refine starts.of_eq rfl ?_
    rw [parameterStep, pair.current]
  unfold parameterStepOf
  split
  case h_5 => exact agrees_fail pair _
  all_goals
    next seen =>
      exact (agrees_bump pair seen (by decide)).bind fun _ _ _ _ pair => agrees_pure pair _

/-- The names of parameters as steps one behind the other. -/
theorem parameters_eq (cursor : Cursor) :
    parameters cursor = (do
      match ← parameterStep with
      | .closed => pure []
      | .blank => parameters
      | .name text => do
        let names ← parameters
        pure (text :: names) : Parser (List String)) cursor := by
  rw [parameters]
  split
  · next failed => exact (bind_of_error failed).symm
  · next stepped => exact Eq.symm (bind_of_ok stepped)
  · next stepped => exact Eq.symm (bind_of_ok stepped)
  · next text behind stepped =>
    refine Eq.trans ?_ (bind_of_ok stepped).symm
    split
    · next failed => exact (bind_of_error failed).symm
    · next followed =>
      refine Eq.trans ?_ (bind_of_ok followed).symm
      rfl

theorem agrees_parameters (pair : Padded cursor padded) : Agrees parameters cursor padded := by
  induction size : cursor.rest.length using Nat.strongRecOn generalizing cursor padded with
  | _ size shorter =>
    refine Agrees.of_eq ?_ (parameters_eq cursor) (parameters_eq padded)
    refine (agrees_parameterStep pair).bind fun step behind _ read pair => ?_
    have fewer := shrinksAt_parameterStep cursor step behind read
    cases step with
    | closed => exact agrees_pure pair _
    | blank => exact shorter _ (size ▸ fewer) pair rfl
    | name text =>
      refine (shorter _ (size ▸ fewer) pair rfl).bind fun names _ _ _ pair => ?_
      exact agrees_pure pair _

theorem agrees_openBody (pair : Padded cursor padded) : Agrees openBody cursor padded := by
  refine (agrees_expect pair (by decide) (.bodyExpected cursor.current.shown)).of_eq rfl ?_
  rw [openBody, pair.current]

theorem agrees_function (pair : Padded cursor padded) (seen : cursor.current.kind = .fnWord) :
    Agrees function cursor padded := by
  refine (agrees_bump pair seen (by decide)).bind fun word _ _ _ pair => ?_
  refine (agrees_expect pair (by decide) _).bind fun name _ _ _ pair => ?_
  refine (agrees_expect pair (by decide) _).bind fun _ _ _ _ pair => ?_
  refine (agrees_parameters pair).bind fun names _ _ _ pair => ?_
  refine agrees_cursor (by simp only [pair.spanFrom]) ?_
  refine (agrees_skipNewLines pair).bind fun _ _ _ _ pair => ?_
  refine (agrees_openBody pair).bind fun brace _ _ _ pair => ?_
  refine (agrees_body pair).bind fun statements _ _ _ pair => ?_
  refine agrees_cursor (by simp only [pair.spanFrom]) ?_
  exact agrees_pure pair _

theorem agrees_use (pair : Padded cursor padded) (seen : cursor.current.kind = .useWord) :
    Agrees use cursor padded := by
  refine (agrees_bump pair seen (by decide)).bind fun word _ _ _ pair => ?_
  refine (agrees_expect pair (by decide) _).bind fun module _ _ _ pair => ?_
  refine agrees_cursor (by simp only [pair.spanFrom]) ?_
  exact agrees_pure pair _

theorem agrees_const (pair : Padded cursor padded) (seen : cursor.current.kind = .constWord) :
    Agrees const cursor padded := by
  refine (agrees_bump pair seen (by decide)).bind fun word _ _ _ pair => ?_
  refine (agrees_expect pair (by decide) _).bind fun name _ _ _ pair => ?_
  refine (agrees_expect pair (by decide) _).bind fun number _ _ _ pair => ?_
  refine agrees_cursor (by simp only [pair.spanFrom]) ?_
  exact agrees_pure pair _

theorem agrees_declaration (pair : Padded cursor padded) : Agrees declaration cursor padded := by
  suffices starts : Agrees (declarationOf cursor.current) cursor padded by
    refine starts.of_eq rfl ?_
    rw [declaration, pair.current]
  unfold declarationOf
  split
  · next seen =>
    exact (agrees_bump pair seen (by decide)).bind fun _ _ _ _ pair => agrees_pure pair _
  · next seen => exact (agrees_comment pair seen).bind fun _ _ _ _ pair => agrees_pure pair _
  · next seen => exact (agrees_use pair seen).bind fun _ _ _ _ pair => agrees_pure pair _
  · next seen => exact (agrees_function pair seen).bind fun _ _ _ _ pair => agrees_pure pair _
  · next seen => exact (agrees_const pair seen).bind fun _ _ _ _ pair => agrees_pure pair _
  · next seen => exact (agrees_inlineC pair seen).bind fun _ _ _ _ pair => agrees_pure pair _
  · exact agrees_fail pair _

/-- The declarations of a file as steps one behind the other. -/
theorem topLevel_eq (cursor : Cursor) :
    topLevel cursor = (if cursor.atEnd then pure [] else do
      let statements ← declaration
      let more ← topLevel
      pure (statements ++ more) : Parser (List Statement)) cursor := by
  rw [topLevel]
  split
  · rfl
  · split
    · next failed => exact (bind_of_error failed).symm
    · next statements behind stepped =>
      refine Eq.trans ?_ (bind_of_ok stepped).symm
      split
      · next failed => exact (bind_of_error failed).symm
      · next followed =>
        refine Eq.trans ?_ (bind_of_ok followed).symm
        rfl

theorem agrees_topLevel (pair : Padded cursor padded) : Agrees topLevel cursor padded := by
  induction size : cursor.rest.length using Nat.strongRecOn generalizing cursor padded with
  | _ size shorter =>
    have ended : padded.atEnd = cursor.atEnd := pair.sees .endOfInput
    refine Agrees.of_eq ?_ (topLevel_eq cursor) (by rw [topLevel_eq, ended])
    split
    · exact agrees_pure pair _
    · refine (agrees_declaration pair).bind fun statements behind _ read pair => ?_
      have fewer := shrinksAt_declaration cursor statements behind read
      refine (shorter _ (size ▸ fewer) pair rfl).bind fun more _ _ _ pair => ?_
      exact agrees_pure pair _

end Declarations

end Parser

/-- The end of input that a list of tokens lacks: a point behind the last token, or at no place if
there is none. -/
def endBehind (tokens : List Token) : Token :=
  ⟨.endOfInput, "", .point ((tokens.getLast?.map fun token => token.span.stop).getD ⟨0, 0, 0⟩)⟩

theorem padded_ofTokens (path : Path) {tokens : List Token}
    (endless : ∀ token ∈ tokens, token.kind ≠ .endOfInput) (rest : List Token) :
    Padded (.ofTokens path tokens) (.ofTokens path (tokens ++ endBehind tokens :: rest)) :=
  ⟨rfl, rfl, endless, rest, rfl⟩

theorem parse_padded (path : Path) {tokens : List Token}
    (endless : ∀ token ∈ tokens, token.kind ≠ .endOfInput) (rest : List Token) :
    SourceTree.parse path (tokens ++ endBehind tokens :: rest) = SourceTree.parse path tokens := by
  obtain ⟨same, _⟩ := Parser.agrees_topLevel (padded_ofTokens path endless rest)
  unfold SourceTree.parse
  generalize Parser.topLevel (.ofTokens path (tokens ++ endBehind tokens :: rest)) = result at same
  obtain ⟨outcome, _⟩ := result
  generalize Parser.topLevel (.ofTokens path tokens) = result at same
  obtain ⟨outcome', _⟩ := result
  obtain rfl : outcome = outcome' := same
  cases outcome <;> rfl

/-- Tokens without an end of input are parsed alike, to the same tree or the same complaint, if one
stands behind them, and whatever else follows. -/
theorem end_of_input_can_be_missing (path : Path) (tokens rest : List Token)
    (endless : ∀ token ∈ tokens, token.kind ≠ .endOfInput) :
    SourceTree.parse path tokens = SourceTree.parse path (tokens ++ [endBehind tokens]) ∧
      SourceTree.parse path (tokens ++ [endBehind tokens]) =
        SourceTree.parse path (tokens ++ [endBehind tokens] ++ rest) := by
  have alone := parse_padded path endless []
  have followed := parse_padded path endless rest
  rw [List.append_assoc, List.singleton_append]
  exact ⟨alone.symm, alone.trans followed.symm⟩

/-- A function that is not closed, with a name at its end. -/
def unclosed : List Token :=
  [⟨.fnWord, "fn", ⟨⟨1, 1, 0⟩, ⟨1, 3, 2⟩⟩⟩, ⟨.identifier, "f", ⟨⟨1, 4, 3⟩, ⟨1, 5, 4⟩⟩⟩,
    ⟨.leftParen, "(", ⟨⟨1, 5, 4⟩, ⟨1, 6, 5⟩⟩⟩, ⟨.rightParen, ")", ⟨⟨1, 6, 5⟩, ⟨1, 7, 6⟩⟩⟩,
    ⟨.leftBrace, "\x7b", ⟨⟨1, 8, 7⟩, ⟨1, 9, 8⟩⟩⟩, ⟨.identifier, "x", ⟨⟨2, 1, 9⟩, ⟨2, 2, 10⟩⟩⟩]

/-- What would make a label of the name and close the function, if it were not behind the end. -/
def closing : List Token :=
  [⟨.colon, ":", ⟨⟨2, 2, 10⟩, ⟨2, 3, 11⟩⟩⟩, ⟨.rightBrace, "\x7d", ⟨⟨2, 3, 11⟩, ⟨2, 4, 12⟩⟩⟩]

theorem label_behind_the_end_is_not_seen :
    SourceTree.parse ⟨"/w/main.qd"⟩ unclosed = .error ⟨.bodyNotClosed, ⟨"/w/main.qd"⟩, 2, 2⟩ ∧
      SourceTree.parse ⟨"/w/main.qd"⟩ (unclosed ++ [endBehind unclosed]) =
        .error ⟨.bodyNotClosed, ⟨"/w/main.qd"⟩, 2, 2⟩ ∧
      SourceTree.parse ⟨"/w/main.qd"⟩ (unclosed ++ [endBehind unclosed] ++ closing) =
        .error ⟨.bodyNotClosed, ⟨"/w/main.qd"⟩, 2, 2⟩ := by
  have endless : ∀ token ∈ unclosed, token.kind ≠ .endOfInput := by decide
  have refused : ((SourceTree.parse ⟨"/w/main.qd"⟩ unclosed).map fun _ => ()) =
      .error ⟨.bodyNotClosed, ⟨"/w/main.qd"⟩, 2, 2⟩ := by decide +kernel
  have failed : SourceTree.parse ⟨"/w/main.qd"⟩ unclosed =
      .error ⟨.bodyNotClosed, ⟨"/w/main.qd"⟩, 2, 2⟩ := by
    cases parsed : SourceTree.parse ⟨"/w/main.qd"⟩ unclosed with
    | ok tree => rw [parsed] at refused; cases refused
    | error error => rw [parsed] at refused; cases refused; rfl
  obtain ⟨alone, followed⟩ :=
    end_of_input_can_be_missing ⟨"/w/main.qd"⟩ unclosed closing endless
  exact ⟨failed, alone ▸ failed, followed ▸ alone ▸ failed⟩

end StackLang
