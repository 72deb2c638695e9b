import StackLang.Tree.Call

/-! Function bodies. A body is read item by item up to its closing brace; its
loops are counted by `depth`. A deferred call is no statement of its own: the
calls deferred so far are replayed in front of every return and at the end. -/
namespace StackLang.Parser

open Text (Span)

/-- Words that cannot name a label in C. -/
def reservedLabels : List String :=
  ["auto", "bool", "case", "char", "const", "constexpr", "default", "do", "double", "else",
   "enum", "extern", "false", "float", "goto", "if", "inline", "int", "long", "nullptr",
   "register", "restrict", "short", "signed", "sizeof", "static", "struct", "switch", "true",
   "typedef", "typeof", "union", "unsigned", "void", "volatile", "while", "_Alignas",
   "_Alignof", "_Atomic", "_Bool", "_Complex", "_Generic", "_Imaginary", "_Noreturn",
   "_Static_assert", "_Thread_local"]

/-- One bound of a loop: a number, a named value or the iterator around. -/
def bound (looped : Bool) : Parser Argument := fun cursor =>
  if cursor.atTerminator then fail .boundsExpected cursor
  else
    (do
      match ← argument looped with
      | .string _ => failAt .boundNotNumeric cursor.current.span
      | .address _ => failAt .boundNotNumeric cursor.current.span
      | found => pure found : Parser Argument) cursor

/-- A statement together with the loop depth behind it. -/
abbrev Nested := Statement × Nat

def countedLoop (depth : Nat) : Parser Nested := do
  let word ← bump
  let start ← bound (0 < depth)
  let step ← bound (0 < depth)
  let stop ← bound (0 < depth)
  let span := (← cursor).spanFrom word.span
  endLine "for"
  pure (⟨.countedLoop start step stop, span⟩, depth + 1)

def endlessLoop (depth : Nat) : Parser Nested := do
  let word ← bump
  endLine "loop"
  pure (⟨.endlessLoop, word.span⟩, depth + 1)

def endLoop : Nat → Parser Nested
  | 0 => fail (.unexpected "end")
  | depth + 1 => do
    let word ← bump
    endLine "end"
    pure (⟨.endLoop, word.span⟩, depth)

def exitOf (kind : TokenKind) : Action :=
  if kind = .breakWord then .breakLoop else .continueLoop

/-- Leaves the innermost loop, or goes on with its next round. -/
def loopExit (depth : Nat) : Parser Statement := fun cursor =>
  if depth = 0 then fail (.unexpected cursor.current.literal) cursor
  else
    (do
      let word ← bump
      endLine word.literal
      pure ⟨exitOf word.kind, word.span⟩ : Parser Statement) cursor

def jumpFrom (word : Token) : Parser Statement :=
  match word.kind with
  | .jump which => do
    let label ← expect .identifier (.labelExpected which.mnemonic)
    endLine which.mnemonic
    pure ⟨.jump which label.literal, word.span.upTo label.span⟩
  | _ => failAt .jumpExpected word.span

def jump : Parser Statement := do
  let word ← bump
  jumpFrom word

def takeLocal : Parser Statement := do
  let word ← bump
  let name ← expect .identifier (.identifierExpected "local")
  endLine name.literal
  pure ⟨.takeLocal name.literal, word.span.upTo name.span⟩

def reduceFrom (word name : Token) : Parser Statement :=
  match Reduction.ofName? name.literal with
  | none => failAt (.reductionUnknown name.literal) name.span
  | some reduction => do
    endLine name.literal
    pure ⟨.reduce reduction, word.span.upTo name.span⟩

def reduce : Parser Statement := do
  let word ← bump
  let name ← expect .identifier .reductionExpected
  reduceFrom word name

def label : Parser Statement := fun cursor =>
  if reservedLabels.contains cursor.current.literal then
    fail (.labelReserved cursor.current.literal) cursor
  else
    (do
      let name ← bump
      let _ ← bump
      let span := (← Parser.cursor).spanFrom name.span
      endLine (name.literal ++ ":")
      pure ⟨.label name.literal, span⟩ : Parser Statement) cursor

/-- A deferred call behind its word; it is replayed outside of any loop. -/
def deferFrom (word : Token) : Parser Statement := fun cursor =>
  if cursor.sees .identifier then
    (do
      let called ← call false
      pure ⟨called.action, word.span.upTo called.span⟩ : Parser Statement) cursor
  else fail .callExpected cursor

def leave : Parser Statement := do
  let word ← bump
  endLine "return"
  pure ⟨.leave, word.span⟩

def pushIterator : Nat → Parser Statement
  | 0 => fail (.unexpected "$")
  | _ + 1 => do
    let word ← bump
    endLine "$"
    pure ⟨.pushIterator, word.span⟩

def inlineC : Parser Statement := do
  let block ← bump
  pure ⟨.inlineC block.literal, block.span⟩

/-- What a body holds besides blanks. -/
inductive BodyItem where
  | plain (statement : Statement)
  | deferred (call : Statement)

inductive BodyStep where
  | closed
  | blank
  | item (item : BodyItem) (depth : Nat)

/-- A statement that changes no depth. -/
def flat (depth : Nat) (step : Parser Statement) : Parser BodyStep := do
  let statement ← step
  pure (.item (.plain statement) depth)

def nested (step : Parser Nested) : Parser BodyStep := do
  let (statement, depth) ← step
  pure (.item (.plain statement) depth)

/-- The step that starts with `token`, with `following` behind it. -/
def bodyStepOf (depth : Nat) (token following : Token) : Parser BodyStep :=
  match token.kind with
  | .newLine => do
    let _ ← bump
    pure .blank
  | .commentBegin => do
    comment
    pure .blank
  | .rightBrace =>
    if depth = 0 then do
      let _ ← bump
      pure .closed
    else fail .loopNotClosed
  | .endOfInput => fail .bodyNotClosed
  | .leftBrace => fail .braceInBody
  | .fnWord => fail (.notInBody token.literal)
  | .useWord => fail (.notInBody token.literal)
  | .constWord => fail (.notInBody token.literal)
  | .inlineC => flat depth inlineC
  | .identifier =>
    if following.kind = .colon then flat depth label else flat depth (call (0 < depth))
  | .deferWord => do
    let word ← bump
    let called ← deferFrom word
    pure (.item (.deferred called) depth)
  | .returnWord => flat depth leave
  | .dollar => flat depth (pushIterator depth)
  | .forWord => nested (countedLoop depth)
  | .loopWord => nested (endlessLoop depth)
  | .endWord => nested (endLoop depth)
  | .breakWord => flat depth (loopExit depth)
  | .continueWord => flat depth (loopExit depth)
  | .jump _ => flat depth jump
  | .localWord => flat depth takeLocal
  | .reduceWord => flat depth reduce
  | _ => fail (.statementExpected token.shown)

def bodyStep (depth : Nat) : Parser BodyStep := fun cursor =>
  bodyStepOf depth cursor.current (cursor.ahead 1) cursor

theorem steady_bound (looped : Bool) : Steady (bound looped) := by
  intro cursor value behind read
  unfold bound at read
  split at read
  · cases read
  · obtain ⟨found, middle, stepped, followed⟩ := bind_eq_ok read
    have shorter := shrinksAt_argument looped cursor found middle stepped
    cases found <;> cases followed <;> omega

theorem shrinksAt_flat {depth : Nat} {step : Parser Statement} {cursor : Cursor}
    (shrinks : ShrinksAt step cursor) : ShrinksAt (flat depth step) cursor :=
  shrinks.bind fun _ => steady_pure _

theorem shrinksAt_nested {step : Parser Nested} {cursor : Cursor}
    (shrinks : ShrinksAt step cursor) : ShrinksAt (nested step) cursor :=
  shrinks.bind fun _ => steady_pure _

theorem shrinksAt_countedLoop {depth : Nat} {cursor : Cursor} {kind : TokenKind}
    (seen : cursor.current.kind = kind) (inside : kind ≠ .endOfInput) :
    ShrinksAt (countedLoop depth) cursor :=
  (shrinksAt_bump seen inside).bind fun _ => (steady_bound _).bind fun _ => (steady_bound _).bind fun _ =>
    (steady_bound _).bind fun _ => steady_cursor.bind fun _ => (steady_endLine _).bind fun _ => steady_pure _

theorem shrinksAt_endlessLoop {depth : Nat} {cursor : Cursor} {kind : TokenKind}
    (seen : cursor.current.kind = kind) (inside : kind ≠ .endOfInput) :
    ShrinksAt (endlessLoop depth) cursor :=
  (shrinksAt_bump seen inside).bind fun _ => (steady_endLine _).bind fun _ => steady_pure _

theorem shrinksAt_endLoop {depth : Nat} {cursor : Cursor} {kind : TokenKind}
    (seen : cursor.current.kind = kind) (inside : kind ≠ .endOfInput) :
    ShrinksAt (endLoop depth) cursor := by
  cases depth
  · exact shrinksAt_fail _ _
  · exact (shrinksAt_bump seen inside).bind fun _ => (steady_endLine _).bind fun _ => steady_pure _

theorem shrinksAt_loopExit {depth : Nat} {cursor : Cursor} {kind : TokenKind}
    (seen : cursor.current.kind = kind) (inside : kind ≠ .endOfInput) :
    ShrinksAt (loopExit depth) cursor := by
  intro value behind read
  unfold loopExit at read
  split at read
  · cases read
  · exact (shrinksAt_bump seen inside).bind
      (fun _ => (steady_endLine _).bind fun _ => steady_pure _) value behind read

theorem steady_jumpFrom (word : Token) : Steady (jumpFrom word) := by
  unfold jumpFrom
  split
  · exact (steady_expect _ _).bind fun _ => (steady_endLine _).bind fun _ => steady_pure _
  · exact steady_failAt _ _

theorem steady_reduceFrom (word name : Token) : Steady (reduceFrom word name) := by
  unfold reduceFrom
  split
  · exact steady_failAt _ _
  · exact (steady_endLine _).bind fun _ => steady_pure _

theorem shrinksAt_label {cursor : Cursor} {kind : TokenKind}
    (seen : cursor.current.kind = kind) (inside : kind ≠ .endOfInput) : ShrinksAt label cursor := by
  intro value behind read
  unfold label at read
  split at read
  · cases read
  · exact (shrinksAt_bump seen inside).bind (fun _ => steady_bump.bind fun _ => steady_cursor.bind fun _ =>
      (steady_endLine _).bind fun _ => steady_pure _) value behind read

theorem steady_call (looped : Bool) : Steady (call looped) :=
  steady_bump.bind fun first => steady_callFrom looped first

theorem steady_deferFrom (word : Token) : Steady (deferFrom word) := by
  intro cursor value behind read
  unfold deferFrom at read
  split at read
  · exact (steady_call false).bind (fun _ => steady_pure _) cursor value behind read
  · cases read

theorem shrinksAt_pushIterator {depth : Nat} {cursor : Cursor} {kind : TokenKind}
    (seen : cursor.current.kind = kind) (inside : kind ≠ .endOfInput) :
    ShrinksAt (pushIterator depth) cursor := by
  cases depth
  · exact shrinksAt_fail _ _
  · exact (shrinksAt_bump seen inside).bind fun _ => (steady_endLine _).bind fun _ => steady_pure _

/-- Every step through a body reads a token. -/
theorem shrinksAt_bodyStep (depth : Nat) (cursor : Cursor) : ShrinksAt (bodyStep depth) cursor := by
  show ShrinksAt (bodyStepOf depth cursor.current (cursor.ahead 1)) cursor
  unfold bodyStepOf
  split
  case h_1 seen => exact (shrinksAt_bump seen (by decide)).bind fun _ => steady_pure _
  case h_2 seen => exact (shrinksAt_comment seen (by decide)).bind fun _ => steady_pure _
  case h_3 seen =>
    split
    · exact (shrinksAt_bump seen (by decide)).bind fun _ => steady_pure _
    · exact shrinksAt_fail _ _
  case h_9 seen => exact shrinksAt_flat ((shrinksAt_bump seen (by decide)).bind fun _ => steady_pure _)
  case h_10 seen =>
    split
    · exact shrinksAt_flat (shrinksAt_label seen (by decide))
    · exact shrinksAt_flat ((shrinksAt_bump seen (by decide)).bind fun first => steady_callFrom _ first)
  case h_11 seen =>
    exact (shrinksAt_bump seen (by decide)).bind fun word =>
      (steady_deferFrom word).bind fun _ => steady_pure _
  case h_12 seen =>
    exact shrinksAt_flat ((shrinksAt_bump seen (by decide)).bind fun _ =>
      (steady_endLine _).bind fun _ => steady_pure _)
  case h_13 seen => exact shrinksAt_flat (shrinksAt_pushIterator seen (by decide))
  case h_14 seen => exact shrinksAt_nested (shrinksAt_countedLoop seen (by decide))
  case h_15 seen => exact shrinksAt_nested (shrinksAt_endlessLoop seen (by decide))
  case h_16 seen => exact shrinksAt_nested (shrinksAt_endLoop seen (by decide))
  case h_17 seen => exact shrinksAt_flat (shrinksAt_loopExit seen (by decide))
  case h_18 seen => exact shrinksAt_flat (shrinksAt_loopExit seen (by decide))
  case h_19 seen =>
    exact shrinksAt_flat ((shrinksAt_bump seen (by simp)).bind fun word => steady_jumpFrom word)
  case h_20 seen =>
    exact shrinksAt_flat ((shrinksAt_bump seen (by decide)).bind fun _ =>
      (steady_expect _ _).bind fun _ => (steady_endLine _).bind fun _ => steady_pure _)
  case h_21 seen =>
    exact shrinksAt_flat ((shrinksAt_bump seen (by decide)).bind fun word =>
      (steady_expect _ _).bind fun name => steady_reduceFrom word name)
  all_goals exact shrinksAt_fail _ _

/-- All items of a body up to and including its closing brace. -/
def bodyItems (depth : Nat) (cursor : Cursor) : Except SyntaxError (List BodyItem) × Cursor :=
  match _read : bodyStep depth cursor with
  | (.error error, behind) => (.error error, behind)
  | (.ok .closed, behind) => (.ok [], behind)
  | (.ok .blank, behind) => bodyItems depth behind
  | (.ok (.item item inner), behind) =>
    match bodyItems inner behind with
    | (.error error, finished) => (.error error, finished)
    | (.ok items, finished) => (.ok (item :: items), finished)
termination_by cursor.rest.length
decreasing_by
  · exact shrinksAt_bodyStep depth cursor .blank behind _read
  · exact shrinksAt_bodyStep depth cursor (.item item inner) behind _read

/-- The statements of a body, with the calls deferred so far in front of every
return and at the end. -/
def replay (deferred : List Statement) : List BodyItem → List Statement
  | [] => deferred
  | .deferred call :: items => replay (deferred ++ [call]) items
  | .plain statement :: items =>
    match statement.action with
    | .leave => deferred ++ statement :: replay deferred items
    | _ => statement :: replay deferred items

def body : Parser (List Statement) := do
  let items ← bodyItems 0
  pure (replay [] items)

theorem steady_bodyItems (depth : Nat) : Steady (bodyItems depth) := by
  intro cursor value behind read
  fun_induction bodyItems depth cursor generalizing value behind with
  | case1 => cases read
  | case2 depth cursor middle stepped =>
    cases read
    exact Nat.le_of_lt (shrinksAt_bodyStep depth cursor _ _ stepped)
  | case3 depth cursor middle stepped shorter =>
    have before := shrinksAt_bodyStep depth cursor _ _ stepped
    have later := shorter value behind read
    omega
  | case4 => cases read
  | case5 depth cursor item inner middle stepped items finished followed shorter =>
    cases read
    have before := shrinksAt_bodyStep depth cursor _ _ stepped
    have later := shorter items finished followed
    omega

theorem steady_body : Steady body := (steady_bodyItems 0).bind fun _ => steady_pure _

end StackLang.Parser
