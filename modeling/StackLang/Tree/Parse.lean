import StackLang.Tree.Body

/-! Declarations, and the tree of a whole file. -/
namespace StackLang.Parser

open Text (Span)

def use : Parser Statement := do
  let word ← bump
  let module ← expect .module .moduleExpected
  let path : Path := ⟨module.literal⟩
  pure ⟨.importModule ⟨path, moduleName path⟩, (← cursor).spanFrom word.span⟩

def const : Parser Statement := do
  let word ← bump
  let name ← expect .identifier (.identifierExpected "const")
  let number ← expect .number (.numberExpected name.literal)
  pure ⟨.constant name.literal number.literal, (← cursor).spanFrom word.span⟩

inductive ParameterStep where
  | closed
  | blank
  | name (text : String)

def parameterStepOf (token : Token) : Parser ParameterStep :=
  match token.kind with
  | .rightParen => do
    let _ ← bump
    pure .closed
  | .newLine => do
    let _ ← bump
    pure .blank
  | .comma => do
    let _ ← bump
    pure .blank
  | .identifier => do
    let parameter ← bump
    pure (.name parameter.literal)
  | _ => fail (.parameterExpected token.shown)

def parameterStep : Parser ParameterStep := fun cursor =>
  parameterStepOf cursor.current cursor

theorem shrinksAt_parameterStep (cursor : Cursor) : ShrinksAt parameterStep cursor := by
  show ShrinksAt (parameterStepOf cursor.current) cursor
  unfold parameterStepOf
  split
  case h_5 => exact shrinksAt_fail _ _
  all_goals
    next seen => exact (shrinksAt_bump seen (by decide)).bind fun _ => steady_pure _

/-- The names of the parameters up to the closing parenthesis; commas are optional. -/
def parameters (cursor : Cursor) : Except SyntaxError (List String) × Cursor :=
  match _read : parameterStep cursor with
  | (.error error, behind) => (.error error, behind)
  | (.ok .closed, behind) => (.ok [], behind)
  | (.ok .blank, behind) => parameters behind
  | (.ok (.name text), behind) =>
    match parameters behind with
    | (.error error, finished) => (.error error, finished)
    | (.ok names, finished) => (.ok (text :: names), finished)
termination_by cursor.rest.length
decreasing_by
  · exact shrinksAt_parameterStep cursor .blank behind _read
  · exact shrinksAt_parameterStep cursor (.name text) behind _read

def openBody : Parser Token := fun cursor =>
  expect .leftBrace (.bodyExpected cursor.current.shown) cursor

def function : Parser (Statement × Statement) := do
  let word ← bump
  let name ← expect .identifier (.identifierExpected "fn")
  let _ ← expect .leftParen (.parametersExpected name.literal)
  let names ← parameters
  let declared : Statement := ⟨.function name.literal names, (← cursor).spanFrom word.span⟩
  skipNewLines
  let brace ← openBody
  let statements ← body
  pure (declared, ⟨.body statements, (← cursor).spanFrom brace.span⟩)

/-- The statements of the declaration that starts with `token`, or none for a
blank between declarations. -/
def declarationOf (token : Token) : Parser (List Statement) :=
  match token.kind with
  | .newLine => do
    let _ ← bump
    pure []
  | .commentBegin => do
    comment
    pure []
  | .useWord => do
    let statement ← use
    pure [statement]
  | .fnWord => do
    let (declared, statements) ← function
    pure [declared, statements]
  | .constWord => do
    let statement ← const
    pure [statement]
  | .inlineC => do
    let statement ← inlineC
    pure [statement]
  | _ => fail (.declarationExpected token.shown)

def declaration : Parser (List Statement) := fun cursor => declarationOf cursor.current cursor

theorem steady_parameters : Steady parameters := by
  intro cursor value behind read
  fun_induction parameters cursor generalizing value behind with
  | case1 => cases read
  | case2 cursor middle stepped =>
    cases read
    exact Nat.le_of_lt (shrinksAt_parameterStep cursor _ _ stepped)
  | case3 cursor middle stepped shorter =>
    have before := shrinksAt_parameterStep cursor _ _ stepped
    have later := shorter value behind read
    omega
  | case4 => cases read
  | case5 cursor text middle stepped names finished followed shorter =>
    cases read
    have before := shrinksAt_parameterStep cursor _ _ stepped
    have later := shorter names finished followed
    omega

theorem steady_openBody : Steady openBody := fun cursor value behind read =>
  steady_expect _ _ cursor value behind read

theorem shrinksAt_function {cursor : Cursor} {kind : TokenKind} (seen : cursor.current.kind = kind)
    (inside : kind ≠ .endOfInput) : ShrinksAt function cursor :=
  (shrinksAt_bump seen inside).bind fun _ => (steady_expect _ _).bind fun _ =>
    (steady_expect _ _).bind fun _ => steady_parameters.bind fun _ => steady_cursor.bind fun _ =>
    steady_skipNewLines.bind fun _ => steady_openBody.bind fun _ => steady_body.bind fun _ =>
    steady_cursor.bind fun _ => steady_pure _

theorem shrinksAt_declaration (cursor : Cursor) : ShrinksAt declaration cursor := by
  show ShrinksAt (declarationOf cursor.current) cursor
  unfold declarationOf
  split
  case h_1 seen => exact (shrinksAt_bump seen (by decide)).bind fun _ => steady_pure _
  case h_2 seen => exact (shrinksAt_comment seen (by decide)).bind fun _ => steady_pure _
  case h_3 seen =>
    exact ((shrinksAt_bump seen (by decide)).bind fun _ => (steady_expect _ _).bind fun _ =>
      steady_cursor.bind fun _ => steady_pure _).bind fun _ => steady_pure _
  case h_4 seen => exact (shrinksAt_function seen (by decide)).bind fun _ => steady_pure _
  case h_5 seen =>
    exact ((shrinksAt_bump seen (by decide)).bind fun _ => (steady_expect _ _).bind fun _ =>
      (steady_expect _ _).bind fun _ => steady_cursor.bind fun _ => steady_pure _).bind fun _ => steady_pure _
  case h_6 seen =>
    exact ((shrinksAt_bump seen (by decide)).bind fun _ => steady_pure _).bind fun _ => steady_pure _
  case h_7 => exact shrinksAt_fail _ _

/-- All statements of a file up to the first end of input. -/
def topLevel (cursor : Cursor) : Except SyntaxError (List Statement) × Cursor :=
  if cursor.atEnd then (.ok [], cursor)
  else
    match _read : declaration cursor with
    | (.error error, behind) => (.error error, behind)
    | (.ok statements, behind) =>
      match topLevel behind with
      | (.error error, finished) => (.error error, finished)
      | (.ok more, finished) => (.ok (statements ++ more), finished)
termination_by cursor.rest.length
decreasing_by exact shrinksAt_declaration cursor statements behind _read

end StackLang.Parser

namespace StackLang

def importsOf (statements : List Statement) : List Import :=
  statements.filterMap Statement.import?

def SourceTree.parse (path : Path) (tokens : List Token) : Except SyntaxError SourceTree :=
  match Parser.topLevel (.ofTokens path tokens) with
  | (.error error, _) => .error error
  | (.ok statements, _) => .ok ⟨moduleName path, path, statements, importsOf statements⟩

end StackLang
