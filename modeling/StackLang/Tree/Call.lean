import StackLang.Tree.Basic
import StackLang.Tree.Cursor

/-! Calls with their arguments. The iterator can be an argument inside a loop
only; `looped` says whether there is one around. -/
namespace StackLang.Parser

open Text (Span)

/-- The rest of a name that a module may qualify, behind its first word. -/
def qualified (first : Token) : Parser (Option String × String) := do
  if ← skip .doubleColon then
    let name ← expect .identifier (.identifierExpected "::")
    pure (some first.literal, name.literal)
  else pure (none, first.literal)

def argumentOf (looped : Bool) (token : Token) : Parser Argument :=
  match token.kind with
  | .number => do
    let number ← bump
    pure (.number number.literal)
  | .string => do
    let string ← bump
    pure (.string string.literal)
  | .identifier => do
    let first ← bump
    let (module, name) ← qualified first
    pure (.named module name)
  | .ampersand => do
    let _ ← bump
    let name ← expect .identifier (.identifierExpected "&")
    pure (.address name.literal)
  | .dollar =>
    if looped then do
      let _ ← bump
      pure .iterator
    else fail (.unexpected "$")
  | _ => fail (.argumentUnexpected token.shown)

def argument (looped : Bool) : Parser Argument := fun cursor =>
  argumentOf looped cursor.current cursor

/-- A comma or a comment between arguments, or an argument. -/
def argumentItemOf (looped : Bool) (kind : TokenKind) : Parser (Option Argument) :=
  match kind with
  | .comma => do
    let _ ← bump
    pure none
  | .commentBegin => do
    comment
    pure none
  | _ => do
    let found ← argument looped
    pure (some found)

def argumentItem (looped : Bool) : Parser (Option Argument) := fun cursor =>
  argumentItemOf looped cursor.current.kind cursor

theorem steady_qualified (first : Token) : Steady (qualified first) := by
  refine (steady_skip _).bind fun found => ?_
  cases found
  · exact steady_pure _
  · exact (steady_expect _ _).bind fun _ => steady_pure _

theorem shrinksAt_argument (looped : Bool) (cursor : Cursor) :
    ShrinksAt (argument looped) cursor := by
  show ShrinksAt (argumentOf looped cursor.current) cursor
  unfold argumentOf
  split
  · next seen => exact (shrinksAt_bump seen (by decide)).bind fun _ => steady_pure _
  · next seen => exact (shrinksAt_bump seen (by decide)).bind fun _ => steady_pure _
  · next seen =>
    exact (shrinksAt_bump seen (by decide)).bind fun first =>
      (steady_qualified first).bind fun _ => steady_pure _
  · next seen =>
    exact (shrinksAt_bump seen (by decide)).bind fun _ =>
      (steady_expect _ _).bind fun _ => steady_pure _
  · next seen =>
    split
    · exact (shrinksAt_bump seen (by decide)).bind fun _ => steady_pure _
    · exact shrinksAt_fail _ _
  · exact shrinksAt_fail _ _

theorem shrinksAt_argumentItem (looped : Bool) (cursor : Cursor) :
    ShrinksAt (argumentItem looped) cursor := by
  show ShrinksAt (argumentItemOf looped cursor.current.kind) cursor
  unfold argumentItemOf
  split
  · next seen => exact (shrinksAt_bump seen (by decide)).bind fun _ => steady_pure _
  · next seen => exact (shrinksAt_comment seen (by decide)).bind fun _ => steady_pure _
  · exact (shrinksAt_argument looped cursor).bind fun _ => steady_pure _

def arguments (looped : Bool) (cursor : Cursor) : Except SyntaxError (List Argument) × Cursor :=
  if cursor.atTerminator then (.ok [], cursor)
  else
    match _read : argumentItem looped cursor with
    | (.error error, behind) => (.error error, behind)
    | (.ok found, behind) =>
      match arguments looped behind with
      | (.error error, finished) => (.error error, finished)
      | (.ok more, finished) => (.ok (found.toList ++ more), finished)
termination_by cursor.rest.length
decreasing_by exact shrinksAt_argumentItem looped cursor found behind _read

/-- A call behind its first word: the rest of the name and the arguments. -/
def callFrom (looped : Bool) (first : Token) : Parser Statement := do
  let (module, name) ← qualified first
  let given ← arguments looped
  let span := (← cursor).spanFrom first.span
  let _ ← skip .newLine
  pure ⟨.call name module given, span⟩

def call (looped : Bool) : Parser Statement := do
  let first ← bump
  callFrom looped first

theorem steady_arguments (looped : Bool) : Steady (arguments looped) := by
  intro cursor found behind read
  fun_induction arguments looped cursor generalizing found behind with
  | case1 cursor ended => cases read; exact Nat.le_refl _
  | case2 cursor _ error middle failed => cases read
  | case3 cursor _ first middle stepped error finished failed shorter => cases read
  | case4 cursor _ first middle stepped more finished followed shorter =>
    cases read
    have later := shorter more finished followed
    have before := shrinksAt_argumentItem looped cursor first middle stepped
    omega

theorem steady_callFrom (looped : Bool) (first : Token) : Steady (callFrom looped first) :=
  (steady_qualified first).bind fun _ => (steady_arguments looped).bind fun _ =>
    steady_cursor.bind fun _ => (steady_skip _).bind fun _ => steady_pure _

end StackLang.Parser
