import StackLang.SyntaxError
import StackLang.Token.Basic

/-! A cursor over the tokens of one file, and the steps that read through it.
Behind the last token there is always one more end of input, which is never
passed. A step that fails leaves the cursor where it noticed. -/
namespace StackLang

open Text (Position Span)

structure Cursor where
  path : Path
  /-- The place of the token read last. -/
  last : Option Span := none
  rest : List Token
  /-- The position behind all tokens. -/
  stop : Position

namespace Cursor

def ofTokens (path : Path) (tokens : List Token) : Cursor :=
  { path, rest := tokens, stop := (tokens.getLast?.map fun token => token.span.stop).getD {} }

def sentinel (cursor : Cursor) : Token := ⟨.endOfInput, "", .point cursor.stop⟩

def current (cursor : Cursor) : Token := cursor.rest.headD cursor.sentinel

/-- The token `count` tokens behind the current one. -/
def ahead (cursor : Cursor) (count : Nat) : Token := (cursor.rest[count]?).getD cursor.sentinel

def sees (cursor : Cursor) (kind : TokenKind) : Bool := cursor.current.kind == kind

def atEnd (cursor : Cursor) : Bool := cursor.sees .endOfInput

/-- The place of the token read last, or of the current one if none was read. -/
def lastSpan (cursor : Cursor) : Span := cursor.last.getD cursor.current.span

def spanFrom (cursor : Cursor) (start : Span) : Span := start.upTo cursor.lastSpan

def moved (cursor : Cursor) : Cursor :=
  match cursor.rest with
  | [] => cursor
  | token :: rest => { cursor with last := some token.span, rest }

def atTerminator (cursor : Cursor) : Bool :=
  cursor.sees .newLine || cursor.sees .rightBrace || cursor.sees .endOfInput

def complainAt (cursor : Cursor) (complaint : Complaint) (span : Span) : SyntaxError :=
  .atSpan complaint cursor.path span

def complain (cursor : Cursor) (complaint : Complaint) : SyntaxError :=
  cursor.complainAt complaint cursor.current.span

end Cursor

/-- A step over the tokens. -/
def Parser (α : Type) := Cursor → Except SyntaxError α × Cursor

namespace Parser

instance : Monad Parser where
  pure value := fun cursor => (.ok value, cursor)
  bind step next := fun cursor =>
    match step cursor with
    | (.ok value, behind) => next value behind
    | (.error error, behind) => (.error error, behind)

def fail {α : Type} (complaint : Complaint) : Parser α :=
  fun cursor => (.error (cursor.complain complaint), cursor)

def failAt {α : Type} (complaint : Complaint) (span : Span) : Parser α :=
  fun cursor => (.error (cursor.complainAt complaint span), cursor)

def cursor : Parser Cursor := fun cursor => (.ok cursor, cursor)

/-- Reads the current token, whatever it is. -/
def bump : Parser Token := fun cursor => (.ok cursor.current, cursor.moved)

/-- Reads the current token if it is of a kind, and says whether it was. -/
def skip (kind : TokenKind) : Parser Bool := fun cursor =>
  if cursor.sees kind then (.ok true, cursor.moved) else (.ok false, cursor)

def expect (kind : TokenKind) (complaint : Complaint) : Parser Token := fun cursor =>
  if cursor.sees kind then (.ok cursor.current, cursor.moved)
  else (.error (cursor.complain complaint), cursor)

def skipNewLines : Parser Unit := fun cursor => (.ok (), newLinesFrom cursor cursor.rest)
where
  newLinesFrom (cursor : Cursor) : List Token → Cursor
    | [] => { cursor with rest := [] }
    | token :: rest =>
      if token.kind = .newLine then newLinesFrom { cursor with last := some token.span } rest
      else { cursor with rest := token :: rest }

/-- Reads the end of a line behind `what`; the end of a body also counts, and stays. -/
def endLine (what : String) : Parser Unit := fun cursor =>
  if cursor.atTerminator then
    if cursor.sees .newLine then (.ok (), cursor.moved) else (.ok (), cursor)
  else (.error (cursor.complain (.lineNotEnded what cursor.current.shown)), cursor)

/-- Reads a block comment, which is two tokens. -/
def comment : Parser Unit := do
  let start ← bump
  if ← skip .commentEnd then pure () else failAt .commentNotClosed start.span

/-- A step that never leaves more tokens than it was given. -/
def Steady {α : Type} (step : Parser α) : Prop :=
  ∀ cursor value behind, step cursor = (.ok value, behind) → behind.rest.length ≤ cursor.rest.length

/-- A step that leaves fewer tokens whenever it succeeds at a cursor. -/
def ShrinksAt {α : Type} (step : Parser α) (cursor : Cursor) : Prop :=
  ∀ value behind, step cursor = (.ok value, behind) → behind.rest.length < cursor.rest.length

theorem bind_apply {α β : Type} (step : Parser α) (next : α → Parser β) (cursor : Cursor) :
    (step >>= next) cursor =
      match step cursor with
      | (.ok value, behind) => next value behind
      | (.error error, behind) => (.error error, behind) := rfl

/-- What a step and the steps behind it did, if all went well. -/
theorem bind_eq_ok {α β : Type} {step : Parser α} {next : α → Parser β} {cursor behind : Cursor}
    {value : β} (read : (step >>= next) cursor = (.ok value, behind)) :
    ∃ first middle, step cursor = (.ok first, middle) ∧ next first middle = (.ok value, behind) := by
  rw [bind_apply] at read
  split at read
  · next first middle stepped => exact ⟨first, middle, stepped, read⟩
  · cases read

theorem length_moved_le (cursor : Cursor) : cursor.moved.rest.length ≤ cursor.rest.length := by
  unfold Cursor.moved
  split
  · exact Nat.le_refl _
  · next token rest read => simp [read]

theorem length_moved_lt (cursor : Cursor) (more : cursor.rest ≠ []) :
    cursor.moved.rest.length < cursor.rest.length := by
  unfold Cursor.moved
  split
  · next read => exact absurd read more
  · next token rest read => simp [read]

/-- Before anything but an end of input there is a token left. -/
theorem rest_ne_nil_of_kind {cursor : Cursor} {kind : TokenKind} (seen : cursor.current.kind = kind)
    (inside : kind ≠ .endOfInput) : cursor.rest ≠ [] := by
  intro empty
  apply inside
  rw [← seen, Cursor.current, empty]
  rfl

theorem Steady.bind {α β : Type} {step : Parser α} {next : α → Parser β} (first : Steady step)
    (second : ∀ value, Steady (next value)) : Steady (step >>= next) := by
  intro cursor value behind read
  obtain ⟨found, middle, stepped, followed⟩ := bind_eq_ok read
  exact Nat.le_trans (second found middle value behind followed) (first cursor found middle stepped)

theorem ShrinksAt.bind {α β : Type} {step : Parser α} {next : α → Parser β} {cursor : Cursor}
    (first : ShrinksAt step cursor) (second : ∀ value, Steady (next value)) :
    ShrinksAt (step >>= next) cursor := by
  intro value behind read
  obtain ⟨found, middle, stepped, followed⟩ := bind_eq_ok read
  exact Nat.lt_of_le_of_lt (second found middle value behind followed) (first found middle stepped)

theorem steady_pure {α : Type} (value : α) : Steady (pure value : Parser α) := by
  intro cursor found behind read
  cases read
  exact Nat.le_refl _

theorem steady_failAt {α : Type} (complaint : Complaint) (span : Span) :
    Steady (failAt complaint span : Parser α) := by
  intro cursor found behind read
  cases read

theorem steady_cursor : Steady cursor := by
  intro cursor found behind read
  cases read
  exact Nat.le_refl _

theorem steady_bump : Steady bump := by
  intro cursor found behind read
  cases read
  exact length_moved_le cursor

theorem steady_skip (kind : TokenKind) : Steady (skip kind) := by
  intro cursor found behind read
  unfold skip at read
  split at read
  · cases read; exact length_moved_le cursor
  · cases read; exact Nat.le_refl _

theorem steady_expect (kind : TokenKind) (complaint : Complaint) : Steady (expect kind complaint) := by
  intro cursor found behind read
  unfold expect at read
  split at read
  · cases read; exact length_moved_le cursor
  · cases read

theorem length_newLinesFrom_le (tokens : List Token) :
    ∀ cursor, (skipNewLines.newLinesFrom cursor tokens).rest.length ≤ tokens.length := by
  induction tokens with
  | nil => intro cursor; exact Nat.le_refl _
  | cons token rest shorter =>
    intro cursor
    unfold skipNewLines.newLinesFrom
    split
    · exact Nat.le_trans (shorter _) (by simp)
    · exact Nat.le_refl _

theorem steady_skipNewLines : Steady skipNewLines := by
  intro cursor found behind read
  cases read
  exact length_newLinesFrom_le cursor.rest cursor

theorem steady_endLine (what : String) : Steady (endLine what) := by
  intro cursor found behind read
  unfold endLine at read
  split at read
  · split at read
    · cases read; exact length_moved_le cursor
    · cases read; exact Nat.le_refl _
  · cases read

theorem shrinksAt_fail {α : Type} (complaint : Complaint) (cursor : Cursor) :
    ShrinksAt (fail complaint : Parser α) cursor := by
  intro value behind failed
  cases failed

theorem shrinksAt_bump {cursor : Cursor} {kind : TokenKind} (seen : cursor.current.kind = kind)
    (inside : kind ≠ .endOfInput) : ShrinksAt bump cursor := by
  intro value behind read
  cases read
  exact length_moved_lt cursor (rest_ne_nil_of_kind seen inside)

theorem steady_closeComment (start : Token) :
    Steady (do if ← skip .commentEnd then pure () else failAt .commentNotClosed start.span) := by
  refine (steady_skip _).bind fun closed => ?_
  cases closed
  · exact steady_failAt _ _
  · exact steady_pure _

theorem shrinksAt_comment {cursor : Cursor} {kind : TokenKind} (seen : cursor.current.kind = kind)
    (inside : kind ≠ .endOfInput) : ShrinksAt comment cursor :=
  (shrinksAt_bump seen inside).bind steady_closeComment

end Parser

end StackLang
