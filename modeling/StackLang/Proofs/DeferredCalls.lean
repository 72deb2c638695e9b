import StackLang.Proofs.Outcome
import StackLang.Proofs.Parsing
import StackLang.Token.Stream

/-! Deferred calls of a body. The parser carries the calls deferred so far along and copies them into
the statements wherever the body is left. Seen from the items of the source, without anything that is
carried along, each item becomes a piece of the statements that depends on the items before it only:
a return brings the calls that they defer, and what all items defer stands at the end. -/
namespace StackLang

open StackLang.Grammar
open StackLang.Parser (BodyItem replay)

namespace Parser.BodyItem

def deferred? : BodyItem → Option Statement
  | .deferred call => some call
  | .plain _ => none

end Parser.BodyItem

def Action.isReturn : Action → Bool
  | .leave => true
  | _ => false

def deferredIn (items : List BodyItem) : List Statement := items.filterMap BodyItem.deferred?

@[simp]
theorem deferredIn_nil : deferredIn [] = [] := rfl

@[simp]
theorem deferredIn_deferred (call : Statement) (items : List BodyItem) :
    deferredIn (.deferred call :: items) = call :: deferredIn items := rfl

@[simp]
theorem deferredIn_plain (statement : Statement) (items : List BodyItem) :
    deferredIn (.plain statement :: items) = deferredIn items := rfl

/-- What an item becomes behind the ones before it: a deferred call nothing, and a statement itself,
with all calls that were deferred in front of it if it is a return. -/
def pieceOf (earlier : List Statement) : BodyItem → List Statement
  | .deferred _ => []
  | .plain statement => (if statement.action.isReturn then earlier else []) ++ [statement]

def piecesOf (items : List BodyItem) : List (List Statement) :=
  items.zipIdx.map fun entry => pieceOf (deferredIn (items.take entry.2)) entry.1

theorem replay_plain (deferred : List Statement) (statement : Statement) (items : List BodyItem) :
    replay deferred (.plain statement :: items) =
      pieceOf deferred (.plain statement) ++ replay deferred items := by
  rw [replay, pieceOf]
  cases statement.action <;> simp [Action.isReturn]

/-- Behind some deferred calls, these stand before those of the items themselves. -/
theorem replay_eq (deferred : List Statement) (items : List BodyItem) :
    replay deferred items =
      (items.zipIdx.flatMap fun entry =>
        pieceOf (deferred ++ deferredIn (items.take entry.2)) entry.1) ++
      (deferred ++ deferredIn items) := by
  induction items generalizing deferred with
  | nil => simp [replay]
  | cons item items ih =>
    -- The places of the other items are one further, and the first item is before all of them.
    rw [List.zipIdx_cons', List.flatMap_cons, List.flatMap_map]
    cases item with
    | deferred call =>
      rw [replay, ih]
      simp [pieceOf]
    | plain statement =>
      rw [replay_plain, ih]
      simp

theorem replay_nil (items : List BodyItem) :
    replay [] items = (piecesOf items).flatten ++ deferredIn items := by
  rw [replay_eq, piecesOf, List.flatMap_def]
  simp

theorem iterator_of_operands {tokens rest : List Token} {given : List Argument}
    (operands : Operands false tokens rest given) : .iterator ∉ given := by
  induction operands with
  | done => exact List.not_mem_nil
  | comma _ _ ih => exact ih
  | comment _ _ _ ih => exact ih
  | operand first _ ih =>
    rw [List.mem_cons, not_or]
    refine ⟨?_, ih⟩
    intro counted
    subst counted
    cases first with
    | iterator _ inside => cases inside

/-- A deferred call of a body is a call in which no loop is counted. -/
theorem Grammar.Body.deferred_call {depth : Nat} {tokens rest : List Token} {items : List BodyItem}
    (body : Body depth tokens rest items) :
    ∀ call ∈ deferredIn items, ∃ name module given,
      call.action = .call name module given ∧ .iterator ∉ given := by
  induction body with
  | close => exact List.forall_mem_nil _
  | blank _ _ ih => exact ih
  | item first _ ih =>
    cases first with
    | plain => exact ih
    | @deferred _ _ _ statement _ called =>
      rw [deferredIn_deferred, List.forall_mem_cons]
      refine ⟨?_, ih⟩
      generalize statement.action = action at called ⊢
      cases called with
      | line _ operands _ => exact ⟨_, _, _, rfl, iterator_of_operands operands⟩

/-- The statements of a body that is read. Its tokens are items, each a statement or a deferred call.
Every statement stands for itself, in order, and in front of a return stand the calls deferred before
it; behind the last statement stand all deferred calls; and there are no other statements. No deferred
call has the count of a loop among its arguments. -/
theorem body_replays_deferred_calls_at_its_exits {cursor behind : Cursor}
    {statements : List Statement} (read : Parser.body cursor = (.ok statements, behind)) :
    ∃ items, Body 0 cursor.rest behind.rest items ∧
      statements = (piecesOf items).flatten ++ deferredIn items ∧
      ∀ call ∈ deferredIn items, ∃ name module given,
        call.action = .call name module given ∧ .iterator ∉ given := by
  obtain ⟨items, replayed, inside⟩ := Parser.yields_body statements behind read
  refine ⟨items, inside, ?_, inside.deferred_call⟩
  rw [replayed, replay_nil]

/-- The inside of a body that defers before, in and behind a loop. -/
def deferringText : String := "defer first
loop
defer second 1
return
end
return
defer third
\x7d"

theorem call_deferred_in_a_loop_is_replayed_behind_it :
    ∃ stream statements behind items,
      (TokenStream.ofText ⟨[], []⟩ ⟨[], []⟩ ⟨"/w/main.qd"⟩ deferringText.toList).1 = .ok stream ∧
      Parser.body (.ofTokens ⟨"/w/main.qd"⟩ stream.tokens) = (.ok statements, behind) ∧
      (statements.map fun statement => (statement.action.isReturn, statement.span.start.line)) =
        [(false, 2), (false, 1), (false, 3), (true, 4), (false, 5), (false, 1), (false, 3), (true, 6),
          (false, 1), (false, 3), (false, 7)] ∧
      statements = (piecesOf items).flatten ++ deferredIn items := by
  have accepted : (do
      let stream ← (TokenStream.ofText ⟨[], []⟩ ⟨[], []⟩ ⟨"/w/main.qd"⟩
        deferringText.toList).1.toOption
      let statements ← (Parser.body (.ofTokens ⟨"/w/main.qd"⟩ stream.tokens)).1.toOption
      return statements.map fun statement =>
        (statement.action.isReturn, statement.span.start.line)) =
      some [(false, 2), (false, 1), (false, 3), (true, 4), (false, 5), (false, 1), (false, 3),
        (true, 6), (false, 1), (false, 3), (false, 7)] := by decide +kernel
  obtain ⟨stream, scanned, accepted⟩ := Option.bind_eq_some_iff.mp accepted
  obtain ⟨statements, read, accepted⟩ := Option.bind_eq_some_iff.mp accepted
  have read : Parser.body (.ofTokens ⟨"/w/main.qd"⟩ stream.tokens) = (.ok statements, _) :=
    Prod.ext (Outcome.eq_ok_of_toOption read) rfl
  obtain ⟨items, _, replayed, _⟩ := body_replays_deferred_calls_at_its_exits read
  exact ⟨stream, statements, _, items, Outcome.eq_ok_of_toOption scanned, read,
    Option.some.inj accepted, replayed⟩

end StackLang
