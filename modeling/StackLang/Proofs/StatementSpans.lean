import StackLang.Proofs.Outcome
import StackLang.Proofs.ReadTokens
import StackLang.Proofs.TokenPlaces

/-! Where statements stand. Each of them is read from tokens of its own, and tokens are in order; so
statements that are read one after the other stand one behind the other, and those of a body stand
between its braces. A deferred call stands where it is written, however often it is replayed. -/
namespace StackLang

open Text (Position Span)
open StackLang.Parser (BodyItem Enclosed replay)

/-- A span from the start of one of some tokens to the end of this one or of a later one. -/
def Bounded (tokens : List Token) (span : Span) : Prop :=
  ∃ front first more last, tokens = front ++ first :: more ∧ last ∈ first :: more ∧
    span.start = first.span.start ∧ span.stop = last.span.stop

def InOrder (statements : List Statement) : Prop :=
  statements.Pairwise fun statement next => statement.span.stop ≤ next.span.start

/-- The statements of a list and those inside of its bodies. -/
inductive Within (statements : List Statement) : Statement → Prop
  | here {statement : Statement} (member : statement ∈ statements) : Within statements statement
  | inside {body statement : Statement} {inner : List Statement} (outer : Within statements body)
    (opened : body.action = .body inner) (member : statement ∈ inner) : Within statements statement

namespace Parser

def BodyItem.plain? : BodyItem → Option Statement
  | .plain statement => some statement
  | .deferred _ => none

end Parser

def plainIn (items : List BodyItem) : List Statement := items.filterMap BodyItem.plain?

theorem sublist_plainIn (items : List BodyItem) :
    (plainIn items).Sublist (items.map BodyItem.statement) := by
  induction items with
  | nil => exact .slnil
  | cons item items ih =>
    cases item with
    | plain statement => exact ih.cons_cons statement
    | deferred call => exact ih.cons call

theorem Grammar.Line.flat {depth behind : Nat} {tokens rest : List Token} {action : Action}
    (line : Grammar.Line depth tokens rest action behind) (inner : List Statement) :
    action ≠ .body inner := by
  rintro rfl
  cases line with
  | call called => cases called

/-- No item of a body is a body. -/
theorem Grammar.Body.flat {depth : Nat} {tokens rest : List Token} {items : List BodyItem}
    (body : Grammar.Body depth tokens rest items) :
    ∀ statement ∈ items.map BodyItem.statement, ∀ inner, statement.action ≠ .body inner := by
  induction body with
  | close => exact List.forall_mem_nil _
  | blank _ _ ih => exact ih
  | item first _ ih =>
    refine List.forall_mem_cons.mpr ⟨?_, ih⟩
    cases first with
    | plain line => exact line.flat
    | deferred _ called =>
      have line : Grammar.Line 0 _ _ _ 0 := .call called
      exact line.flat

/-- Tokens in order, each of them over some text. -/
structure Sequenced (tokens : List Token) : Prop where
  ordered : tokens.Pairwise fun token next => token.span.stop ≤ next.span.start
  forward : ∀ token ∈ tokens, token.span.start ≤ token.span.stop
  filled : ∀ token ∈ tokens, token.kind ≠ .endOfInput → token.span.start.offset < token.span.stop.offset

theorem sequenced_of_ofBytes {files : Files} {search later : Search} {path : Path}
    {bytes : List UInt8} {stream : TokenStream}
    (scanned : TokenStream.ofBytes files search path bytes = (.ok stream, later)) :
    Sequenced stream.tokens := by
  obtain ⟨ordered, forward⟩ := TokenStream.ordered_of_ofBytes scanned
  exact ⟨ordered, forward, TokenStream.nonempty_of_ofBytes scanned⟩

namespace Sequenced

variable {tokens part : List Token} {span : Span}

theorem of_infix (sequenced : Sequenced tokens) (within : part <:+: tokens) : Sequenced part where
  ordered := sequenced.ordered.sublist within.sublist
  forward token member := sequenced.forward token (within.subset member)
  filled token member := sequenced.filled token (within.subset member)

theorem stop_le_of_mem {first last : Token} {more : List Token}
    (sequenced : Sequenced (first :: more)) (member : last ∈ first :: more) :
    first.span.stop ≤ last.span.stop := by
  rcases List.mem_cons.mp member with rfl | later
  · exact Position.le_refl _
  · have before := (List.pairwise_cons.mp sequenced.ordered).1 last later
    exact Position.le_trans before (sequenced.forward last member)

/-- A span over tokens is not empty. -/
theorem start_lt_stop (sequenced : Sequenced tokens) (covered : Covered tokens span) :
    span.start.offset < span.stop.offset := by
  obtain ⟨first, more, last, rfl, inside, member, rfl⟩ := covered
  exact Nat.lt_of_lt_of_le (sequenced.filled first List.mem_cons_self inside)
    (sequenced.stop_le_of_mem member).1

end Sequenced

theorem Covered.bounded {tokens part : List Token} {span : Span} (covered : Covered part span)
    (within : part <:+: tokens) : Bounded tokens span := by
  obtain ⟨first, more, last, rfl, _, member, rfl⟩ := covered
  obtain ⟨front, back, rfl⟩ := within
  refine ⟨front, first, more ++ back, last, by simp, ?_, rfl, rfl⟩
  exact List.mem_append_left back member

namespace Laid

variable {tokens part : List Token} {statements : List Statement} {statement : Statement}

theorem covered (laid : Laid tokens statements) (member : statement ∈ statements) :
    ∃ part, part <:+: tokens ∧ Covered part statement.span := by
  induction laid with
  | none => cases member
  | skip skipped _ ih =>
    obtain ⟨part, within, covered⟩ := ih member
    exact ⟨part, within.trans (List.suffix_append _ _).isInfix, covered⟩
  | statement here _ ih =>
    rcases List.mem_cons.mp member with rfl | later
    · exact ⟨_, (List.prefix_append _ _).isInfix, here⟩
    · obtain ⟨part, within, covered⟩ := ih later
      exact ⟨part, within.trans (List.suffix_append _ _).isInfix, covered⟩

theorem inOrder (laid : Laid tokens statements) (sequenced : Sequenced tokens) :
    InOrder statements := by
  induction laid with
  | none => exact .nil
  | skip _ _ ih => exact ih (sequenced.of_infix (List.suffix_append _ _).isInfix)
  | statement here more ih =>
    refine List.pairwise_cons.mpr ⟨?_, ih (sequenced.of_infix (List.suffix_append _ _).isInfix)⟩
    intro next member
    obtain ⟨first, others, last, rfl, _, ends, spanned⟩ := here
    obtain ⟨_, within, first', others', last', rfl, _, _, spanned'⟩ := more.covered member
    rw [spanned, spanned']
    -- The last token of one statement is before the first one of the other.
    exact (List.pairwise_append.mp sequenced.ordered).2.2 last ends first'
      (within.subset List.mem_cons_self)

theorem bounded (laid : Laid part statements) (sequenced : Sequenced tokens)
    (within : part <:+: tokens) (member : statement ∈ statements) :
    Bounded tokens statement.span ∧
      statement.span.start.offset < statement.span.stop.offset := by
  obtain ⟨taken, inside, covered⟩ := laid.covered member
  exact ⟨covered.bounded (inside.trans within),
    (sequenced.of_infix (inside.trans within)).start_lt_stop covered⟩

end Laid

theorem mem_body {statement : Statement} {items : List BodyItem} (member : statement ∈ replay [] items) :
    statement ∈ items.map BodyItem.statement :=
  ((mem_replay [] items statement).mp member).resolve_left List.not_mem_nil

namespace Parser.Enclosed

variable {tokens : List Token} {span : Span} {inner : List Statement}

theorem flat (enclosed : Enclosed tokens span inner) :
    ∀ statement ∈ inner, ∀ more, statement.action ≠ .body more := by
  obtain ⟨front, brace, inside, closing, rest, items, _, _, rfl, shape, _⟩ := enclosed
  exact fun statement member => shape.flat statement (mem_body member)

theorem bounded (enclosed : Enclosed tokens span inner) (sequenced : Sequenced tokens) :
    ∀ statement ∈ inner, Bounded tokens statement.span ∧
      statement.span.start.offset < statement.span.stop.offset := by
  obtain ⟨front, brace, inside, closing, rest, items, rfl, _, rfl, _, laid⟩ := enclosed
  intro statement member
  exact laid.bounded sequenced ⟨front ++ [brace], closing :: rest, by simp⟩ (mem_body member)

/-- What stands in a body stands between its braces. -/
theorem inside (enclosed : Enclosed tokens span inner) (sequenced : Sequenced tokens) :
    ∀ statement ∈ inner, span.start ≤ statement.span.start ∧ statement.span.stop ≤ span.stop := by
  obtain ⟨front, brace, inside, closing, rest, items, rfl, rfl, rfl, _, laid⟩ := enclosed
  have sequenced : Sequenced (brace :: (inside ++ closing :: rest)) :=
    sequenced.of_infix (List.suffix_append _ _).isInfix
  obtain ⟨behind, ordered⟩ := List.pairwise_cons.mp sequenced.ordered
  intro statement member
  obtain ⟨part, within, first, more, last, rfl, _, ends, spanned⟩ :=
    laid.covered (mem_body member)
  rw [spanned]
  have starts : first ∈ inside := within.subset List.mem_cons_self
  have stops : last ∈ inside := within.subset ends
  refine ⟨?_, ?_⟩
  · exact Position.le_trans (sequenced.forward brace List.mem_cons_self)
      (behind first (List.mem_append_left _ starts))
  · exact Position.le_trans
      ((List.pairwise_append.mp ordered).2.2 last stops closing List.mem_cons_self)
      (sequenced.forward closing (by simp))

/-- The items of a body are in order, so those that are not deferred are. -/
theorem inOrder_plainIn (enclosed : Enclosed tokens span inner) (sequenced : Sequenced tokens) :
    ∃ front brace inside rest items, tokens = front ++ brace :: inside ∧
      brace.span.start = span.start ∧ Grammar.Body 0 inside rest items ∧ inner = replay [] items ∧
      InOrder (plainIn items) := by
  obtain ⟨front, brace, inside, closing, rest, items, rfl, rfl, replayed, shape, laid⟩ := enclosed
  have ordered : InOrder (items.map BodyItem.statement) :=
    laid.inOrder (sequenced.of_infix ⟨front ++ [brace], closing :: rest, by simp⟩)
  exact ⟨front, brace, inside ++ closing :: rest, rest, items, rfl, rfl, shape, replayed,
    ordered.sublist (sublist_plainIn items)⟩

end Parser.Enclosed

/-- Bodies do not nest, so a statement is one of the list or of one of its bodies. -/
theorem Within.cases {tokens : List Token} {statements : List Statement} {statement : Statement}
    (enclosed : ∀ body ∈ statements, ∀ inner, body.action = .body inner →
      Enclosed tokens body.span inner) (within : Within statements statement) :
    statement ∈ statements ∨ ∃ body ∈ statements, ∃ inner, body.action = .body inner ∧
      statement ∈ inner := by
  induction within with
  | here member => exact .inl member
  | inside _ opened member ih =>
    rcases ih with outer | ⟨outermost, outer, inner, opened', member'⟩
    · exact .inr ⟨_, outer, _, opened, member⟩
    · exact absurd opened ((enclosed outermost outer inner opened').flat _ member' _)

theorem declares_of_parse {path : Path} {tokens : List Token} {tree : SourceTree}
    (parsed : SourceTree.parse path tokens = .ok tree) :
    ∃ behind, Parser.Declares (.ofTokens path tokens) tree.statements behind := by
  unfold SourceTree.parse at parsed
  split at parsed
  · cases parsed
  · next statements behind read =>
    cases parsed
    exact ⟨behind, Parser.declares_topLevel statements behind read⟩

/-- The spans of the statements of a file that is scanned and parsed. Each of them goes from the start
of a token to the end of this one or of a later one, and over some text. The statements of the file
stand one behind the other, with nothing shared; so do the statements of a body, where the calls that
it replays are left out; and all statements of a body, these calls too, stand inside of the body. -/
theorem statements_are_spanned_in_source_order {files : Files} {search later : Search} {path : Path}
    {bytes : List UInt8} {stream : TokenStream} {tree : SourceTree}
    (scanned : TokenStream.ofBytes files search path bytes = (.ok stream, later))
    (parsed : SourceTree.parse path stream.tokens = .ok tree) :
    (∀ statement, Within tree.statements statement → Bounded stream.tokens statement.span ∧
      statement.span.start.offset < statement.span.stop.offset) ∧
    InOrder tree.statements ∧
    ∀ body inner, Within tree.statements body → body.action = .body inner →
      (∀ statement ∈ inner, body.span.start ≤ statement.span.start ∧
        statement.span.stop ≤ body.span.stop) ∧
      ∃ front brace inside rest items, stream.tokens = front ++ brace :: inside ∧
        brace.span.start = body.span.start ∧ Grammar.Body 0 inside rest items ∧
        inner = replay [] items ∧ InOrder (plainIn items) := by
  have sequenced := sequenced_of_ofBytes scanned
  obtain ⟨behind, ⟨taken, reads, laid⟩, enclosed⟩ := declares_of_parse parsed
  have whole : stream.tokens = taken ++ behind.rest := reads.rest
  have starts : taken <:+: stream.tokens := ⟨[], behind.rest, whole.symm⟩
  refine ⟨?_, laid.inOrder (sequenced.of_infix starts), ?_⟩
  · intro statement within
    rcases within.cases enclosed with outer | ⟨body, member, inner, opened, inside⟩
    · exact laid.bounded sequenced starts outer
    · exact (enclosed body member inner opened).bounded sequenced statement inside
  · intro body inner within opened
    rcases within.cases enclosed with outer | ⟨outermost, member, others, opened', inside⟩
    · have between := enclosed body outer inner opened
      exact ⟨between.inside sequenced, between.inOrder_plainIn sequenced⟩
    · exact absurd opened ((enclosed outermost member others opened').flat body inside inner)

/-- A function that is left early, with a deferred call behind a label. -/
def earlyText : List UInt8 := "const size 3
fn main( a ) \x7b
top:
defer print size a
loop
return
end \x7d
".toUTF8.toList

def Action.inner? : Action → Option (List Statement)
  | .body inner => some inner
  | _ => none

theorem Action.eq_body_of_inner? {action : Action} {inner : List Statement}
    (found : action.inner? = some inner) : action = .body inner := by
  cases action <;> cases found
  rfl

def Statement.ends (statement : Statement) : Nat × Nat :=
  (statement.span.start.offset, statement.span.stop.offset)

theorem replayed_call_is_spanned_where_it_is_deferred :
    ∃ stream later tree body inner,
      TokenStream.ofBytes ⟨[], []⟩ ⟨[], []⟩ ⟨"/w/main.qd"⟩ earlyText = (.ok stream, later) ∧
      SourceTree.parse ⟨"/w/main.qd"⟩ stream.tokens = .ok tree ∧
      body ∈ tree.statements ∧ body.action = .body inner ∧
      tree.statements.map Statement.ends = [(0, 12), (13, 25), (26, 69)] ∧
      inner.map Statement.ends = [(28, 32), (52, 56), (33, 51), (57, 63), (64, 67), (33, 51)] ∧
      InOrder tree.statements ∧
      ∀ statement ∈ inner, body.span.start ≤ statement.span.start ∧
        statement.span.stop ≤ body.span.stop := by
  have accepted : (do
      let stream ← (TokenStream.ofBytes ⟨[], []⟩ ⟨[], []⟩ ⟨"/w/main.qd"⟩ earlyText).1.toOption
      let tree ← (SourceTree.parse ⟨"/w/main.qd"⟩ stream.tokens).toOption
      let body ← tree.statements.getLast?
      let inner ← body.action.inner?
      return (tree.statements.map Statement.ends, inner.map Statement.ends)) =
      some ([(0, 12), (13, 25), (26, 69)],
        [(28, 32), (52, 56), (33, 51), (57, 63), (64, 67), (33, 51)]) := by decide +kernel
  obtain ⟨stream, scanned, accepted⟩ := Option.bind_eq_some_iff.mp accepted
  obtain ⟨tree, parsed, accepted⟩ := Option.bind_eq_some_iff.mp accepted
  obtain ⟨body, member, accepted⟩ := Option.bind_eq_some_iff.mp accepted
  obtain ⟨inner, opened, accepted⟩ := Option.bind_eq_some_iff.mp accepted
  obtain ⟨outer, ends⟩ := Prod.ext_iff.mp (Option.some.inj accepted)
  have scanned : TokenStream.ofBytes ⟨[], []⟩ ⟨[], []⟩ ⟨"/w/main.qd"⟩ earlyText = (.ok stream, _) :=
    Prod.ext (Outcome.eq_ok_of_toOption scanned) rfl
  have parsed := Outcome.eq_ok_of_toOption parsed
  have member := List.mem_of_getLast? member
  have opened := Action.eq_body_of_inner? opened
  obtain ⟨_, ordered, inside⟩ := statements_are_spanned_in_source_order scanned parsed
  exact ⟨stream, _, tree, body, inner, scanned, parsed, member, opened, outer, ends, ordered,
    (inside body inner (.here member) opened).1⟩

end StackLang
