import StackLang.Proofs.Parsing

/-! The tokens that the parser reads for a statement. It makes the span of the statement from them in
one of several ways: from one word, from two, or from a word and the token read last. All of these
spans start at the first of the tokens and end with one of them, and no token is read for two
statements. -/
namespace StackLang

open Text (Span)

/-! ### Spans over tokens -/

/-- A span from the start of the first of some tokens to the end of one of them. -/
def Covered (tokens : List Token) (span : Span) : Prop :=
  ∃ first more last, tokens = first :: more ∧ first.kind ≠ .endOfInput ∧ last ∈ first :: more ∧
    span = first.span.upTo last.span

theorem Covered.append {tokens : List Token} {span : Span} (covered : Covered tokens span)
    (others : List Token) : Covered (tokens ++ others) span := by
  obtain ⟨first, more, last, rfl, inside, member, same⟩ := covered
  exact ⟨first, more ++ others, last, rfl, inside, List.mem_append_left others member, same⟩

/-- Statements over tokens, each of them over tokens of its own, and all in order. -/
inductive Laid : List Token → List Statement → Prop
  | none {tokens : List Token} : Laid tokens []
  | skip {tokens : List Token} {statements : List Statement} (skipped : List Token)
    (more : Laid tokens statements) : Laid (skipped ++ tokens) statements
  | statement {taken tokens : List Token} {statement : Statement} {statements : List Statement}
    (here : Covered taken statement.span) (more : Laid tokens statements) :
    Laid (taken ++ tokens) (statement :: statements)

theorem Laid.append {tokens others : List Token} {statements more : List Statement}
    (laid : Laid tokens statements) (later : Laid others more) :
    Laid (tokens ++ others) (statements ++ more) := by
  induction laid with
  | none => exact .skip _ later
  | skip skipped _ ih =>
    rw [List.append_assoc]
    exact .skip skipped ih
  | statement here _ ih =>
    rw [List.append_assoc]
    exact .statement here ih

theorem Covered.laid {tokens : List Token} {statement : Statement}
    (covered : Covered tokens statement.span) : Laid tokens [statement] := by
  have laid : Laid (tokens ++ []) [statement] := .statement covered .none
  rwa [List.append_nil] at laid

/-! ### Tokens between two cursors -/

/-- The tokens that are read from one cursor to another one. -/
structure Cursor.Reads (cursor : Cursor) (taken : List Token) (behind : Cursor) : Prop where
  rest : cursor.rest = taken ++ behind.rest
  last : behind.last = (taken.getLast?.map Token.span).or cursor.last

namespace Cursor

variable {cursor middle behind : Cursor} {taken more : List Token}

theorem Reads.none (cursor : Cursor) : cursor.Reads [] cursor := ⟨rfl, rfl⟩

theorem Reads.trans (reads : cursor.Reads taken middle) (reads' : middle.Reads more behind) :
    cursor.Reads (taken ++ more) behind := by
  refine ⟨?_, ?_⟩
  · rw [reads.rest, reads'.rest, List.append_assoc]
  · rw [reads'.last, reads.last, List.getLast?_append, Option.map_or, Option.or_assoc]

theorem reads_moved {token : Token} {rest : List Token} (read : cursor.rest = token :: rest) :
    cursor.Reads [token] cursor.moved := by
  have moved : cursor.moved = { cursor with last := some token.span, rest } := by
    rw [Cursor.moved, read]
  rw [moved]
  exact ⟨read, rfl⟩

theorem exists_reads_moved (cursor : Cursor) : ∃ taken, cursor.Reads taken cursor.moved := by
  cases read : cursor.rest with
  | nil =>
    have stays : cursor.moved = cursor := by rw [Cursor.moved, read]
    exact ⟨[], stays.symm ▸ Reads.none cursor⟩
  | cons token rest => exact ⟨[token], reads_moved read⟩

/-- What goes from a token to the one read last is over the tokens in between. -/
theorem Reads.covered {first : Token} (reads : cursor.Reads (first :: taken) behind)
    (inside : first.kind ≠ .endOfInput) :
    Covered (first :: taken) (behind.spanFrom first.span) := by
  have some : first :: taken ≠ [] := List.cons_ne_nil first taken
  refine ⟨first, taken, (first :: taken).getLast some, rfl, inside, List.getLast_mem some, ?_⟩
  rw [spanFrom, lastSpan, reads.last, List.getLast?_eq_some_getLast some]
  rfl

theorem Reads.spanFrom_last {last : Token} (taken : List Token)
    (reads : cursor.Reads (taken ++ [last]) behind) (start : Span) :
    behind.spanFrom start = start.upTo last.span := by
  rw [spanFrom, lastSpan, reads.last, List.getLast?_concat]
  rfl

end Cursor

namespace Parser

/-- A step that reads some tokens, if it succeeds. -/
def Proceeds {α : Type} (step : Parser α) : Prop :=
  ∀ cursor, Yields step cursor fun _ behind => ∃ taken, cursor.Reads taken behind

section Steps

variable {α β : Type} {kind : TokenKind}

theorem Proceeds.bind {step : Parser α} {next : α → Parser β} (first : Proceeds step)
    (second : ∀ value, Proceeds (next value)) : Proceeds (step >>= next) := by
  intro cursor
  refine (first cursor).bind fun value middle ⟨taken, reads⟩ => ?_
  intro result behind followed
  obtain ⟨more, reads'⟩ := second value middle result behind followed
  exact ⟨taken ++ more, reads.trans reads'⟩

theorem proceeds_pure (value : α) : Proceeds (pure value) :=
  fun cursor => yields_pure ⟨[], .none cursor⟩

theorem proceeds_fail (complaint : Complaint) : Proceeds (fail complaint : Parser α) :=
  fun _ => yields_fail

theorem proceeds_failAt (complaint : Complaint) (span : Span) :
    Proceeds (failAt complaint span : Parser α) :=
  fun _ => yields_failAt

theorem proceeds_bump : Proceeds bump := by
  intro cursor value behind read
  cases read
  exact cursor.exists_reads_moved

theorem proceeds_skip (kind : TokenKind) : Proceeds (skip kind) := by
  intro cursor value behind read
  unfold skip at read
  split at read
  · cases read
    exact cursor.exists_reads_moved
  · cases read
    exact ⟨[], .none _⟩

theorem proceeds_expect (kind : TokenKind) (complaint : Complaint) :
    Proceeds (expect kind complaint) := by
  intro cursor value behind read
  unfold expect at read
  split at read
  · cases read
    exact cursor.exists_reads_moved
  · cases read

theorem proceeds_endLine (what : String) : Proceeds (endLine what) := by
  intro cursor value behind read
  unfold endLine at read
  split at read
  · split at read
    · cases read
      exact cursor.exists_reads_moved
    · cases read
      exact ⟨[], .none _⟩
  · cases read

theorem reads_newLinesFrom (cursor : Cursor) (tokens : List Token) :
    ∃ taken, Cursor.Reads { cursor with rest := tokens } taken
      (skipNewLines.newLinesFrom cursor tokens) := by
  induction tokens generalizing cursor with
  | nil => exact ⟨[], rfl, rfl⟩
  | cons token tokens ih =>
    unfold skipNewLines.newLinesFrom
    split
    · obtain ⟨taken, reads⟩ := ih { cursor with last := some token.span }
      have first : Cursor.Reads { cursor with rest := token :: tokens } [token]
          { cursor with last := some token.span, rest := tokens } := ⟨rfl, rfl⟩
      exact ⟨token :: taken, first.trans reads⟩
    · exact ⟨[], rfl, rfl⟩

theorem proceeds_skipNewLines : Proceeds skipNewLines := by
  intro cursor value behind read
  cases read
  exact reads_newLinesFrom cursor cursor.rest

theorem proceeds_comment : Proceeds comment := by
  refine proceeds_bump.bind fun start => (proceeds_skip _).bind fun closed => ?_
  cases closed with
  | false => exact proceeds_failAt _ _
  | true => exact proceeds_pure _

theorem proceeds_qualified (first : Token) : Proceeds (qualified first) := by
  refine (proceeds_skip _).bind fun separated => ?_
  cases separated with
  | false => exact proceeds_pure _
  | true => exact (proceeds_expect _ _).bind fun _ => proceeds_pure _

theorem proceeds_argument (looped : Bool) : Proceeds (argument looped) := by
  intro cursor
  change Yields (argumentOf looped cursor.current) cursor _
  suffices Proceeds (argumentOf looped cursor.current) from this cursor
  unfold argumentOf
  split
  · exact proceeds_bump.bind fun _ => proceeds_pure _
  · exact proceeds_bump.bind fun _ => proceeds_pure _
  · exact proceeds_bump.bind fun first => (proceeds_qualified first).bind fun _ => proceeds_pure _
  · exact proceeds_bump.bind fun _ => (proceeds_expect _ _).bind fun _ => proceeds_pure _
  · split
    · exact proceeds_bump.bind fun _ => proceeds_pure _
    · exact proceeds_fail _
  · exact proceeds_fail _

theorem proceeds_argumentItem (looped : Bool) : Proceeds (argumentItem looped) := by
  intro cursor
  change Yields (argumentItemOf looped cursor.current.kind) cursor _
  suffices Proceeds (argumentItemOf looped cursor.current.kind) from this cursor
  unfold argumentItemOf
  split
  · exact proceeds_bump.bind fun _ => proceeds_pure _
  · exact proceeds_comment.bind fun _ => proceeds_pure _
  · exact (proceeds_argument looped).bind fun _ => proceeds_pure _

theorem proceeds_arguments (looped : Bool) : Proceeds (arguments looped) := by
  intro cursor value behind read
  fun_induction arguments looped cursor generalizing value behind with
  | case1 => cases read; exact ⟨[], .none _⟩
  | case2 => cases read
  | case3 => cases read
  | case4 cursor _ first middle stepped more finished followed shorter =>
    cases read
    obtain ⟨taken, reads⟩ := proceeds_argumentItem looped cursor first middle stepped
    obtain ⟨others, reads'⟩ := shorter more finished followed
    exact ⟨taken ++ others, reads.trans reads'⟩

theorem proceeds_bound (looped : Bool) : Proceeds (bound looped) := by
  intro cursor
  refine yields_if rfl (fun _ => yields_fail) fun _ => ?_
  refine Proceeds.bind (proceeds_argument looped) (fun found => ?_) cursor
  cases found with
  | string => exact proceeds_failAt _ _
  | address => exact proceeds_failAt _ _
  | number => exact proceeds_pure _
  | named => exact proceeds_pure _
  | iterator => exact proceeds_pure _

theorem proceeds_parameterStep : Proceeds parameterStep := by
  intro cursor
  change Yields (parameterStepOf cursor.current) cursor _
  suffices Proceeds (parameterStepOf cursor.current) from this cursor
  unfold parameterStepOf
  split
  case h_5 => exact proceeds_fail _
  all_goals exact proceeds_bump.bind fun _ => proceeds_pure _

theorem proceeds_parameters : Proceeds parameters := by
  intro cursor value behind read
  fun_induction parameters cursor generalizing value behind with
  | case1 => cases read
  | case2 cursor middle stepped =>
    cases read
    exact proceeds_parameterStep cursor _ _ stepped
  | case3 cursor middle stepped shorter =>
    obtain ⟨taken, reads⟩ := proceeds_parameterStep cursor _ _ stepped
    obtain ⟨others, reads'⟩ := shorter value behind read
    exact ⟨taken ++ others, reads.trans reads'⟩
  | case4 => cases read
  | case5 cursor text middle stepped more finished followed shorter =>
    cases read
    obtain ⟨taken, reads⟩ := proceeds_parameterStep cursor _ _ stepped
    obtain ⟨others, reads'⟩ := shorter more finished followed
    exact ⟨taken ++ others, reads.trans reads'⟩

end Steps

def Spans (cursor : Cursor) (span : Span) (behind : Cursor) : Prop :=
  ∃ taken, cursor.Reads taken behind ∧ Covered taken span

section Lines

variable {cursor middle behind : Cursor} {kind : TokenKind} {depth : Nat} {span : Span}
  {word : Token}

theorem Spans.proceed {more : List Token} (spans : Spans cursor span middle)
    (reads : middle.Reads more behind) : Spans cursor span behind := by
  obtain ⟨taken, reads', covered⟩ := spans
  exact ⟨taken ++ more, reads'.trans reads, covered.append more⟩

theorem spans_word (reads : cursor.Reads [word] behind) (inside : word.kind ≠ .endOfInput) :
    Spans cursor word.span behind :=
  ⟨[word], reads, word, [], word, rfl, inside, List.mem_singleton_self word, rfl⟩

theorem spans_upTo {name : Token} (reads : cursor.Reads [word, name] behind)
    (inside : word.kind ≠ .endOfInput) : Spans cursor (word.span.upTo name.span) behind :=
  ⟨[word, name], reads, word, [name], name, rfl, inside,
    List.mem_cons_of_mem word (List.mem_singleton_self name), rfl⟩

theorem spans_spanFrom {taken : List Token} (reads : cursor.Reads (word :: taken) behind)
    (inside : word.kind ≠ .endOfInput) : Spans cursor (behind.spanFrom word.span) behind :=
  ⟨word :: taken, reads, reads.covered inside⟩

/-- A deferred call starts with the word before it. -/
theorem Spans.prepend (spans : Spans middle span behind) (reads : cursor.Reads [word] middle)
    (inside : word.kind ≠ .endOfInput) : Spans cursor (word.span.upTo span) behind := by
  obtain ⟨taken, reads', first, more, last, rfl, _, ends, rfl⟩ := spans
  exact ⟨word :: first :: more, reads.trans reads', word, first :: more, last, rfl, inside,
    List.mem_cons_of_mem word ends, rfl⟩

theorem reads_bump (seen : cursor.current.kind = kind) (inside : kind ≠ .endOfInput) :
    Yields bump cursor fun token behind =>
      cursor.Reads [token] behind ∧ token.kind ≠ .endOfInput := by
  intro token behind read
  cases read
  exact ⟨Cursor.reads_moved (rest_eq_of_kind seen inside), seen ▸ inside⟩

theorem reads_expect {complaint : Complaint} (inside : kind ≠ .endOfInput) :
    Yields (expect kind complaint) cursor fun token behind => cursor.Reads [token] behind := by
  intro token behind read
  unfold expect at read
  split at read
  · next sees =>
    have seen : cursor.current.kind = kind := by simpa [Cursor.sees] using sees
    exact (reads_bump seen inside token behind read).1
  · cases read

theorem yields_here :
    Yields Parser.cursor cursor fun value behind => value = cursor ∧ behind = cursor := by
  intro value behind read
  cases read
  exact ⟨rfl, rfl⟩

theorem spans_endLine {α : Type} {what : String} {value : α} {spanOf : α → Span}
    (spans : Spans cursor (spanOf value) middle) :
    Yields (do endLine what; pure value) middle fun found behind =>
      Spans cursor (spanOf found) behind := by
  refine (proceeds_endLine what middle).bind fun _ behind ⟨more, reads⟩ => ?_
  exact yields_pure (spans.proceed reads)

theorem spans_countedLoop (seen : cursor.current.kind = .forWord) :
    Yields (countedLoop depth) cursor fun found behind => Spans cursor found.1.span behind := by
  refine (reads_bump seen (by decide)).bind fun word first ⟨reads, inside⟩ => ?_
  refine (proceeds_bound _ first).bind fun start second ⟨started, reads'⟩ => ?_
  refine (proceeds_bound _ second).bind fun step third ⟨stepped, reads''⟩ => ?_
  refine (proceeds_bound _ third).bind fun stop fourth ⟨stopped, reads'''⟩ => ?_
  refine yields_here.bind fun _ _ ⟨same, same'⟩ => ?_
  subst same same'
  have all := ((reads.trans reads').trans reads'').trans reads'''
  exact spans_endLine (spans_spanFrom all inside)

theorem spans_endlessLoop (seen : cursor.current.kind = .loopWord) :
    Yields (endlessLoop depth) cursor fun found behind => Spans cursor found.1.span behind := by
  refine (reads_bump seen (by decide)).bind fun word middle ⟨reads, inside⟩ => ?_
  exact spans_endLine (spans_word reads inside)

theorem spans_endLoop (seen : cursor.current.kind = .endWord) :
    Yields (endLoop depth) cursor fun found behind => Spans cursor found.1.span behind := by
  cases depth with
  | zero => exact yields_fail
  | succ depth =>
    refine (reads_bump seen (by decide)).bind fun word middle ⟨reads, inside⟩ => ?_
    exact spans_endLine (spans_word reads inside)

theorem spans_loopExit (seen : cursor.current.kind = kind) (inside : kind ≠ .endOfInput) :
    Yields (loopExit depth) cursor fun found behind => Spans cursor found.span behind := by
  refine yields_if rfl (fun _ => yields_fail) fun _ => ?_
  refine (reads_bump seen inside).bind fun word middle ⟨reads, inside⟩ => ?_
  exact spans_endLine (spans_word reads inside)

theorem spans_jump {which : Jump} (seen : cursor.current.kind = .jump which) :
    Yields jump cursor fun found behind => Spans cursor found.span behind := by
  refine (reads_bump seen (by simp)).bind fun word middle ⟨reads, inside⟩ => ?_
  unfold jumpFrom
  split
  · refine (reads_expect (by decide)).bind fun target behind reads' => ?_
    exact spans_endLine (spans_upTo (reads.trans reads') inside)
  · exact yields_failAt

theorem spans_takeLocal (seen : cursor.current.kind = .localWord) :
    Yields takeLocal cursor fun found behind => Spans cursor found.span behind := by
  refine (reads_bump seen (by decide)).bind fun word middle ⟨reads, inside⟩ => ?_
  refine (reads_expect (by decide)).bind fun name behind reads' => ?_
  exact spans_endLine (spans_upTo (reads.trans reads') inside)

theorem spans_reduce (seen : cursor.current.kind = .reduceWord) :
    Yields reduce cursor fun found behind => Spans cursor found.span behind := by
  refine (reads_bump seen (by decide)).bind fun word middle ⟨reads, inside⟩ => ?_
  refine (reads_expect (by decide)).bind fun name behind reads' => ?_
  unfold reduceFrom
  split
  · exact yields_failAt
  · exact spans_endLine (spans_upTo (reads.trans reads') inside)

theorem spans_label (seen : cursor.current.kind = .identifier) :
    Yields label cursor fun found behind => Spans cursor found.span behind := by
  refine yields_if rfl (fun _ => yields_fail) fun _ => ?_
  refine (reads_bump seen (by decide)).bind fun word first ⟨reads, inside⟩ => ?_
  refine (proceeds_bump first).bind fun colon second ⟨more, reads'⟩ => ?_
  refine yields_here.bind fun _ _ ⟨same, same'⟩ => ?_
  subst same same'
  exact spans_endLine (spans_spanFrom (reads.trans reads') inside)

theorem spans_leave (seen : cursor.current.kind = .returnWord) :
    Yields leave cursor fun found behind => Spans cursor found.span behind := by
  refine (reads_bump seen (by decide)).bind fun word middle ⟨reads, inside⟩ => ?_
  exact spans_endLine (spans_word reads inside)

theorem spans_pushIterator (seen : cursor.current.kind = .dollar) :
    Yields (pushIterator depth) cursor fun found behind => Spans cursor found.span behind := by
  cases depth with
  | zero => exact yields_fail
  | succ depth =>
    refine (reads_bump seen (by decide)).bind fun word middle ⟨reads, inside⟩ => ?_
    exact spans_endLine (spans_word reads inside)

theorem spans_inlineC (seen : cursor.current.kind = .inlineC) :
    Yields inlineC cursor fun found behind => Spans cursor found.span behind := by
  refine (reads_bump seen (by decide)).bind fun block behind ⟨reads, inside⟩ => ?_
  exact yields_pure (spans_word reads inside)

/-- The line end behind a call is read after its span is made. -/
theorem spans_call {looped : Bool} (seen : cursor.current.kind = .identifier) :
    Yields (call looped) cursor fun found behind => Spans cursor found.span behind := by
  refine (reads_bump seen (by decide)).bind fun word first ⟨reads, inside⟩ => ?_
  refine (proceeds_qualified word first).bind fun _ second ⟨spelled, reads'⟩ => ?_
  refine (proceeds_arguments looped second).bind fun _ third ⟨given, reads''⟩ => ?_
  refine yields_here.bind fun _ _ ⟨same, same'⟩ => ?_
  subst same same'
  have spans := spans_spanFrom ((reads.trans reads').trans reads'') inside
  refine (proceeds_skip .newLine _).bind fun _ behind ⟨more, reads'''⟩ => ?_
  exact yields_pure (spans.proceed reads''')

theorem spans_deferFrom (reads : cursor.Reads [word] middle) (inside : word.kind ≠ .endOfInput) :
    Yields (deferFrom word) middle fun found behind => Spans cursor found.span behind := by
  refine yields_if rfl (fun seen => ?_) fun _ => yields_fail
  have seen : middle.current.kind = .identifier := by simpa [Cursor.sees] using seen
  refine (spans_call seen).bind fun called behind spans => ?_
  exact yields_pure (spans.prepend reads inside)

end Lines

/-! ### Bodies and declarations -/

section Bodies

variable {cursor : Cursor} {depth : Nat}

def Steps (cursor : Cursor) (step : BodyStep) (behind : Cursor) : Prop :=
  match step with
  | .closed => ∃ closing, cursor.Reads [closing] behind
  | .blank => ∃ taken, cursor.Reads taken behind
  | .item item _ => Spans cursor item.statement.span behind

theorem steps_flat {step : Parser Statement}
    (spans : Yields step cursor fun found behind => Spans cursor found.span behind) :
    Yields (flat depth step) cursor (Steps cursor) :=
  spans.bind fun _ _ spans => yields_pure spans

theorem steps_nested {step : Parser Nested}
    (spans : Yields step cursor fun found behind => Spans cursor found.1.span behind) :
    Yields (nested step) cursor (Steps cursor) :=
  spans.bind fun _ _ spans => yields_pure spans

theorem steps_bodyStep : Yields (bodyStep depth) cursor (Steps cursor) := by
  change Yields (bodyStepOf depth cursor.current (cursor.ahead 1)) cursor _
  unfold bodyStepOf
  split
  case h_1 seen => exact (proceeds_bump cursor).bind fun _ _ reads => yields_pure reads
  case h_2 seen => exact (proceeds_comment cursor).bind fun _ _ reads => yields_pure reads
  case h_3 seen =>
    split
    · refine (reads_bump seen (by decide)).bind fun closing behind ⟨reads, _⟩ => ?_
      exact yields_pure ⟨closing, reads⟩
    · exact yields_fail
  case h_9 seen => exact steps_flat (spans_inlineC seen)
  case h_10 seen =>
    split
    · exact steps_flat (spans_label seen)
    · exact steps_flat (spans_call seen)
  case h_11 seen =>
    refine (reads_bump seen (by decide)).bind fun word middle ⟨reads, inside⟩ => ?_
    exact (spans_deferFrom reads inside).bind fun _ _ spans => yields_pure spans
  case h_12 seen => exact steps_flat (spans_leave seen)
  case h_13 seen => exact steps_flat (spans_pushIterator seen)
  case h_14 seen => exact steps_nested (spans_countedLoop seen)
  case h_15 seen => exact steps_nested (spans_endlessLoop seen)
  case h_16 seen => exact steps_nested (spans_endLoop seen)
  case h_17 seen => exact steps_flat (spans_loopExit seen (by decide))
  case h_18 seen => exact steps_flat (spans_loopExit seen (by decide))
  case h_19 seen => exact steps_flat (spans_jump seen)
  case h_20 seen => exact steps_flat (spans_takeLocal seen)
  case h_21 seen => exact steps_flat (spans_reduce seen)
  all_goals exact yields_fail

/-- The items of a body are laid over the tokens up to its closing brace. -/
theorem laid_bodyItems :
    Yields (bodyItems depth) cursor fun items behind =>
      ∃ inside closing, cursor.Reads (inside ++ [closing]) behind ∧
        Laid inside (items.map BodyItem.statement) := by
  intro items behind read
  -- The closing brace is what the last step reads, so it stays out of the tokens of the items.
  fun_induction bodyItems depth cursor generalizing items behind with
  | case1 => cases read
  | case2 depth cursor middle stepped =>
    cases read
    obtain ⟨closing, reads⟩ := steps_bodyStep _ _ stepped
    exact ⟨[], closing, reads, .none⟩
  | case3 depth cursor middle stepped shorter =>
    obtain ⟨skipped, reads⟩ := steps_bodyStep _ _ stepped
    obtain ⟨inside, closing, reads', laid⟩ := shorter items behind read
    refine ⟨skipped ++ inside, closing, ?_, .skip skipped laid⟩
    rw [List.append_assoc]
    exact reads.trans reads'
  | case4 => cases read
  | case5 depth cursor item inner middle stepped more finished followed shorter =>
    cases read
    obtain ⟨taken, reads, covered⟩ := steps_bodyStep _ _ stepped
    obtain ⟨inside, closing, reads', laid⟩ := shorter more finished followed
    refine ⟨taken ++ inside, closing, ?_, .statement covered laid⟩
    rw [List.append_assoc]
    exact reads.trans reads'

end Bodies

/-- A body over some tokens: its span goes from brace to brace, its statements come from the items in
between, and these are laid over the tokens in between. -/
def Enclosed (tokens : List Token) (span : Span) (inner : List Statement) : Prop :=
  ∃ front brace inside closing rest items, tokens = front ++ brace :: (inside ++ closing :: rest) ∧
    span = brace.span.upTo closing.span ∧ inner = replay [] items ∧
    Grammar.Body 0 (inside ++ closing :: rest) rest items ∧
    Laid inside (items.map BodyItem.statement)

theorem Enclosed.prepend {tokens : List Token} {span : Span} {inner : List Statement}
    (enclosed : Enclosed tokens span inner) (taken : List Token) :
    Enclosed (taken ++ tokens) span inner := by
  obtain ⟨front, brace, inside, closing, rest, items, rfl, others⟩ := enclosed
  exact ⟨taken ++ front, brace, inside, closing, rest, items, (List.append_assoc ..).symm, others⟩

section Declarations

variable {cursor behind : Cursor}

structure Declares (cursor : Cursor) (statements : List Statement) (behind : Cursor) : Prop where
  laid : ∃ taken, cursor.Reads taken behind ∧ Laid taken statements
  enclosed : ∀ statement ∈ statements, ∀ inner, statement.action = .body inner →
    Enclosed cursor.rest statement.span inner

theorem declares_blank {taken : List Token} (reads : cursor.Reads taken behind) :
    Declares cursor [] behind :=
  ⟨⟨taken, reads, .none⟩, List.forall_mem_nil _⟩

theorem Declares.append {middle : Cursor} {statements others : List Statement}
    (declares : Declares cursor statements middle) (later : Declares middle others behind) :
    Declares cursor (statements ++ others) behind := by
  obtain ⟨⟨taken, reads, laid⟩, enclosed⟩ := declares
  obtain ⟨⟨more, reads', laid'⟩, enclosed'⟩ := later
  refine ⟨⟨taken ++ more, reads.trans reads', laid.append laid'⟩, ?_⟩
  intro statement member inner opened
  rcases List.mem_append.mp member with here | there
  · exact enclosed statement here inner opened
  · rw [reads.rest]
    exact (enclosed' statement there inner opened).prepend taken

theorem declares_single {statement : Statement} (spans : Spans cursor statement.span behind)
    (flat : ∀ inner, statement.action ≠ .body inner) : Declares cursor [statement] behind := by
  obtain ⟨taken, reads, covered⟩ := spans
  exact ⟨⟨taken, reads, covered.laid⟩, List.forall_mem_singleton.mpr fun inner opened =>
    absurd opened (flat inner)⟩

theorem declares_use (seen : cursor.current.kind = .useWord) :
    Yields use cursor fun found behind => Declares cursor [found] behind := by
  refine (reads_bump seen (by decide)).bind fun word first ⟨reads, inside⟩ => ?_
  refine (reads_expect (by decide)).bind fun module second reads' => ?_
  refine yields_here.bind fun _ _ ⟨same, same'⟩ => ?_
  subst same same'
  have spans := spans_spanFrom (reads.trans reads') inside
  exact yields_pure (declares_single spans fun _ opened => Action.noConfusion opened)

theorem declares_const (seen : cursor.current.kind = .constWord) :
    Yields const cursor fun found behind => Declares cursor [found] behind := by
  refine (reads_bump seen (by decide)).bind fun word first ⟨reads, inside⟩ => ?_
  refine (reads_expect (by decide)).bind fun name second reads' => ?_
  refine (reads_expect (by decide)).bind fun number third reads'' => ?_
  refine yields_here.bind fun _ _ ⟨same, same'⟩ => ?_
  subst same same'
  have spans := spans_spanFrom ((reads.trans reads').trans reads'') inside
  exact yields_pure (declares_single spans fun _ opened => Action.noConfusion opened)

theorem declares_inlineC (seen : cursor.current.kind = .inlineC) :
    Yields inlineC cursor fun found behind => Declares cursor [found] behind := by
  intro found behind read
  refine declares_single (spans_inlineC seen found behind read) ?_
  obtain ⟨block, _, _, rfl⟩ := yields_inlineC seen found behind read
  exact fun _ opened => Action.noConfusion opened

theorem reads_openBody :
    Yields openBody cursor fun brace behind =>
      cursor.Reads [brace] behind ∧ brace.kind ≠ .endOfInput := by
  intro brace behind read
  have reads := reads_expect (by decide) brace behind read
  obtain ⟨_, opens⟩ := yields_openBody brace behind read
  exact ⟨reads, by rw [opens]; decide⟩

theorem declares_body {brace : Token} {middle : Cursor} (reads : cursor.Reads [brace] middle)
    (inside : brace.kind ≠ .endOfInput) :
    Yields body middle fun statements behind =>
      Declares cursor [⟨.body statements, behind.spanFrom brace.span⟩] behind := by
  intro statements behind read
  obtain ⟨items, finished, listed, replayed⟩ := bind_eq_ok read
  cases replayed
  obtain ⟨between, closing, reads', laid⟩ := laid_bodyItems items behind listed
  have shape := yields_bodyItems items behind listed
  have all : cursor.Reads (brace :: (between ++ [closing])) behind := reads.trans reads'
  have spanned : behind.spanFrom brace.span = brace.span.upTo closing.span :=
    all.spanFrom_last (brace :: between) brace.span
  have held : middle.rest = between ++ closing :: behind.rest := by
    rw [reads'.rest, List.append_assoc, List.singleton_append]
  refine ⟨?_, ?_⟩
  · exact ⟨_, all, (all.covered inside).laid⟩
  · refine List.forall_mem_singleton.mpr fun inner opened => ?_
    cases opened
    rw [held] at shape
    exact ⟨[], brace, between, closing, behind.rest, items, by rw [reads.rest, held]; rfl, spanned,
      rfl, shape, laid⟩

theorem declares_function (seen : cursor.current.kind = .fnWord) :
    Yields function cursor fun found behind => Declares cursor [found.1, found.2] behind := by
  refine (reads_bump seen (by decide)).bind fun word first ⟨reads, inside⟩ => ?_
  refine (reads_expect (by decide)).bind fun name second reads' => ?_
  refine (reads_expect (by decide)).bind fun opening third reads'' => ?_
  refine (proceeds_parameters third).bind fun names fourth ⟨listed, reads'''⟩ => ?_
  refine yields_here.bind fun _ _ ⟨same, same'⟩ => ?_
  subst same same'
  have spans := spans_spanFrom (((reads.trans reads').trans reads'').trans reads''') inside
  -- The line ends before the brace are read between the two statements.
  refine (proceeds_skipNewLines _).bind fun _ fifth ⟨skipped, reads''''⟩ => ?_
  have declared : Declares cursor [⟨.function name.literal names, _⟩] fifth :=
    declares_single (spans.proceed reads'''') fun _ opened => Action.noConfusion opened
  refine reads_openBody.bind fun brace sixth ⟨opened, inside'⟩ => ?_
  refine (declares_body opened inside').bind fun statements behind followed => ?_
  refine yields_here.bind fun _ _ ⟨same, same'⟩ => ?_
  subst same same'
  exact yields_pure (declared.append followed)

theorem declares_declaration :
    Yields declaration cursor fun found behind => Declares cursor found behind := by
  change Yields (declarationOf cursor.current) cursor _
  unfold declarationOf
  split
  case h_1 => exact (proceeds_bump cursor).bind fun _ _ ⟨_, reads⟩ => yields_pure (declares_blank reads)
  case h_2 =>
    exact (proceeds_comment cursor).bind fun _ _ ⟨_, reads⟩ => yields_pure (declares_blank reads)
  case h_3 seen => exact (declares_use seen).bind fun _ _ declares => yields_pure declares
  case h_4 seen => exact (declares_function seen).bind fun _ _ declares => yields_pure declares
  case h_5 seen => exact (declares_const seen).bind fun _ _ declares => yields_pure declares
  case h_6 seen => exact (declares_inlineC seen).bind fun _ _ declares => yields_pure declares
  case h_7 => exact yields_fail

theorem declares_topLevel :
    Yields topLevel cursor fun statements behind => Declares cursor statements behind := by
  intro statements behind read
  fun_induction topLevel cursor generalizing statements behind with
  | case1 cursor =>
    cases read
    exact declares_blank (.none cursor)
  | case2 => cases read
  | case3 => cases read
  | case4 cursor _ found middle stepped more finished followed shorter =>
    cases read
    exact (declares_declaration _ _ stepped).append (shorter more finished followed)

end Declarations

end Parser

end StackLang
