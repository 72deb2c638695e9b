import StackLang.Proofs.Grammar

/-! What the parser reads has the shapes of the grammar. A line that is ended by the end of the
input has none of them, so a step is looked at where more tokens follow; inside a body that is
read to its brace this is always so. -/
namespace StackLang.Parser

open Grammar
open Text (Span)

/-- What holds of a value that a step yields at a cursor, and of the cursor behind it. -/
def Yields {α : Type} (step : Parser α) (cursor : Cursor) (post : α → Cursor → Prop) : Prop :=
  ∀ value behind, step cursor = (.ok value, behind) → post value behind

section Steps

variable {α β : Type} {cursor : Cursor} {kind : TokenKind}

theorem Yields.bind {step : Parser α} {next : α → Parser β} {middle : α → Cursor → Prop}
    {post : β → Cursor → Prop} (first : Yields step cursor middle)
    (second : ∀ value behind, middle value behind → Yields (next value) behind post) :
    Yields (step >>= next) cursor post := by
  intro value behind read
  obtain ⟨found, between, stepped, followed⟩ := bind_eq_ok read
  exact second found between (first found between stepped) value behind followed

theorem yields_pure {value : α} {post : α → Cursor → Prop} (holds : post value cursor) :
    Yields (pure value) cursor post := by
  intro found behind read
  cases read
  exact holds

theorem yields_fail {complaint : Complaint} {post : α → Cursor → Prop} :
    Yields (fail complaint) cursor post := by
  intro value behind read
  cases read

theorem yields_failAt {complaint : Complaint} {span : Span} {post : α → Cursor → Prop} :
    Yields (failAt complaint span) cursor post := by
  intro value behind read
  cases read

theorem yields_if {condition : Prop} [Decidable condition] {step yes no : Parser α}
    {post : α → Cursor → Prop}
    (chosen : step cursor = if condition then yes cursor else no cursor)
    (first : condition → Yields yes cursor post) (second : ¬condition → Yields no cursor post) :
    Yields step cursor post := by
  intro value behind read
  rw [chosen] at read
  split at read
  · next holds => exact first holds value behind read
  · next fails => exact second fails value behind read

theorem yields_cursor : Yields Parser.cursor cursor fun _ behind => behind = cursor := by
  intro value behind read
  cases read
  rfl

/-- Before a token of any kind but an end of input, this token is the next one. -/
theorem rest_eq_of_kind (seen : cursor.current.kind = kind) (inside : kind ≠ .endOfInput) :
    cursor.rest = cursor.current :: cursor.moved.rest := by
  have more := rest_ne_nil_of_kind seen inside
  unfold Cursor.current Cursor.moved
  cases read : cursor.rest with
  | nil => exact absurd read more
  | cons token rest => rfl

theorem yields_current (seen : cursor.current.kind = kind) (inside : kind ≠ .endOfInput) :
    Yields bump cursor fun token behind =>
      token = cursor.current ∧ behind = cursor.moved ∧ cursor.rest = token :: behind.rest := by
  intro token behind read
  cases read
  exact ⟨rfl, rfl, rest_eq_of_kind seen inside⟩

theorem yields_bump (seen : cursor.current.kind = kind) (inside : kind ≠ .endOfInput) :
    Yields bump cursor fun token behind =>
      cursor.rest = token :: behind.rest ∧ token.kind = kind := by
  intro token behind read
  obtain ⟨rfl, rfl, taken⟩ := yields_current seen inside token behind read
  exact ⟨taken, seen⟩

theorem yields_expect {complaint : Complaint} (inside : kind ≠ .endOfInput) :
    Yields (expect kind complaint) cursor fun token behind =>
      cursor.rest = token :: behind.rest ∧ token.kind = kind := by
  intro token behind read
  unfold expect at read
  split at read
  · next seen => exact yields_bump (by simpa [Cursor.sees] using seen) inside token behind read
  · cases read

theorem yields_skip (inside : kind ≠ .endOfInput) :
    Yields (skip kind) cursor fun found behind =>
      if found then ∃ token, cursor.rest = token :: behind.rest ∧ token.kind = kind
      else behind = cursor ∧ cursor.sees kind = false := by
  intro found behind read
  unfold skip at read
  split at read
  · next seen =>
    have seen : cursor.current.kind = kind := by simpa [Cursor.sees] using seen
    cases read
    exact ⟨_, rest_eq_of_kind seen inside, seen⟩
  · next unseen =>
    cases read
    exact ⟨rfl, by simpa using unseen⟩

/-- A line end is read where there is one; otherwise a brace stays. -/
theorem yields_skip_newLine (ended : cursor.atTerminator = true) :
    Yields (skip .newLine) cursor fun _ behind =>
      behind.atEnd = false → LineEnd cursor.rest behind.rest := by
  intro found behind read more
  have skipped := yields_skip (by decide) found behind read
  cases found with
  | true =>
    obtain ⟨token, taken, seen⟩ := skipped
    rw [taken]
    exact .newLine seen
  | false =>
    obtain ⟨rfl, unread⟩ := skipped
    have unended : behind.sees .endOfInput = false := more
    have braced : behind.sees .rightBrace = true := by
      simpa only [Cursor.atTerminator, unread, unended, Bool.false_or, Bool.or_false] using ended
    have seen : behind.current.kind = .rightBrace := by simpa [Cursor.sees] using braced
    rw [rest_eq_of_kind seen (by decide)]
    exact .brace seen

theorem yields_endLine {what : String} :
    Yields (endLine what) cursor fun _ behind =>
      behind.atEnd = false → LineEnd cursor.rest behind.rest := by
  intro value behind read
  unfold endLine at read
  split at read
  · next ended =>
    split at read
    · next seen =>
      have skipped : skip .newLine cursor = (.ok true, behind) := by cases read; simp [skip, seen]
      exact yields_skip_newLine ended _ _ skipped
    · next unseen =>
      have skipped : skip .newLine cursor = (.ok false, behind) := by
        cases read
        simp [skip, unseen]
      exact yields_skip_newLine ended _ _ skipped
  · cases read

theorem yields_comment (seen : cursor.current.kind = .commentBegin) :
    Yields comment cursor fun _ behind =>
      ∃ opening closing, cursor.rest = opening :: closing :: behind.rest ∧
        opening.kind = .commentBegin ∧ closing.kind = .commentEnd := by
  refine (yields_bump seen (by decide)).bind fun opening middle ⟨taken, opened⟩ => ?_
  refine (yields_skip (by decide)).bind fun closed behind skipped => ?_
  cases closed with
  | false => exact yields_failAt
  | true =>
    obtain ⟨closing, followed, closes⟩ := skipped
    exact yields_pure ⟨opening, closing, by rw [taken, followed], opened, closes⟩

end Steps

section Calls

variable {cursor : Cursor} {looped : Bool}

theorem yields_qualified {first : Token} (seen : first.kind = .identifier) :
    Yields (qualified first) cursor fun spelled behind =>
      Name (first :: cursor.rest) behind.rest spelled.1 spelled.2 := by
  refine (yields_skip (by decide)).bind fun separated middle skipped => ?_
  cases separated with
  | false =>
    obtain ⟨rfl, _⟩ := skipped
    exact yields_pure (.plain seen)
  | true =>
    obtain ⟨colons, taken, separates⟩ := skipped
    refine (yields_expect (by decide)).bind fun word behind ⟨followed, named⟩ => ?_
    rw [taken, followed]
    exact yields_pure (.qualified seen separates named)

theorem yields_argument :
    Yields (argument looped) cursor fun found behind =>
      Operand looped cursor.rest behind.rest found := by
  change Yields (argumentOf looped cursor.current) cursor _
  unfold argumentOf
  split
  · next seen =>
    refine (yields_bump seen (by decide)).bind fun token behind ⟨taken, kind⟩ => ?_
    rw [taken]
    exact yields_pure (.number kind)
  · next seen =>
    refine (yields_bump seen (by decide)).bind fun token behind ⟨taken, kind⟩ => ?_
    rw [taken]
    exact yields_pure (.string kind)
  · next seen =>
    refine (yields_bump seen (by decide)).bind fun first middle ⟨taken, kind⟩ => ?_
    refine (yields_qualified kind).bind fun spelled behind shape => ?_
    rw [taken]
    exact yields_pure (.named shape)
  · next seen =>
    refine (yields_bump seen (by decide)).bind fun mark middle ⟨taken, marked⟩ => ?_
    refine (yields_expect (by decide)).bind fun word behind ⟨followed, named⟩ => ?_
    rw [taken, followed]
    exact yields_pure (.address marked named)
  · next seen =>
    split
    · next inside =>
      refine (yields_bump seen (by decide)).bind fun token behind ⟨taken, kind⟩ => ?_
      rw [taken]
      exact yields_pure (.iterator kind inside)
    · exact yields_fail
  · exact yields_fail

/-- A comma, a comment or an operand stands in front of the other operands. -/
theorem yields_argumentItem :
    Yields (argumentItem looped) cursor fun found behind =>
      ∀ rest given, Operands looped behind.rest rest given →
        Operands looped cursor.rest rest (found.toList ++ given) := by
  change Yields (argumentItemOf looped cursor.current.kind) cursor _
  unfold argumentItemOf
  split
  · next seen =>
    refine (yields_bump seen (by decide)).bind fun token behind ⟨taken, kind⟩ => ?_
    refine yields_pure fun rest given more => ?_
    rw [taken]
    exact .comma kind more
  · next seen =>
    refine (yields_comment seen).bind fun _ behind ⟨opening, closing, taken, opened, closed⟩ => ?_
    refine yields_pure fun rest given more => ?_
    rw [taken]
    exact .comment opened closed more
  · refine yields_argument.bind fun found behind first => ?_
    exact yields_pure fun rest given more => .operand first more

theorem yields_arguments :
    Yields (arguments looped) cursor fun given behind =>
      Operands looped cursor.rest behind.rest given ∧ behind.atTerminator = true := by
  intro given behind read
  fun_induction arguments looped cursor generalizing given behind with
  | case1 cursor ended =>
    cases read
    exact ⟨.done, ended⟩
  | case2 => cases read
  | case3 => cases read
  | case4 cursor _ first middle stepped more finished followed shorter =>
    cases read
    obtain ⟨operands, ended⟩ := shorter more finished followed
    exact ⟨yields_argumentItem first middle stepped _ _ operands, ended⟩

theorem yields_callFrom {first : Token} (seen : first.kind = .identifier) :
    Yields (callFrom looped first) cursor fun statement behind =>
      behind.atEnd = false → Call looped (first :: cursor.rest) behind.rest statement.action := by
  refine (yields_qualified seen).bind fun spelled named shape => ?_
  refine yields_arguments.bind fun given listed ⟨operands, ended⟩ => ?_
  refine yields_cursor.bind fun _ here stayed => ?_
  subst stayed
  refine (yields_skip_newLine ended).bind fun _ behind closed => ?_
  exact yields_pure fun more => .line shape operands (closed more)

theorem yields_call (seen : cursor.current.kind = .identifier) :
    Yields (call looped) cursor fun statement behind =>
      behind.atEnd = false → Call looped cursor.rest behind.rest statement.action := by
  refine (yields_bump seen (by decide)).bind fun first middle ⟨taken, kind⟩ => ?_
  rw [taken]
  exact yields_callFrom kind

theorem yields_bound :
    Yields (bound looped) cursor fun found behind =>
      Bound looped cursor.rest behind.rest found := by
  refine yields_if rfl (fun _ => yields_fail) fun _ => ?_
  refine yields_argument.bind fun found behind operand => ?_
  cases found with
  | string => exact yields_failAt
  | address => exact yields_failAt
  | number => exact yields_pure ⟨operand, rfl⟩
  | named => exact yields_pure ⟨operand, rfl⟩
  | iterator => exact yields_pure ⟨operand, rfl⟩

end Calls

section Lines

variable {cursor : Cursor} {depth : Nat}

/-- The shape of a statement, if more tokens follow it. -/
def LineAt (depth : Nat) (cursor behind : Cursor) (statement : Statement) (inner : Nat) : Prop :=
  behind.atEnd = false → Line depth cursor.rest behind.rest statement.action inner

theorem yields_countedLoop (seen : cursor.current.kind = .forWord) :
    Yields (countedLoop depth) cursor fun found behind =>
      LineAt depth cursor behind found.1 found.2 := by
  refine (yields_bump seen (by decide)).bind fun word first ⟨taken, kind⟩ => ?_
  refine yields_bound.bind fun start second started => ?_
  refine yields_bound.bind fun step third stepped => ?_
  refine yields_bound.bind fun stop fourth stopped => ?_
  refine yields_cursor.bind fun _ here stayed => ?_
  subst stayed
  refine yields_endLine.bind fun _ behind ended => ?_
  refine yields_pure fun more => ?_
  rw [taken]
  exact .countedLoop kind started stepped stopped (ended more)

theorem yields_endlessLoop (seen : cursor.current.kind = .loopWord) :
    Yields (endlessLoop depth) cursor fun found behind =>
      LineAt depth cursor behind found.1 found.2 := by
  refine (yields_bump seen (by decide)).bind fun word middle ⟨taken, kind⟩ => ?_
  refine yields_endLine.bind fun _ behind ended => ?_
  refine yields_pure fun more => ?_
  rw [taken]
  exact .endlessLoop kind (ended more)

theorem yields_endLoop (seen : cursor.current.kind = .endWord) :
    Yields (endLoop depth) cursor fun found behind =>
      LineAt depth cursor behind found.1 found.2 := by
  cases depth with
  | zero => exact yields_fail
  | succ outer =>
    refine (yields_bump seen (by decide)).bind fun word middle ⟨taken, kind⟩ => ?_
    refine yields_endLine.bind fun _ behind ended => ?_
    refine yields_pure fun more => ?_
    rw [taken]
    exact .endLoop kind (ended more)

theorem yields_loopExit {kind : TokenKind} (seen : cursor.current.kind = kind)
    (leaving : kind = .breakWord ∨ kind = .continueWord) :
    Yields (loopExit depth) cursor fun found behind => LineAt depth cursor behind found depth := by
  refine yields_if rfl (fun _ => yields_fail) fun inside => ?_
  have inside : 0 < depth := Nat.pos_of_ne_zero inside
  have inner : kind ≠ .endOfInput := by rintro rfl; simp at leaving
  refine (yields_bump seen inner).bind fun word middle ⟨taken, kinds⟩ => ?_
  refine yields_endLine.bind fun _ behind ended => ?_
  refine yields_pure fun more => ?_
  rw [taken]
  rcases leaving with rfl | rfl
  · rw [show exitOf word.kind = .breakLoop by simp [exitOf, kinds]]
    exact .breakLoop kinds inside (ended more)
  · rw [show exitOf word.kind = .continueLoop by simp [exitOf, kinds]]
    exact .continueLoop kinds inside (ended more)

theorem yields_jump {which : Jump} (seen : cursor.current.kind = .jump which) :
    Yields jump cursor fun found behind => LineAt depth cursor behind found depth := by
  refine (yields_bump seen (by simp)).bind fun word middle ⟨taken, kind⟩ => ?_
  unfold jumpFrom
  rw [kind]
  refine (yields_expect (by decide)).bind fun target after ⟨followed, aimed⟩ => ?_
  refine yields_endLine.bind fun _ behind ended => ?_
  refine yields_pure fun more => ?_
  rw [taken, followed]
  exact .jump kind aimed (ended more)

theorem yields_takeLocal (seen : cursor.current.kind = .localWord) :
    Yields takeLocal cursor fun found behind => LineAt depth cursor behind found depth := by
  refine (yields_bump seen (by decide)).bind fun word middle ⟨taken, kind⟩ => ?_
  refine (yields_expect (by decide)).bind fun name after ⟨followed, named⟩ => ?_
  refine yields_endLine.bind fun _ behind ended => ?_
  refine yields_pure fun more => ?_
  rw [taken, followed]
  exact .takeLocal kind named (ended more)

theorem yields_reduce (seen : cursor.current.kind = .reduceWord) :
    Yields reduce cursor fun found behind => LineAt depth cursor behind found depth := by
  refine (yields_bump seen (by decide)).bind fun word middle ⟨taken, kind⟩ => ?_
  refine (yields_expect (by decide)).bind fun name after ⟨followed, named⟩ => ?_
  unfold reduceFrom
  split
  · exact yields_failAt
  · next reduction chosen =>
    refine yields_endLine.bind fun _ behind ended => ?_
    refine yields_pure fun more => ?_
    rw [taken, followed]
    exact .reduce kind named chosen (ended more)

theorem sentinel_moved (cursor : Cursor) : cursor.moved.sentinel = cursor.sentinel := by
  unfold Cursor.moved
  split <;> rfl

/-- Behind a token the one that was next to it is current. -/
theorem current_moved {kind : TokenKind} (seen : cursor.current.kind = kind)
    (inside : kind ≠ .endOfInput) : cursor.moved.current = cursor.ahead 1 := by
  rw [Cursor.ahead, rest_eq_of_kind seen inside, List.getElem?_cons_succ, Cursor.current,
    sentinel_moved, List.headD_eq_head?_getD, List.head?_eq_getElem?]

theorem yields_label (seen : cursor.current.kind = .identifier)
    (marked : (cursor.ahead 1).kind = .colon) :
    Yields label cursor fun found behind => LineAt depth cursor behind found depth := by
  refine yields_if rfl (fun _ => yields_fail) fun free => ?_
  have free : cursor.current.literal ∉ reservedLabels := by simpa using free
  refine (yields_current seen (by decide)).bind fun word middle ⟨read, moved, taken⟩ => ?_
  subst read moved
  have coloned : cursor.moved.current.kind = .colon := by
    rw [current_moved seen (by decide), marked]
  refine (yields_bump coloned (by decide)).bind fun colon after ⟨followed, colons⟩ => ?_
  refine yields_cursor.bind fun _ here stayed => ?_
  subst stayed
  refine yields_endLine.bind fun _ behind ended => ?_
  refine yields_pure fun more => ?_
  rw [taken, followed]
  exact .label seen colons free (ended more)

theorem yields_leave (seen : cursor.current.kind = .returnWord) :
    Yields leave cursor fun found behind => LineAt depth cursor behind found depth := by
  refine (yields_bump seen (by decide)).bind fun word middle ⟨taken, kind⟩ => ?_
  refine yields_endLine.bind fun _ behind ended => ?_
  refine yields_pure fun more => ?_
  rw [taken]
  exact .leave kind (ended more)

theorem yields_pushIterator (seen : cursor.current.kind = .dollar) :
    Yields (pushIterator depth) cursor fun found behind =>
      LineAt depth cursor behind found depth := by
  cases depth with
  | zero => exact yields_fail
  | succ outer =>
    refine (yields_bump seen (by decide)).bind fun word middle ⟨taken, kind⟩ => ?_
    refine yields_endLine.bind fun _ behind ended => ?_
    refine yields_pure fun more => ?_
    rw [taken]
    exact .pushIterator kind (Nat.succ_pos outer) (ended more)

theorem yields_inlineC (seen : cursor.current.kind = .inlineC) :
    Yields inlineC cursor fun found behind =>
      ∃ block, cursor.rest = block :: behind.rest ∧ block.kind = .inlineC ∧
        found = ⟨.inlineC block.literal, block.span⟩ := by
  refine (yields_bump seen (by decide)).bind fun block behind ⟨taken, kind⟩ => ?_
  exact yields_pure ⟨block, taken, kind, rfl⟩

end Lines

section Bodies

variable {cursor : Cursor} {depth : Nat}

theorem yields_deferFrom (word : Token) :
    Yields (deferFrom word) cursor fun statement behind =>
      behind.atEnd = false → Call false cursor.rest behind.rest statement.action := by
  refine yields_if rfl (fun seen => ?_) fun _ => yields_fail
  have seen : cursor.current.kind = .identifier := by simpa [Cursor.sees] using seen
  refine (yields_call seen).bind fun called behind shape => ?_
  exact yields_pure shape

/-- What a step through a body has read: the closing brace outside of any loop, a blank, or an
item if more tokens follow. -/
def StepAt (depth : Nat) (cursor : Cursor) : BodyStep → Cursor → Prop
  | .closed, behind =>
    depth = 0 ∧ ∃ brace, cursor.rest = brace :: behind.rest ∧ brace.kind = .rightBrace
  | .blank, behind => Blank cursor.rest behind.rest
  | .item item inner, behind =>
    behind.atEnd = false → Item depth cursor.rest behind.rest item inner

theorem yields_flat {step : Parser Statement}
    (line : Yields step cursor fun found behind => LineAt depth cursor behind found depth) :
    Yields (flat depth step) cursor (StepAt depth cursor) := by
  refine line.bind fun found behind shape => ?_
  exact yields_pure fun more => .plain (shape more)

theorem yields_nested {step : Parser Nested}
    (line : Yields step cursor fun found behind => LineAt depth cursor behind found.1 found.2) :
    Yields (nested step) cursor (StepAt depth cursor) := by
  refine line.bind fun found behind shape => ?_
  exact yields_pure fun more => .plain (shape more)

theorem yields_inlineLine (seen : cursor.current.kind = .inlineC) :
    Yields inlineC cursor fun found behind => LineAt depth cursor behind found depth := by
  intro found behind read _
  obtain ⟨block, taken, kind, rfl⟩ := yields_inlineC seen found behind read
  rw [taken]
  exact .inlineC kind

theorem yields_callLine (seen : cursor.current.kind = .identifier) :
    Yields (call (0 < depth)) cursor fun found behind =>
      LineAt depth cursor behind found depth := by
  intro found behind read more
  exact .call (yields_call seen found behind read more)

theorem yields_bodyStep : Yields (bodyStep depth) cursor (StepAt depth cursor) := by
  change Yields (bodyStepOf depth cursor.current (cursor.ahead 1)) cursor _
  unfold bodyStepOf
  split
  case h_1 seen =>
    refine (yields_bump seen (by decide)).bind fun token behind ⟨taken, kind⟩ => ?_
    exact yields_pure (show Blank _ _ from taken ▸ .newLine kind)
  case h_2 seen =>
    refine (yields_comment seen).bind fun _ behind ⟨opening, closing, taken, opened, closed⟩ => ?_
    exact yields_pure (show Blank _ _ from taken ▸ .comment opened closed)
  case h_3 seen =>
    split
    · next outside =>
      refine (yields_bump seen (by decide)).bind fun brace behind ⟨taken, kind⟩ => ?_
      exact yields_pure ⟨outside, brace, taken, kind⟩
    · exact yields_fail
  case h_9 seen => exact yields_flat (yields_inlineLine seen)
  case h_10 seen =>
    split
    · next marked => exact yields_flat (yields_label seen marked)
    · exact yields_flat (yields_callLine seen)
  case h_11 seen =>
    refine (yields_bump seen (by decide)).bind fun word middle ⟨taken, kind⟩ => ?_
    refine (yields_deferFrom word).bind fun called behind shape => ?_
    refine yields_pure fun more => ?_
    rw [taken]
    exact .deferred kind (shape more)
  case h_12 seen => exact yields_flat (yields_leave seen)
  case h_13 seen => exact yields_flat (yields_pushIterator seen)
  case h_14 seen => exact yields_nested (yields_countedLoop seen)
  case h_15 seen => exact yields_nested (yields_endlessLoop seen)
  case h_16 seen => exact yields_nested (yields_endLoop seen)
  case h_17 seen => exact yields_flat (yields_loopExit seen (.inl rfl))
  case h_18 seen => exact yields_flat (yields_loopExit seen (.inr rfl))
  case h_19 which seen => exact yields_flat (yields_jump seen)
  case h_20 seen => exact yields_flat (yields_takeLocal seen)
  case h_21 seen => exact yields_flat (yields_reduce seen)
  all_goals exact yields_fail

/-- No body is read from the end of the input. -/
theorem not_atEnd_of_bodyItems {behind : Cursor} {items : List BodyItem}
    (read : bodyItems depth cursor = (.ok items, behind)) : cursor.atEnd = false := by
  cases ended : cursor.atEnd with
  | false => rfl
  | true =>
    have seen : cursor.current.kind = .endOfInput := by
      simpa [Cursor.atEnd, Cursor.sees] using ended
    have failed : bodyStep depth cursor = (.error (cursor.complain .bodyNotClosed), cursor) := by
      simp only [bodyStep, bodyStepOf, seen]
      rfl
    rw [bodyItems] at read
    split at read
    · cases read
    all_goals
      next stepped => rw [failed] at stepped; cases stepped

theorem yields_bodyItems :
    Yields (bodyItems depth) cursor fun items behind =>
      Body depth cursor.rest behind.rest items := by
  intro items behind read
  fun_induction bodyItems depth cursor generalizing items behind with
  | case1 => cases read
  | case2 depth cursor middle stepped =>
    cases read
    obtain ⟨rfl, brace, taken, kind⟩ := yields_bodyStep _ _ stepped
    rw [taken]
    exact .close kind
  | case3 depth cursor middle stepped shorter =>
    exact .blank (yields_bodyStep _ _ stepped) (shorter items behind read)
  | case4 => cases read
  | case5 depth cursor item inner middle stepped more finished followed shorter =>
    cases read
    have inside := not_atEnd_of_bodyItems followed
    exact .item (yields_bodyStep _ _ stepped inside) (shorter more finished followed)

theorem yields_body :
    Yields body cursor fun statements behind =>
      ∃ items, statements = replay [] items ∧ Body 0 cursor.rest behind.rest items := by
  refine yields_bodyItems.bind fun items behind inside => ?_
  exact yields_pure ⟨items, rfl, inside⟩

end Bodies

section Declarations

variable {cursor : Cursor}

theorem yields_parameterStep :
    Yields parameterStep cursor fun step behind =>
      match step with
      | .closed => ∃ token, cursor.rest = token :: behind.rest ∧ token.kind = .rightParen
      | .blank => ∃ token, cursor.rest = token :: behind.rest ∧
          (token.kind = .newLine ∨ token.kind = .comma)
      | .name text => ∃ token, cursor.rest = token :: behind.rest ∧ token.kind = .identifier ∧
          token.literal = text := by
  change Yields (parameterStepOf cursor.current) cursor _
  unfold parameterStepOf
  split
  · next seen =>
    refine (yields_bump seen (by decide)).bind fun token behind ⟨taken, kind⟩ => ?_
    exact yields_pure ⟨token, taken, kind⟩
  · next seen =>
    refine (yields_bump seen (by decide)).bind fun token behind ⟨taken, kind⟩ => ?_
    exact yields_pure ⟨token, taken, .inl kind⟩
  · next seen =>
    refine (yields_bump seen (by decide)).bind fun token behind ⟨taken, kind⟩ => ?_
    exact yields_pure ⟨token, taken, .inr kind⟩
  · next seen =>
    refine (yields_bump seen (by decide)).bind fun token behind ⟨taken, kind⟩ => ?_
    exact yields_pure ⟨token, taken, kind, rfl⟩
  · exact yields_fail

theorem yields_parameters :
    Yields parameters cursor fun names behind => Parameters cursor.rest behind.rest names := by
  intro names behind read
  fun_induction parameters cursor generalizing names behind with
  | case1 => cases read
  | case2 cursor middle stepped =>
    cases read
    obtain ⟨token, taken, kind⟩ := yields_parameterStep _ _ stepped
    rw [taken]
    exact .close kind
  | case3 cursor middle stepped shorter =>
    obtain ⟨token, taken, kind⟩ := yields_parameterStep _ _ stepped
    rw [taken]
    exact .blank kind (shorter names behind read)
  | case4 => cases read
  | case5 cursor text middle stepped more finished followed shorter =>
    cases read
    obtain ⟨token, taken, kind, rfl⟩ := yields_parameterStep _ _ stepped
    rw [taken]
    exact .name kind (shorter more finished followed)

theorem newLines_newLinesFrom (tokens : List Token) :
    ∀ cursor, NewLines tokens (skipNewLines.newLinesFrom cursor tokens).rest := by
  induction tokens with
  | nil => intro cursor; exact .done
  | cons token rest shorter =>
    intro cursor
    unfold skipNewLines.newLinesFrom
    split
    · next seen => exact .newLine seen (shorter _)
    · exact .done

theorem yields_skipNewLines :
    Yields skipNewLines cursor fun _ behind => NewLines cursor.rest behind.rest := by
  intro value behind read
  cases read
  exact newLines_newLinesFrom cursor.rest cursor

theorem yields_openBody :
    Yields openBody cursor fun token behind =>
      cursor.rest = token :: behind.rest ∧ token.kind = .leftBrace := by
  intro token behind read
  exact yields_expect (by decide) token behind read

theorem yields_function (seen : cursor.current.kind = .fnWord) :
    Yields function cursor fun found behind =>
      Declaration cursor.rest behind.rest [found.1, found.2] := by
  refine (yields_bump seen (by decide)).bind fun word first ⟨taken, kind⟩ => ?_
  refine (yields_expect (by decide)).bind fun name second ⟨followed, named⟩ => ?_
  refine (yields_expect (by decide)).bind fun opening third ⟨behindName, opened⟩ => ?_
  refine yields_parameters.bind fun names fourth listed => ?_
  refine yields_cursor.bind fun _ here stayed => ?_
  subst stayed
  refine yields_skipNewLines.bind fun _ fifth skipped => ?_
  refine yields_openBody.bind fun brace sixth ⟨entering, entered⟩ => ?_
  refine yields_body.bind fun statements behind ⟨items, replayed, inside⟩ => ?_
  refine yields_cursor.bind fun _ here stayed => ?_
  subst stayed
  rw [taken, followed, behindName]
  rw [entering] at skipped
  subst replayed
  exact yields_pure (.function kind named opened listed skipped entered inside)

theorem yields_use (seen : cursor.current.kind = .useWord) :
    Yields use cursor fun found behind => Declaration cursor.rest behind.rest [found] := by
  refine (yields_bump seen (by decide)).bind fun word first ⟨taken, kind⟩ => ?_
  refine (yields_expect (by decide)).bind fun module second ⟨followed, found⟩ => ?_
  refine yields_cursor.bind fun _ here stayed => ?_
  subst stayed
  rw [taken, followed]
  exact yields_pure (.use kind found)

theorem yields_const (seen : cursor.current.kind = .constWord) :
    Yields const cursor fun found behind => Declaration cursor.rest behind.rest [found] := by
  refine (yields_bump seen (by decide)).bind fun word first ⟨taken, kind⟩ => ?_
  refine (yields_expect (by decide)).bind fun name second ⟨followed, named⟩ => ?_
  refine (yields_expect (by decide)).bind fun number third ⟨behindName, valued⟩ => ?_
  refine yields_cursor.bind fun _ here stayed => ?_
  subst stayed
  rw [taken, followed, behindName]
  exact yields_pure (.constant kind named valued)

theorem yields_declaration :
    Yields declaration cursor fun found behind => Declaration cursor.rest behind.rest found := by
  change Yields (declarationOf cursor.current) cursor _
  unfold declarationOf
  split
  · next seen =>
    refine (yields_bump seen (by decide)).bind fun token behind ⟨taken, kind⟩ => ?_
    exact yields_pure (.blank (taken ▸ .newLine kind))
  · next seen =>
    refine (yields_comment seen).bind fun _ behind ⟨opening, closing, taken, opened, closed⟩ => ?_
    exact yields_pure (.blank (taken ▸ .comment opened closed))
  · next seen => exact (yields_use seen).bind fun found behind shape => yields_pure shape
  · next seen => exact (yields_function seen).bind fun found behind shape => yields_pure shape
  · next seen => exact (yields_const seen).bind fun found behind shape => yields_pure shape
  · next seen =>
    refine (yields_inlineC seen).bind fun found behind ⟨block, taken, kind, written⟩ => ?_
    rw [taken, written]
    exact yields_pure (.inlineC kind)
  · exact yields_fail

theorem finished_of_atEnd (ended : cursor.atEnd = true) : Finished cursor.rest := by
  intro token first
  have seen : cursor.current.kind = .endOfInput := by simpa [Cursor.atEnd, Cursor.sees] using ended
  rw [Cursor.current, List.headD_eq_head?_getD, Option.mem_def.mp first] at seen
  exact seen

theorem yields_topLevel :
    Yields topLevel cursor fun statements _ => File cursor.rest statements := by
  intro statements behind read
  fun_induction topLevel cursor generalizing statements behind with
  | case1 cursor ended =>
    cases read
    exact .done (finished_of_atEnd ended)
  | case2 => cases read
  | case3 => cases read
  | case4 cursor _ found middle stepped more finished followed shorter =>
    cases read
    exact .declaration (yields_declaration _ _ stepped) (shorter more finished followed)

end Declarations

end StackLang.Parser

namespace StackLang

open StackLang.Parser (BodyItem replay)

def Parser.BodyItem.statement : BodyItem → Statement
  | .plain statement | .deferred statement => statement

/-- Deferring repeats and moves statements, but makes and drops none. -/
theorem mem_replay (deferred : List Statement) (items : List BodyItem) (statement : Statement) :
    statement ∈ replay deferred items ↔
      statement ∈ deferred ∨ statement ∈ items.map BodyItem.statement := by
  induction items generalizing deferred with
  | nil => simp [replay]
  | cons item items ih =>
    cases item with
    | deferred call =>
      rw [replay, ih]
      simp [BodyItem.statement, or_assoc]
    | plain first =>
      rw [replay]
      split <;> simp only [List.mem_append, List.mem_cons, ih, List.map_cons] <;>
        grind [BodyItem.statement]

/-- A tree is made of tokens that have the shape of a file. -/
theorem file_of_parse {path : Path} {tokens : List Token} {tree : SourceTree}
    (parsed : SourceTree.parse path tokens = .ok tree) : Grammar.File tokens tree.statements := by
  unfold SourceTree.parse at parsed
  split at parsed
  · cases parsed
  · next statements behind read =>
    cases parsed
    exact Parser.yields_topLevel statements behind read

end StackLang
