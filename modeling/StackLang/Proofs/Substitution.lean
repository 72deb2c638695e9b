import StackLang.Proofs.FileDirective
import StackLang.Proofs.TokenPlaces

/-! Expansion as one substitution. Lines are expanded one by one and from left to right, but the same
comes out if every place of the whole text is looked at on its own: a directive that stands there is
replaced, its other characters vanish, and everything else stays. No replacement has a line end unless
the path of the file has one, so the lines of a text are expanded to the lines of its expansion. -/
namespace StackLang

open String (utf8Len)
open Text (Position splitAt)

namespace Expansion

/-! ### Every place on its own -/

/-- Of the characters in front of a place and at it, one belongs to a word and the other does not. -/
def wordBoundary (text : List Char) (place : Nat) : Bool :=
  (text.take place).getLast?.any Text.isWordCharacter != text[place]?.any Text.isWordCharacter

def Directive.spelling (directive : Directive) : List Char := '#' :: directive.word

/-- A directive stands at a place and ends at the boundary of a word. -/
def occursAt (text : List Char) (place : Nat) (directive : Directive) : Bool :=
  directive.spelling.isPrefixOf (text.drop place) &&
    wordBoundary text (place + directive.spelling.length)

def directiveAt? (text : List Char) (place : Nat) : Option Directive :=
  [Directive.line, .file].find? (occursAt text place)

/-- A directive stands in front of a place and goes beyond it. -/
def insideDirective (text : List Char) (place : Nat) : Bool :=
  (List.range place).any fun start =>
    (directiveAt? text start).any fun directive => place < start + directive.spelling.length

/-- What becomes of the character at a place, if the lines are counted from `number` on. -/
def imageAt (path : Path) (number : Nat) (text : List Char) (place : Nat) : List Char :=
  if insideDirective text place then []
  else match directiveAt? text place with
    | some directive => replacement path (number + (text.take place).count '\n') directive
    | none => text[place]?.toList

def substitute (path : Path) (number : Nat) (text : List Char) : List Char :=
  (List.range text.length).flatMap (imageAt path number text)

theorem length_spelling (directive : Directive) :
    directive.spelling.length = directive.extent + 1 := by
  cases directive <;> rfl

theorem getLast?_spelling (directive : Directive) : directive.spelling.getLast? = some 'E' := by
  cases directive <;> rfl

/-- The last character of a directive is a letter, so there is a boundary behind it if and only if its
word ends there. -/
theorem wordBoundary_spelling (front back : List Char) (directive : Directive) :
    wordBoundary (front ++ (directive.spelling ++ back))
      (front.length + directive.spelling.length) = endsWord 0 back := by
  have letter : Text.isWordCharacter 'E' = true := by rfl
  have before : (front ++ (directive.spelling ++ back)).take
      (front.length + directive.spelling.length) = front ++ directive.spelling := by
    rw [← List.append_assoc, ← List.length_append, List.take_left]
  have here : (front ++ (directive.spelling ++ back))[front.length + directive.spelling.length]? =
      back[0]? := by
    rw [← List.append_assoc, ← List.length_append, List.getElem?_append_right (Nat.le_refl _),
      Nat.sub_self]
  rw [wordBoundary, before, here, List.getLast?_append, getLast?_spelling, endsWord]
  simp [letter]

theorem occursAt_append (front more : List Char) (directive : Directive) :
    occursAt (front ++ '#' :: more) front.length directive =
      (directive.word.isPrefixOf more && endsWord 4 more) := by
  rw [occursAt, List.drop_left]
  cases starts : directive.word.isPrefixOf more with
  | false => simp [Directive.spelling, starts]
  | true =>
    obtain ⟨back, rfl⟩ := List.isPrefixOf_iff_prefix.mp starts
    have ends : endsWord 4 (directive.word ++ back) = endsWord 0 back := by
      cases directive <;> rfl
    have bounded := wordBoundary_spelling front back directive
    have starts' : directive.spelling.isPrefixOf ('#' :: (directive.word ++ back)) = true :=
      List.isPrefixOf_iff_prefix.mpr (List.prefix_append directive.spelling back)
    rw [starts', ends, ← bounded]
    rfl

theorem directiveAt?_append (front more : List Char) :
    directiveAt? (front ++ '#' :: more) front.length = directive? more := by
  have line : occursAt (front ++ '#' :: more) front.length .line =
      ("LINE".toList.isPrefixOf more && endsWord 4 more) := occursAt_append front more .line
  have file : occursAt (front ++ '#' :: more) front.length .file =
      ("FILE".toList.isPrefixOf more && endsWord 4 more) := occursAt_append front more .file
  rw [directiveAt?, directive?, List.find?_cons, List.find?_cons, line, file]
  cases "LINE".toList.isPrefixOf more && endsWord 4 more with
  | true => rfl
  | false => cases "FILE".toList.isPrefixOf more && endsWord 4 more <;> rfl

theorem directiveAt?_append_of_ne {c : Char} (other : c ≠ '#') (front more : List Char) :
    directiveAt? (front ++ c :: more) front.length = none := by
  refine List.find?_eq_none.mpr fun directive _ => ?_
  have unmarked : ('#' == c) = false := beq_false_of_ne other.symm
  simp [occursAt, Directive.spelling, List.isPrefixOf, unmarked]

theorem spelling_of_directiveAt? {text : List Char} {place : Nat} {directive : Directive}
    (found : directiveAt? text place = some directive) :
    ∃ back, text.drop place = directive.spelling ++ back := by
  have occurs := List.find?_some found
  obtain ⟨back, starts⟩ := List.isPrefixOf_iff_prefix.mp (Bool.and_eq_true_iff.mp occurs).1
  exact ⟨back, starts.symm⟩

/-- A directive that starts before a limit goes beyond a place. -/
def Covers (text : List Char) (limit place : Nat) : Prop :=
  ∃ start < limit, ∃ directive, directiveAt? text start = some directive ∧
    place < start + directive.spelling.length

theorem insideDirective_iff {text : List Char} {place : Nat} :
    insideDirective text place = true ↔ Covers text place place := by
  simp [insideDirective, Covers, Option.any_eq_true]

theorem covers_succ {text : List Char} {limit place : Nat} :
    Covers text (limit + 1) place ↔ Covers text limit place ∨
      ∃ directive, directiveAt? text limit = some directive ∧
        place < limit + directive.spelling.length := by
  constructor
  · rintro ⟨start, before, found⟩
    rcases Nat.lt_succ_iff_lt_or_eq.mp before with earlier | rfl
    · exact .inl ⟨start, earlier, found⟩
    · exact .inr found
  · rintro (⟨start, before, found⟩ | found)
    · exact ⟨start, Nat.lt_succ_of_lt before, found⟩
    · exact ⟨limit, Nat.lt_succ_self limit, found⟩

/-- What a directive covers behind its mark is a letter of its word. -/
theorem letter_of_covers {front more : List Char} {c : Char}
    (covers : Covers (front ++ c :: more) front.length front.length) : c ≠ '#' ∧ c ≠ '\n' := by
  obtain ⟨start, before, directive, found, beyond⟩ := covers
  obtain ⟨back, starts⟩ := spelling_of_directiveAt? found
  obtain ⟨count, distance⟩ := Nat.exists_eq_add_of_lt before
  have short : count + 1 < directive.spelling.length := by omega
  have letter : directive.word[count]? = some c := by
    have here : (front ++ c :: more)[start + (count + 1)]? = some c := by
      rw [← Nat.add_assoc, ← distance, List.getElem?_append_right (Nat.le_refl _), Nat.sub_self]
      rfl
    rwa [← List.getElem?_drop, starts, List.getElem?_append_left short] at here
  have letters : directive.word.all (fun c => c != '#' && c != '\n') = true := by
    cases directive <;> decide
  simpa using List.all_eq_true.mp letters c (List.mem_of_getElem? letter)

/-- The directives that start before a limit go on for `skipped` characters behind it. -/
def Pending (text : List Char) (limit skipped : Nat) : Prop :=
  ∀ place, limit ≤ place → (Covers text limit place ↔ place < limit + skipped)

namespace Pending

variable {text : List Char} {limit skipped : Nat}

theorem insideDirective (pending : Pending text limit skipped) :
    insideDirective text limit = true ↔ 0 < skipped := by
  rw [insideDirective_iff, pending limit (Nat.le_refl _)]
  omega

theorem pass (pending : Pending text limit skipped) (none : directiveAt? text limit = none) :
    Pending text (limit + 1) (skipped - 1) := by
  intro place behind
  rw [covers_succ, pending place (by omega), none]
  simp only [reduceCtorEq, false_and, exists_false, or_false]
  omega

theorem enter {directive : Directive} (pending : Pending text limit 0)
    (found : directiveAt? text limit = some directive) :
    Pending text (limit + 1) directive.extent := by
  intro place behind
  rw [covers_succ, pending place (by omega), found]
  simp only [Option.some.injEq, exists_eq_left', length_spelling]
  omega

end Pending

/-- The rest of a text is expanded place by place, behind directives that go on in it for `skipped`
characters. -/
theorem expandFrom_eq_images {text front : List Char} {skipped : Nat} (path : Path) (number : Nat)
    (rest : List Char) (whole : text = front ++ rest) (pending : Pending text front.length skipped) :
    expandFrom path (number + front.count '\n') skipped rest =
      (List.range' front.length rest.length).flatMap (imageAt path number text) := by
  -- The text stays whole, as a place is looked at with all that stands around it.
  induction rest generalizing front skipped with
  | nil => rfl
  | cons c rest ih =>
    have next {skipped : Nat} (pending : Pending text (front.length + 1) skipped) :
        expandFrom path (number + front.count '\n' + [c].count '\n') skipped rest =
          (List.range' (front.length + 1) rest.length).flatMap (imageAt path number text) := by
      have whole' : text = (front ++ [c]) ++ rest := by simp [whole]
      have later := ih whole' (by rwa [List.length_append])
      rwa [List.length_append, List.count_append, ← Nat.add_assoc] at later
    have before : text.take front.length = front := by rw [whole, List.take_left]
    have here : text[front.length]? = some c := by simp [whole]
    rw [List.length_cons, List.range'_succ, List.flatMap_cons]
    have inside := pending.insideDirective
    cases skipped with
    | succ fewer =>
      have inside : insideDirective text front.length = true := inside.mpr (Nat.succ_pos fewer)
      obtain ⟨unmarked, inLine⟩ := letter_of_covers (whole ▸ insideDirective_iff.mp inside)
      have none : directiveAt? text front.length = none :=
        whole ▸ directiveAt?_append_of_ne unmarked front rest
      have later := next (pending.pass none)
      rw [expandFrom, imageAt, if_pos inside, List.nil_append, ← later]
      simp [inLine]
    | zero =>
      have outside : ¬insideDirective text front.length = true := fun covered =>
        absurd (inside.mp covered) (Nat.lt_irrefl 0)
      rw [expandFrom, imageAt, if_neg outside, before, here]
      by_cases marked : c = '#'
      · subst marked
        have found : directiveAt? text front.length = directive? rest :=
          whole ▸ directiveAt?_append front rest
        rw [if_pos rfl, found]
        cases starts : directive? rest with
        | none => exact congrArg ('#' :: ·) (next (pending.pass (found.trans starts)))
        | some directive =>
          have later := next (pending.enter (found.trans starts))
          exact congrArg (replacement path _ directive ++ ·) later
      · have none : directiveAt? text front.length = none :=
          whole ▸ directiveAt?_append_of_ne marked front rest
        have later := next (pending.pass none)
        rw [if_neg marked, none, ← later]
        by_cases lineEnd : c = '\n'
        · subst lineEnd
          rfl
        · simp [lineEnd]

theorem expandFrom_eq_substitute (path : Path) (number : Nat) (text : List Char) :
    expandFrom path number 0 text = substitute path number text := by
  have pending : Pending text 0 0 := by
    intro place _
    simp [Covers]
  rw [substitute, List.range_eq_range']
  exact @expandFrom_eq_images text [] 0 path number text rfl pending

theorem flatMap_getElem? (text : List Char) :
    ((List.range text.length).flatMap fun place => text[place]?.toList) = text := by
  induction text with
  | nil => rfl
  | cons c rest ih =>
    rw [List.length_cons, List.range_succ_eq_map, List.flatMap_cons, List.flatMap_map]
    exact congrArg (c :: ·) ih

theorem substitute_of_none (path : Path) (number : Nat) {text : List Char}
    (none : ∀ place, directiveAt? text place = none) : substitute path number text = text := by
  have kept (place : Nat) : imageAt path number text place = text[place]?.toList := by
    have outside : insideDirective text place = false := by simp [insideDirective, none]
    rw [imageAt, outside, none]
    rfl
  rw [substitute, funext kept, flatMap_getElem?]

/-! ### Lines -/

def substituteLines (path : Path) (number : Nat) (lines : List (List Char)) : List (List Char) :=
  lines.mapIdx fun index line => substitute path (number + index) line

theorem substituteLines_cons (path : Path) (number : Nat) (line : List Char)
    (lines : List (List Char)) :
    substituteLines path number (line :: lines) =
      substitute path number line :: substituteLines path (number + 1) lines := by
  rw [substituteLines, List.mapIdx_cons, Nat.add_zero]
  refine congrArg (substitute path number line :: ·) ?_
  simp only [substituteLines, Nat.add_assoc, Nat.add_comm 1]

theorem inLine_expandFrom {path : Path} (inLine : '\n' ∉ path.text.toList) (number skipped : Nat)
    {line : List Char} (inLine' : '\n' ∉ line) : '\n' ∉ expandFrom path number skipped line := by
  fun_induction expandFrom path number skipped line with
  | case1 => exact List.not_mem_nil
  | case2 number c rest fewer ih => exact ih (List.not_mem_of_not_mem_cons inLine')
  | case3 number rest directive starts ih =>
    rw [List.mem_append, not_or]
    exact ⟨inLine_expanded inLine directive number, ih (List.not_mem_of_not_mem_cons inLine')⟩
  | case4 number rest starts ih =>
    exact List.not_mem_cons_of_ne_of_not_mem (by decide) (ih (List.not_mem_of_not_mem_cons inLine'))
  | case5 number c rest unmarked ih =>
    exact List.not_mem_cons_of_ne_of_not_mem (List.ne_of_not_mem_cons inLine')
      (ih (List.not_mem_of_not_mem_cons inLine'))

theorem expandFrom_line (path : Path) (number : Nat) {line : List Char} (inLine : '\n' ∉ line)
    (rest : List Char) :
    expandFrom path number 0 (line ++ '\n' :: rest) =
      expandFrom path number 0 line ++ '\n' :: expandFrom path (number + 1) 0 rest := by
  have ends : Text.isWordCharacter '\n' = false := by decide +kernel
  rw [expandFrom_append (Nat.zero_le _) ends, List.drop_zero, List.count_eq_zero.mpr inLine]
  rfl

theorem splitAt_expandFrom {path : Path} (inLine : '\n' ∉ path.text.toList) (number : Nat)
    (text : List Char) :
    splitAt '\n' (expandFrom path number 0 text) = substituteLines path number (splitAt '\n' text) := by
  -- On the length: the rest of a text starts behind its first line end.
  induction size : text.length using Nat.strongRecOn generalizing number text with
  | ind count ih =>
    by_cases within : '\n' ∈ text
    · obtain ⟨line, rest, rfl, inLine'⟩ := List.eq_append_cons_of_mem within
      have shorter : rest.length < count := by
        rw [← size, List.length_append, List.length_cons]
        omega
      have later := ih rest.length shorter (number + 1) rest rfl
      rw [expandFrom_line path number inLine', splitAt_append_mark, splitAt_append_mark, later,
        splitAt_of_not_mem inLine', splitAt_of_not_mem (inLine_expandFrom inLine number 0 inLine'),
        expandFrom_eq_substitute]
      exact (substituteLines_cons path number line _).symm
    · rw [splitAt_of_not_mem within, splitAt_of_not_mem (inLine_expandFrom inLine number 0 within),
        expandFrom_eq_substitute]
      rfl

theorem splitAt_expand {path : Path} (inLine : '\n' ∉ path.text.toList) (text : List Char) :
    splitAt '\n' (expand path text) = substituteLines path 1 (splitAt '\n' text) := by
  rw [expand_eq_expandFrom, splitAt_expandFrom inLine]

theorem length_splitAt (mark : Char) (text : List Char) :
    (splitAt mark text).length = text.count mark + 1 := by
  induction text with
  | nil => rfl
  | cons c rest ih =>
    by_cases marked : c = mark
    · subst marked
      rw [splitAt, if_pos rfl, List.length_cons, ih, List.count_cons_self]
    · obtain ⟨piece, pieces, split, longer⟩ := Text.splitAt_cons_of_ne marked rest
      rw [longer, List.count_cons_of_ne marked, ← ih, split]
      rfl

theorem count_expand {path : Path} (inLine : '\n' ∉ path.text.toList) (text : List Char) :
    (expand path text).count '\n' = text.count '\n' := by
  have lines := congrArg List.length (splitAt_expand inLine text)
  rw [substituteLines, List.length_mapIdx, length_splitAt, length_splitAt] at lines
  omega

/-- A position is on a physical line: its line number is the number of this line, its column counts
the characters of the expanded line, and before it are the bytes of the expanded lines above. -/
def OnLine (path : Path) (text : List Char) (place : Position) : Prop :=
  ∃ above line below before after, splitAt '\n' text = above ++ line :: below ∧
    place.line = above.length + 1 ∧ substitute path place.line line = before ++ after ∧
    place.column = before.length + 1 ∧
    place.offset = utf8Len ((substituteLines path 1 above).flatMap (· ++ ['\n']) ++ before)

theorem onLine_through {path : Path} {text front back : List Char}
    (inLine : '\n' ∉ path.text.toList) (whole : expand path text = front ++ back) :
    OnLine path text (Position.start.through front) := by
  obtain ⟨shown, last, piece, pieces, _, split, parted, line, column⟩ := Text.splitAt_append front back
  rw [← whole, splitAt_expand inLine, substituteLines, List.mapIdx_eq_append_iff] at split
  obtain ⟨above, others, lines, same, split⟩ := split
  obtain ⟨here, below, rfl, first, _⟩ := List.mapIdx_eq_cons_iff.mp split
  refine ⟨above, here, below, last, piece, lines, ?_, ?_, column, ?_⟩
  · rw [line, ← same, List.length_mapIdx]
  · rw [line, ← first, ← same, List.length_mapIdx, Nat.zero_add, Nat.add_comm]
  · rw [Position.offset_start_through, parted, ← same]
    rfl

/-- The expansion of a text is one substitution in the whole of it: every directive that ends at the
boundary of a word is replaced at once, by the number of its line or by the path, and a text without
any stays as it is. If the path has no line end, there are as many lines as before, each the expansion
of the one it was, and all tokens of the file stand on physical lines. -/
theorem expansion_is_one_substitution (path : Path) (text : List Char) :
    expand path text = substitute path 1 text ∧
    ((∀ place, directiveAt? text place = none) → expand path text = text) ∧
    ('\n' ∉ path.text.toList →
      (expand path text).count '\n' = text.count '\n' ∧
      splitAt '\n' (expand path text) = substituteLines path 1 (splitAt '\n' text) ∧
      ∀ files search bytes stream later, TokenStream.decode path bytes = .ok text →
        TokenStream.ofBytes files search path bytes = (.ok stream, later) →
        ∀ token ∈ stream.tokens,
          OnLine path text token.span.start ∧ OnLine path text token.span.stop) := by
  have once : expand path text = substitute path 1 text := by
    rw [expand_eq_expandFrom, expandFrom_eq_substitute]
  refine ⟨once, fun none => once.trans (substitute_of_none path 1 none), fun inLine => ?_⟩
  refine ⟨count_expand inLine text, splitAt_expand inLine text, ?_⟩
  intro files search bytes stream later read scanned token member
  obtain ⟨front, lexeme, back, whole, placed⟩ := TokenStream.stands_of_ofBytes read scanned token member
  rw [placed]
  exact ⟨onLine_through inLine whole,
    onLine_through inLine (whole.trans (List.append_assoc front lexeme back).symm)⟩

/-- Directives next to each other and at the ends of lines, and one that a letter goes on. -/
def placesText : List Char := "print \"#LINEé\" #FILE#LINE\r\n#LINE-#LINE".toList

theorem directive_before_a_letter_of_any_script_stays :
    ∃ stream later,
      TokenStream.ofBytes ⟨[], []⟩ ⟨[], []⟩ ⟨"/w/main.qd"⟩ (String.ofList placesText).toUTF8.toList =
        (.ok stream, later) ∧
      substitute ⟨"/w/main.qd"⟩ 1 placesText = "print \"#LINEé\" \"/w/main.qd\"1\r\n2-2".toList ∧
      expand ⟨"/w/main.qd"⟩ placesText = substitute ⟨"/w/main.qd"⟩ 1 placesText ∧
      stream.tokens.map (fun token => token.span.start.line) = [1, 1, 1, 1, 1, 2, 2, 2] ∧
      ∀ token ∈ stream.tokens, OnLine ⟨"/w/main.qd"⟩ placesText token.span.start := by
  have accepted : (TokenStream.ofBytes ⟨[], []⟩ ⟨[], []⟩ ⟨"/w/main.qd"⟩
      (String.ofList placesText).toUTF8.toList).1.toOption.map
        (fun stream => stream.tokens.map fun token => token.span.start.line) =
      some [1, 1, 1, 1, 1, 2, 2, 2] := by decide +kernel
  obtain ⟨stream, read, lines⟩ := Option.map_eq_some_iff.mp accepted
  have scanned : TokenStream.ofBytes ⟨[], []⟩ ⟨[], []⟩ ⟨"/w/main.qd"⟩
      (String.ofList placesText).toUTF8.toList = (.ok stream, _) :=
    Prod.ext (Outcome.eq_ok_of_toOption read) rfl
  have written : (TokenStream.decode ⟨"/w/main.qd"⟩
      (String.ofList placesText).toUTF8.toList).toOption = some placesText := by decide +kernel
  have inLine : '\n' ∉ (⟨"/w/main.qd"⟩ : Path).text.toList := by decide
  obtain ⟨once, _, onLines⟩ := expansion_is_one_substitution ⟨"/w/main.qd"⟩ placesText
  obtain ⟨_, _, placed⟩ := onLines inLine
  refine ⟨stream, _, scanned, by decide +kernel, once, lines, fun token member => ?_⟩
  exact (placed _ _ _ _ _ (Outcome.eq_ok_of_toOption written) scanned token member).1

end Expansion

end StackLang
