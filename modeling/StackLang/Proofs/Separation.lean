import StackLang.Proofs.ImportTokens

/-! Separators. Behind some characters no lexeme in front of them can go on, apart from strings,
comments and C code, which say themselves where they end. A scanner that has not come to such a
character has found the same tokens whatever the character is and whatever follows it. -/
namespace StackLang

def Token.content (token : Token) : TokenKind × String := (token.kind, token.literal)

namespace Lexeme

/-- Whether a character can neither continue a lexeme nor make another lexeme of it. -/
def separates (c : Char) : Bool := !isWordPart c && c ∉ [':', '*', '.', '+', '-', '/']

section Front

variable {d : Char} {front : List Char}

theorem separates.not_wordPart (apart : separates d = true) : isWordPart d = false := by
  simpa using (Bool.and_eq_true_iff.mp apart).1

theorem separates.not_digit (apart : separates d = true) : isDigit d = false := by
  have other := separates.not_wordPart apart
  simp only [isWordPart, Char.isAlphanum, Bool.or_eq_false_iff] at other
  exact other.1.2

theorem separates.ne (apart : separates d = true) {c : Char}
    (listed : c ∈ [':', '*', '.', '+', '-', '/']) : d ≠ c := by
  rintro rfl
  exact absurd listed (by simpa using (Bool.and_eq_true_iff.mp apart).2)

theorem takeWhile_append_stop {test : Char → Bool} (stops : test d = false) (front rest : List Char) :
    (front ++ d :: rest).takeWhile test = front.takeWhile test := by
  rw [List.takeWhile_append]
  split_ifs with all
  · rw [List.takeWhile_cons_of_neg (by simp [stops]), List.append_nil,
      (List.takeWhile_prefix test).eq_of_length all]
  · rfl

theorem head?_append_iff {c : Char} (other : d ≠ c) (front rest : List Char) :
    (front ++ d :: rest).head? = some c ↔ front.head? = some c := by
  cases front with
  | nil => simp [other]
  | cons => rfl

theorem head?_append_any {test : Char → Bool} (stops : test d = false) (front rest : List Char) :
    (front ++ d :: rest).head?.any test = front.head?.any test := by
  cases front with
  | nil => simp [stops]
  | cons => rfl

/-! ### Numbers -/

theorem fraction_append_stop (apart : separates d = true) (front rest : List Char) :
    fraction (front ++ d :: rest) = fraction front := by
  cases front with
  | nil =>
    have point : d ≠ '.' := separates.ne apart (by simp)
    unfold fraction
    split
    · next starts => exact absurd (List.cons.inj starts).1 point
    · rfl
  | cons c front =>
    rw [List.cons_append]
    by_cases point : c = '.'
    · subst point
      rw [fraction, fraction, takeWhile_append_stop (separates.not_digit apart)]
    · rw [fraction.eq_2 _ (fun _ same => point (List.cons.inj same).1),
        fraction.eq_2 _ (fun _ same => point (List.cons.inj same).1)]

theorem sign_append_stop (apart : separates d = true) (front rest : List Char) :
    sign (front ++ d :: rest) = sign front := by
  cases front with
  | nil =>
    have plus : d ≠ '+' := separates.ne apart (by simp)
    have minus : d ≠ '-' := separates.ne apart (by simp)
    exact sign.eq_3 _ (fun _ same => plus (List.cons.inj same).1)
      (fun _ same => minus (List.cons.inj same).1)
  | cons c front =>
    unfold sign
    rw [List.cons_append]
    split <;> simp_all

theorem drop_append_stop {count : Nat} (inside : count ≤ front.length) (rest : List Char) :
    (front ++ d :: rest).drop count = front.drop count ++ d :: rest := by
  rw [List.drop_append, Nat.sub_eq_zero_of_le inside, List.drop_zero]

theorem exponent_append_stop (apart : separates d = true) (front rest : List Char) :
    exponent (front ++ d :: rest) = exponent front := by
  have word := separates.not_wordPart apart
  cases front with
  | nil =>
    have unmarked : ¬(d = 'e' || d = 'E') = true := by
      rw [Bool.or_eq_true, decide_eq_true_eq, decide_eq_true_eq]
      rintro (rfl | rfl) <;> exact absurd word (by decide)
    exact if_neg unmarked
  | cons e front =>
    obtain ⟨_, behind, parted⟩ := sign_parts front
    have inside : (sign front).length ≤ front.length := List.IsPrefix.length_le ⟨behind, parted⟩
    rw [List.cons_append, exponent, exponent]
    dsimp only
    rw [sign_append_stop apart, drop_append_stop inside,
      takeWhile_append_stop (separates.not_digit apart)]

theorem numberTail_append_stop (apart : separates d = true) (front rest : List Char) :
    numberTail (front ++ d :: rest) = numberTail front := by
  obtain ⟨_, behind, parted⟩ := fraction_parts (front.drop (front.takeWhile isDigit).length)
  have inside : (fraction (front.drop (front.takeWhile isDigit).length)).length ≤
      (front.drop (front.takeWhile isDigit).length).length :=
    List.IsPrefix.length_le ⟨behind, parted⟩
  rw [numberTail, numberTail, takeWhile_append_stop (separates.not_digit apart),
    drop_append_stop (List.takeWhile_prefix isDigit).length_le, fraction_append_stop apart,
    drop_append_stop inside, exponent_append_stop apart]

/-! ### Lexemes that end inside of a text -/

/-- A string that is closed in front of the rest of a text. -/
theorem readString_append_iff (rest : List Char) {literal : List Char} {kind : TokenKind}
    {extent : Nat} :
    (readString (front ++ rest) = .token kind literal extent ∧ extent ≤ front.length) ↔
      (readString front = .token kind literal extent ∧ extent ≤ front.length) := by
  rw [readString, readString, stringBody, stringBody, List.takeWhile_append]
  split_ifs with all
  · -- Without a closing quote the string takes more than the front in both texts.
    simp only [Reading.token.injEq]
    constructor
    · rintro ⟨⟨_, _, rfl⟩, inside⟩
      simp only [List.length_append] at inside
      omega
    · rintro ⟨⟨_, _, rfl⟩, inside⟩
      omega
  · rfl

/-- C code as it stands in a text: blanks, and a block in braces. -/
def inlineText (blank code : List Char) : List Char := blank ++ '\x7b' :: (code ++ ['\x7d'])

theorem readInlineC_of_block {blank code : List Char}
    (blanks : ∀ c ∈ blank, Text.isWhiteSpace c = true) (balanced : Text.Balanced code)
    (rest : List Char) :
    readInlineC (inlineText blank code ++ rest) =
      .token .inlineC code (inlineText blank code).length := by
  have text : inlineText blank code ++ rest = blank ++ '\x7b' :: (code ++ '\x7d' :: rest) := by
    simp [inlineText]
  have run : (blank ++ '\x7b' :: (code ++ '\x7d' :: rest)).takeWhile Text.isWhiteSpace = blank :=
    takeWhile_run blanks (by simp; decide)
  have closed : braced? 0 (code ++ '\x7d' :: rest) = some code :=
    braced?_eq_some_iff.mpr ⟨rest, rfl, Text.balanced_iff_nest?.mp balanced⟩
  rw [text, readInlineC, run, List.drop_left]
  dsimp only
  rw [if_pos rfl, closed]
  simp only [inlineText, List.length_append, List.length_cons, List.length_nil]
  congr 1
  omega

theorem readInlineC_iff {text literal : List Char} {kind : TokenKind} {extent : Nat} :
    readInlineC text = .token kind literal extent ↔ kind = .inlineC ∧ Text.Balanced literal ∧
      ∃ blank, (∀ c ∈ blank, Text.isWhiteSpace c = true) ∧
        text.take extent = inlineText blank literal ∧ extent = (inlineText blank literal).length := by
  constructor
  · intro made
    obtain ⟨rfl, balanced, blank, blanks, taken⟩ := readInlineC_ok made
    have again := readInlineC_of_block blanks balanced (text.drop extent)
    rw [inlineText, ← taken, List.take_append_drop, made] at again
    have exact : extent = (text.take extent).length := by
      injection again
    exact ⟨rfl, balanced, blank, blanks, taken, by rw [inlineText, ← taken]; exact exact⟩
  · rintro ⟨rfl, balanced, blank, blanks, taken, exact⟩
    have made := readInlineC_of_block blanks balanced (text.drop extent)
    rwa [← taken, List.take_append_drop, taken, ← exact] at made

theorem readInlineC_append_iff (rest : List Char) {literal : List Char} {kind : TokenKind}
    {extent : Nat} :
    (readInlineC (front ++ rest) = .token kind literal extent ∧ extent ≤ front.length) ↔
      (readInlineC front = .token kind literal extent ∧ extent ≤ front.length) := by
  rw [readInlineC_iff, readInlineC_iff]
  refine and_congr_left fun inside => ?_
  rw [List.take_append_of_le_length inside]

theorem behind_eq_token {count extent : Nat} {reading : Reading} {kind : TokenKind}
    {literal : List Char} :
    reading.behind count = .token kind literal extent ↔
      ∃ width, reading = .token kind literal width ∧ extent = count + width := by
  cases reading with
  | failure => simp [Reading.behind]
  | token kind' literal' width =>
    simp only [Reading.behind, Reading.token.injEq]
    constructor
    · rintro ⟨rfl, rfl, rfl⟩
      exact ⟨width, ⟨rfl, rfl, rfl⟩, rfl⟩
    · rintro ⟨_, ⟨rfl, rfl, rfl⟩, rfl⟩
      exact ⟨rfl, rfl, rfl⟩

theorem readWord_append_iff (apart : separates d = true) {first : Char} (rest : List Char)
    {literal : List Char} {kind : TokenKind} {extent : Nat} :
    (readWord first (front ++ d :: rest) = .token kind literal extent ∧ extent ≤ front.length) ↔
      (readWord first front = .token kind literal extent ∧ extent ≤ front.length) := by
  have word := separates.not_wordPart apart
  have inside : (wordTail front).length ≤ front.length := (List.takeWhile_prefix isWordPart).length_le
  have tail : wordTail (front ++ d :: rest) = wordTail front := takeWhile_append_stop word front rest
  rw [readWord, readWord, tail, drop_append_stop inside]
  split_ifs with inline
  · simp only [behind_eq_token]
    have room (width : Nat) : (wordTail front).length + width ≤ front.length ↔
        width ≤ (front.drop (wordTail front).length).length := by
      rw [List.length_drop]
      omega
    constructor
    · rintro ⟨⟨width, code, rfl⟩, ends⟩
      have code := ((readInlineC_append_iff (d :: rest)).mp ⟨code, (room width).mp ends⟩).1
      exact ⟨⟨width, code, rfl⟩, ends⟩
    · rintro ⟨⟨width, code, rfl⟩, ends⟩
      have code := ((readInlineC_append_iff (d :: rest)).mpr ⟨code, (room width).mp ends⟩).1
      exact ⟨⟨width, code, rfl⟩, ends⟩
  · rfl

theorem read_append_iff (apart : separates d = true) {first : Char} (rest : List Char)
    {literal : List Char} {kind : TokenKind} {extent : Nat} :
    (read first (front ++ d :: rest) = .token kind literal extent ∧ extent ≤ front.length) ↔
      (read first front = .token kind literal extent ∧ extent ≤ front.length) := by
  have colon : d ≠ ':' := separates.ne apart (by simp)
  have star : d ≠ '*' := separates.ne apart (by simp)
  unfold read
  simp only [head?_append_iff colon, head?_append_iff star,
    head?_append_any (separates.not_digit apart)]
  cases punctuation? first with
  | some kind => rfl
  | none =>
    dsimp only
    split_ifs
    · rfl
    · rfl
    · rfl
    · rw [readNumber, readNumber, numberTail_append_stop apart]
    · exact readString_append_iff _
    · exact readWord_append_iff apart rest
    · rfl

/-! ### Blanks and comments -/

theorem blanks_append_inside {other : Char} {rest more : List Char} (apart : d ≠ '/')
    (apart' : other ≠ '/') {commented : Bool}
    (inside : (blanks commented (front ++ d :: rest)).length < front.length) :
    blanks commented (front ++ other :: more) = blanks commented (front ++ d :: rest) := by
  induction front generalizing commented with
  | nil => cases inside
  | cons c front ih =>
    have further {within : Bool}
        (shorter : (c :: blanks within (front ++ d :: rest)).length < (c :: front).length) :
        c :: blanks within (front ++ other :: more) = c :: blanks within (front ++ d :: rest) :=
      congrArg (c :: ·) (ih (Nat.lt_of_succ_lt_succ shorter))
    simp only [List.cons_append, blanks, head?_append_iff apart, head?_append_iff apart'] at inside ⊢
    split_ifs at inside ⊢
    · rfl
    · exact further inside
    · exact further inside
    · exact further inside
    · rfl

theorem commentBody?_append {body : List Char} (closed : commentBody? front = some body)
    (rest : List Char) : commentBody? (front ++ rest) = some body := by
  fun_induction commentBody? front generalizing body with
  | case1 => exact closed
  | case2 c front other ih =>
    obtain ⟨inner, found, rfl⟩ := Option.map_eq_some_iff.mp closed
    cases front with
    | nil => cases found
    | cons second front =>
      rw [List.cons_append, commentBody?.eq_2, ih found]
      · rfl
      · rintro _ rfl same
        exact other front rfl (by rw [(List.cons.inj same).1])
  | case3 => cases closed

theorem commentBody?_of_append {rest body : List Char}
    (closed : commentBody? (front ++ rest) = some body) (inside : body.length + 2 ≤ front.length) :
    commentBody? front = some body := by
  cases found : commentBody? front with
  | some other =>
    rw [← closed]
    exact (commentBody?_append found rest).symm
  | none =>
    obtain ⟨⟨behind, parted⟩, _⟩ := commentBody?_some closed
    have marker : body ++ ['*', '/'] <+: front := by
      refine List.prefix_of_prefix_length_le ⟨behind, ?_⟩ (List.prefix_append front rest) ?_
      · rw [List.append_assoc]
        exact parted
      · simpa using inside
    exact absurd ((List.suffix_append body _).isInfix.trans marker.isInfix) (commentBody?_none found)

end Front

end Lexeme

/-! ### Scanners with more text behind them -/

namespace Scanner

/-- The scanner with more text behind what it has before it. -/
def onto (scanner : Scanner) (more : List Char) : Scanner :=
  { scanner with rest := scanner.rest ++ more }

variable {scanner behind : Scanner} {files : Files} {token : Token}

theorem consume_onto {count : Nat} (inside : count ≤ scanner.rest.length) (more : List Char) :
    (scanner.onto more).consume count = (scanner.consume count).onto more := by
  simp only [consume, onto, List.drop_append_of_le_length inside,
    List.take_append_of_le_length inside]

theorem settle_onto (scanner : Scanner) (files : Files) (token : Token) (more : List Char) :
    (scanner.onto more).settle files token =
      ((scanner.settle files token).1, (scanner.settle files token).2.onto more) := by
  unfold settle onto
  dsimp only
  repeat' split
  all_goals rfl

theorem started_onto {more : List Char}
    (inside : (Lexeme.blanks false (scanner.rest ++ more)).length ≤ scanner.rest.length) :
    (scanner.onto more).started =
      (scanner.consume (Lexeme.blanks false (scanner.rest ++ more)).length).marked.onto more := by
  rw [started]
  exact congrArg marked (consume_onto inside more)

/-- The scanner behind the end of a comment with that much content. -/
theorem behind_comment_onto {size : Nat} (inside : size + 2 ≤ scanner.rest.length)
    (more : List Char) :
    ((scanner.onto more).consume size).marked.consume 2 =
      ((scanner.consume size).marked.consume 2).onto more := by
  rw [consume_onto (by omega)]
  have left : 2 ≤ (scanner.consume size).marked.rest.length := by
    simp only [marked, rest_consume, List.length_drop]
    omega
  exact consume_onto left more

/-- In a comment the next token is its end. -/
theorem next_comment_iff (commented : scanner.commented = true) :
    scanner.next files = (.ok (some token), behind) ↔
      ∃ body, Lexeme.commentBody? scanner.rest = some body ∧
        behind = (({ scanner with commented := false } : Scanner).consume body.length).marked.consume 2 ∧
        token = behind.token .commentEnd "*/" := by
  rw [next, if_pos commented, commentEnd]
  dsimp only
  cases Lexeme.commentBody? scanner.rest with
  | none => simp
  | some body =>
    simp only [Prod.mk.injEq, Except.ok.injEq, Option.some.injEq, exists_eq_left']
    constructor
    · rintro ⟨rfl, rfl⟩
      exact ⟨rfl, rfl⟩
    · rintro ⟨rfl, rfl⟩
      exact ⟨rfl, rfl⟩

theorem next_onto_comment {rest : List Char} (commented : scanner.commented = true)
    (found : (scanner.onto rest).next files = (.ok (some token), behind))
    (room : rest.length ≤ behind.rest.length) (more : List Char) :
    ∃ inner : Scanner, behind = inner.onto rest ∧
      (scanner.onto more).next files = (.ok (some token), inner.onto more) := by
  obtain ⟨body, closed, rfl, rfl⟩ := (@next_comment_iff (scanner.onto rest) _ _ _ commented).mp found
  have closed : Lexeme.commentBody? (scanner.rest ++ rest) = some body := closed
  have inside : body.length + 2 ≤ scanner.rest.length := by
    have length := Lexeme.length_commentBody? closed
    simp only [marked, consume, onto, List.length_drop, List.length_append] at room length
    omega
  have again := Lexeme.commentBody?_append (Lexeme.commentBody?_of_append closed inside) more
  have ends := @behind_comment_onto { scanner with commented := false } _ inside
  refine ⟨_, ends rest, ?_⟩
  apply (@next_comment_iff (scanner.onto more) _ _ _ commented).mpr
  have closing := congrArg (fun scanner => token scanner .commentEnd "*/") (ends rest)
  exact ⟨body, again, (ends more).symm, closing⟩

/-- A lexeme that ends in front of a separator starts and is read alike in front of any other one. -/
theorem lexeme_onto {d first : Char} {rest text literal : List Char} {kind : TokenKind} {extent : Nat}
    (apart : Lexeme.separates d = true)
    (starts : (scanner.onto (d :: rest)).started.rest = first :: text)
    (read : Lexeme.read first text = .token kind literal extent)
    (inside : (Lexeme.blanks false (scanner.rest ++ d :: rest)).length + (extent + 1) ≤
      scanner.rest.length) :
    ∃ (start : Scanner) (tail : List Char), start.rest = first :: tail ∧ extent ≤ tail.length ∧
      ∀ other more, Lexeme.separates other = true →
        (scanner.onto (other :: more)).started = start.onto (other :: more) ∧
        Lexeme.read first (tail ++ other :: more) = .token kind literal extent := by
  let start := (scanner.consume (Lexeme.blanks false (scanner.rest ++ d :: rest)).length).marked
  have begun {other : Char} (apart' : Lexeme.separates other = true) (more : List Char) :
      (scanner.onto (other :: more)).started = start.onto (other :: more) := by
    have skipped : Lexeme.blanks false (scanner.rest ++ other :: more) =
        Lexeme.blanks false (scanner.rest ++ d :: rest) :=
      Lexeme.blanks_append_inside (Lexeme.separates.ne apart (by simp))
        (Lexeme.separates.ne apart' (by simp)) (by omega)
    rw [started_onto (by rw [skipped]; omega), skipped]
  have length : extent + 1 ≤ start.rest.length := by
    simp only [start, marked, rest_consume, List.length_drop]
    omega
  obtain ⟨c, tail, front⟩ := List.exists_cons_of_length_pos (Nat.zero_lt_of_lt length)
  have whole : start.rest ++ d :: rest = first :: text := by
    rw [begun apart rest] at starts
    exact starts
  rw [front] at whole length
  obtain ⟨rfl, rfl⟩ := List.cons.inj whole
  have ends : extent ≤ tail.length := Nat.le_of_succ_le_succ length
  have alone := (Lexeme.read_append_iff apart rest).mp ⟨read, ends⟩
  exact ⟨start, tail, front, ends, fun other more apart' =>
    ⟨begun apart' more, ((Lexeme.read_append_iff apart' more).mpr alone).1⟩⟩

theorem next_onto_lexeme {d other : Char} {rest : List Char} (apart : Lexeme.separates d = true)
    (apart' : Lexeme.separates other = true) (outside : scanner.commented = false)
    (found : (scanner.onto (d :: rest)).next files = (.ok (some token), behind))
    (room : rest.length < behind.rest.length) (more : List Char) :
    ∃ inner : Scanner, behind = inner.onto (d :: rest) ∧
      (scanner.onto (other :: more)).next files = (.ok (some token), inner.onto (other :: more)) := by
  obtain ⟨first, text, kind, literal, extent, starts, read, done⟩ :=
    @next_lexeme files (scanner.onto (d :: rest)) _ _ outside found
  -- The blanks and the lexeme are all in front of the separator.
  have inside : (Lexeme.blanks false (scanner.rest ++ d :: rest)).length + (extent + 1) ≤
      scanner.rest.length := by
    have left := congrArg (fun scanner => scanner.rest.length) (settle_keeps done)
    simp only [started, marked, consume, onto, List.length_drop, List.length_append,
      List.length_cons] at left
    omega
  obtain ⟨start, tail, front, ends, alike⟩ := lexeme_onto apart starts read inside
  let lexeme : Scanner := { start.consume (extent + 1) with commented := kind == .commentBegin }
  have taken (text : List Char) :
      (start.onto text).consume (extent + 1) = (start.consume (extent + 1)).onto text :=
    consume_onto (by rw [front]; exact Nat.succ_le_succ ends) text
  have settled (text : List Char) := settle_onto lexeme files ⟨kind, String.ofList literal,
    ⟨start.here, (start.consume (extent + 1)).here⟩⟩ text
  rw [(alike d rest apart).1, taken] at done
  obtain ⟨made, rfl⟩ := Prod.mk.inj ((settled (d :: rest)).symm.trans done)
  obtain ⟨begun, read'⟩ := alike other more apart'
  refine ⟨_, rfl, ?_⟩
  apply @next_of_read (scanner.onto (other :: more)) _ _ first (tail ++ other :: more) literal kind
    extent _ outside _ read'
  · rw [begun, taken]
    exact (settled (other :: more)).trans (congrArg (·, _) made)
  · rw [begun]
    exact congrArg (· ++ other :: more) front

/-- A token that is found in front of a separator is found in front of any other one. -/
theorem next_onto {d other : Char} {rest : List Char} (apart : Lexeme.separates d = true)
    (apart' : Lexeme.separates other = true)
    (found : (scanner.onto (d :: rest)).next files = (.ok (some token), behind))
    (room : rest.length < behind.rest.length) (more : List Char) :
    ∃ inner : Scanner, behind = inner.onto (d :: rest) ∧
      (scanner.onto (other :: more)).next files = (.ok (some token), inner.onto (other :: more)) := by
  cases commented : scanner.commented with
  | true => exact next_onto_comment commented found room (other :: more)
  | false => exact next_onto_lexeme apart apart' commented found room more

/-! ### Runs of a scanner -/

/-- The tokens that a scanner finds one after another, and the scanner behind them. -/
inductive Runs (files : Files) : Scanner → List Token → Scanner → Prop
  | here {scanner : Scanner} : Runs files scanner [] scanner
  | on {scanner middle behind : Scanner} {token : Token} {tokens : List Token}
    (found : scanner.next files = (.ok (some token), middle))
    (rest : Runs files middle tokens behind) : Runs files scanner (token :: tokens) behind

variable {tokens : List Token}

theorem Runs.length_rest (runs : Runs files scanner tokens behind) :
    behind.rest.length ≤ scanner.rest.length := by
  induction runs with
  | here => exact Nat.le_refl _
  | on found _ ih => exact ih.trans (rest_next_lt _ _ _ _ found).le

/-- A run that ends in front of a separator is made in front of any other one. -/
theorem Runs.onto {d other : Char} {rest : List Char} (apart : Lexeme.separates d = true)
    (apart' : Lexeme.separates other = true)
    (runs : Runs files (scanner.onto (d :: rest)) tokens behind)
    (room : rest.length < behind.rest.length) (more : List Char) :
    ∃ inner : Scanner, behind = inner.onto (d :: rest) ∧
      Runs files (scanner.onto (other :: more)) tokens (inner.onto (other :: more)) := by
  generalize same : scanner.onto (d :: rest) = begun at runs
  induction runs generalizing scanner with
  | here => exact ⟨scanner, same.symm, .here⟩
  | on found runs ih =>
    subst same
    obtain ⟨inner, same, again⟩ :=
      next_onto apart apart' found (room.trans_le runs.length_rest) more
    obtain ⟨last, ended, runs'⟩ := ih room same.symm
    exact ⟨last, ended, .on again runs'⟩

/-- What is known of the scanner behind a run, from the last token of it. -/
theorem Runs.ends {search : Search} {path : Path} {text : List Char}
    (runs : Runs files scanner tokens behind) (reaches : scanner.Reaches files search path text)
    (calm : scanner.commented = true → scanner.awaiting = false) :
    behind.Reaches files search path text ∧
      behind.here.offset =
        (tokens.getLast?.map fun token => token.span.stop.offset).getD scanner.here.offset ∧
      behind.commented =
        (tokens.getLast?.map fun token => token.kind == .commentBegin).getD scanner.commented ∧
      behind.awaiting =
        (tokens.getLast?.map fun token => token.kind == .useWord).getD scanner.awaiting := by
  induction runs with
  | here => exact ⟨reaches, rfl, rfl, rfl⟩
  | @on scanner middle behind token tokens found _ ih =>
    have finds := reaches.finds found
    have marks := marks_of_next calm found
    obtain ⟨there, offset, commented, awaiting⟩ := ih finds.reaches marks.calm
    rw [finds.stop] at offset
    rw [finds.commented] at commented
    rw [marks.awaiting] at awaiting
    rw [List.getLast?_cons]
    exact ⟨there, offset.trans (Option.getD_map _ _ _), commented.trans (Option.getD_map _ _ _),
      awaiting.trans (Option.getD_map _ _ _)⟩

/-! ### Scanners at other positions -/

/-- Scanners that differ in their positions only. -/
structure Alike (scanner other : Scanner) : Prop where
  path : scanner.path = other.path
  rest : scanner.rest = other.rest
  awaiting : scanner.awaiting = other.awaiting
  commented : scanner.commented = other.commented
  imports : scanner.imports = other.imports
  search : scanner.search = other.search

variable {other : Scanner}

theorem Alike.symm (alike : Alike scanner other) : Alike other scanner :=
  ⟨alike.path.symm, alike.rest.symm, alike.awaiting.symm, alike.commented.symm, alike.imports.symm,
    alike.search.symm⟩

theorem Alike.trans {third : Scanner} (alike : Alike scanner other) (alike' : Alike other third) :
    Alike scanner third :=
  ⟨alike.path.trans alike'.path, alike.rest.trans alike'.rest, alike.awaiting.trans alike'.awaiting,
    alike.commented.trans alike'.commented, alike.imports.trans alike'.imports,
    alike.search.trans alike'.search⟩

theorem Alike.consume (alike : Alike scanner other) (count : Nat) :
    Alike (scanner.consume count) (other.consume count) :=
  ⟨alike.path, congrArg (List.drop count) alike.rest, alike.awaiting, alike.commented, alike.imports,
    alike.search⟩

theorem Alike.started (alike : Alike scanner other) : Alike scanner.started other.started := by
  have moved := alike.consume (Lexeme.blanks false scanner.rest).length
  rw [Scanner.started, Scanner.started, ← alike.rest]
  exact ⟨moved.path, moved.rest, moved.awaiting, moved.commented, moved.imports, moved.search⟩

theorem Alike.settle (alike : Alike scanner other) {token' settled : Token}
    (same : token'.content = token.content)
    (done : scanner.settle files token = (.ok settled, behind)) :
    ∃ settled' behind', other.settle files token' = (.ok settled', behind') ∧
      settled'.content = settled.content ∧ Alike behind behind' := by
  obtain ⟨kind, literal⟩ := Prod.mk.inj same
  unfold Scanner.settle at done ⊢
  rw [kind, literal, ← alike.awaiting]
  dsimp only at done ⊢
  rw [← alike.search, ← alike.path]
  split_ifs at done ⊢ with importing idle named
  · cases done
    exact ⟨_, _, rfl, same, rfl, alike.rest, rfl, alike.commented, alike.imports, rfl⟩
  · cases done
    exact ⟨_, _, rfl, same, alike⟩
  · split at done
    · cases done
      refine ⟨_, _, rfl, rfl, rfl, alike.rest, rfl, alike.commented, ?_, rfl⟩
      exact congrArg (· ++ _) alike.imports
    · cases done
  · cases done
    exact ⟨_, _, rfl, same, rfl, alike.rest, rfl, alike.commented, alike.imports, rfl⟩

theorem Alike.next (alike : Alike scanner other)
    (found : scanner.next files = (.ok (some token), behind)) :
    ∃ token' behind', other.next files = (.ok (some token'), behind') ∧
      token'.content = token.content ∧ Alike behind behind' := by
  cases commented : scanner.commented with
  | true =>
    obtain ⟨body, closed, rfl, rfl⟩ := (next_comment_iff commented).mp found
    rw [alike.rest] at closed
    rw [alike.commented] at commented
    refine ⟨_, _, (next_comment_iff commented).mpr ⟨body, closed, rfl, rfl⟩, rfl, ?_⟩
    have content : Alike { scanner with commented := false } { other with commented := false } :=
      ⟨alike.path, alike.rest, alike.awaiting, rfl, alike.imports, alike.search⟩
    have moved := (content.consume body.length).consume 2
    exact ⟨moved.path, moved.rest, moved.awaiting, moved.commented, moved.imports, moved.search⟩
  | false =>
    obtain ⟨first, more, kind, literal, extent, starts, read, done⟩ := next_lexeme commented found
    have moved := alike.started.consume (extent + 1)
    have lexeme : Alike
        { scanner.started.consume (extent + 1) with commented := kind == .commentBegin }
        { other.started.consume (extent + 1) with commented := kind == .commentBegin } :=
      ⟨moved.path, moved.rest, moved.awaiting, rfl, moved.imports, moved.search⟩
    rw [alike.started.rest] at starts
    rw [alike.commented] at commented
    have content : Token.content ⟨kind, String.ofList literal,
          ⟨other.started.here, (other.started.consume (extent + 1)).here⟩⟩ =
        Token.content ⟨kind, String.ofList literal,
          ⟨scanner.started.here, (scanner.started.consume (extent + 1)).here⟩⟩ := rfl
    obtain ⟨settled, finished, done', same, alike'⟩ := lexeme.settle content done
    exact ⟨settled, finished, next_of_read commented starts read done', same, alike'⟩

theorem Alike.next_none (alike : Alike scanner other) (found : scanner.next files = (.ok none, behind)) :
    ∃ behind', other.next files = (.ok none, behind') ∧ behind.imports = behind'.imports := by
  rw [Scanner.next] at found ⊢
  rw [← alike.commented]
  split_ifs at found ⊢ with commented
  · rw [commentEnd] at found ⊢
    dsimp only at found ⊢
    rw [← alike.rest]
    split at found
    · cases found
      exact ⟨_, rfl, alike.imports⟩
    · cases found
  · have same := alike.started.rest
    rw [Scanner.started, Scanner.started] at same
    dsimp only at found ⊢
    rw [← same]
    split at found
    · cases found
      exact ⟨_, rfl, alike.imports⟩
    · repeat' split at found
      all_goals cases found

end Scanner

namespace TokenStream

variable {files : Files} {scanner behind finished other : Scanner} {before after tokens : List Token}
  {token : Token}

theorem next_of_scanAll_nil (scanned : scanAll files scanner = (.ok [], finished)) :
    scanner.next files = (.ok none, finished) := by
  rw [scanAll_eq] at scanned
  split at scanned
  · cases scanned
  · next found =>
    cases scanned
    exact found
  · split at scanned <;> cases scanned

theorem next_of_scanAll_cons (scanned : scanAll files scanner = (.ok (token :: tokens), finished)) :
    ∃ behind, scanner.next files = (.ok (some token), behind) ∧
      scanAll files behind = (.ok tokens, finished) := by
  rw [scanAll_eq] at scanned
  split at scanned
  · cases scanned
  · cases scanned
  · next behind found =>
    split at scanned
    · cases scanned
    · next others =>
      cases scanned
      exact ⟨behind, found, others⟩

theorem runs_of_scanAll (scanned : scanAll files scanner = (.ok (before ++ after), finished)) :
    ∃ behind, Scanner.Runs files scanner before behind ∧
      scanAll files behind = (.ok after, finished) := by
  induction before generalizing scanner with
  | nil => exact ⟨scanner, .here, scanned⟩
  | cons token before ih =>
    obtain ⟨middle, found, others⟩ := next_of_scanAll_cons scanned
    obtain ⟨behind, runs, rest⟩ := ih others
    exact ⟨behind, .on found runs, rest⟩

theorem scanAll_of_runs (runs : Scanner.Runs files scanner before behind)
    (scanned : scanAll files behind = (.ok after, finished)) :
    scanAll files scanner = (.ok (before ++ after), finished) := by
  induction runs with
  | here => exact scanned
  | on found _ ih =>
    rw [scanAll_eq, found]
    dsimp only
    rw [ih scanned]
    rfl

theorem scanAll_alike (alike : Scanner.Alike scanner other)
    (scanned : scanAll files scanner = (.ok tokens, finished)) :
    ∃ tokens' finished', scanAll files other = (.ok tokens', finished') ∧
      tokens'.map Token.content = tokens.map Token.content ∧
      finished.imports = finished'.imports := by
  induction tokens generalizing scanner other with
  | nil =>
    obtain ⟨finished', ended, imports⟩ := alike.next_none (next_of_scanAll_nil scanned)
    refine ⟨[], finished', ?_, rfl, imports⟩
    rw [scanAll_eq, ended]
  | cons token tokens ih =>
    obtain ⟨behind, found, others⟩ := next_of_scanAll_cons scanned
    obtain ⟨token', behind', found', same, alike'⟩ := alike.next found
    obtain ⟨tokens', finished', scanned', others', imports⟩ := ih alike' others
    refine ⟨token' :: tokens', finished', ?_, ?_, imports⟩
    · rw [scanAll_eq, found']
      dsimp only
      rw [scanned']
    · rw [List.map_cons, List.map_cons, same, others']

end TokenStream

end StackLang
