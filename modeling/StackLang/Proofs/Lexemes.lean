import Mathlib.Data.List.TakeWhile
import StackLang.Proofs.Braces

/-! The shapes of lexemes. A lexeme is described on its own, with the literal that it stands for; the
scanner reads nothing else from the front of a text, and it reads a lexeme that stands alone as a
whole. -/
namespace StackLang.Lexeme

inductive Fraction : List Char → Prop
  | none : Fraction []
  | point {digits : List Char} (counted : ∀ c ∈ digits, isDigit c = true) : Fraction ('.' :: digits)

inductive Exponent : List Char → Prop
  | none : Exponent []
  | power {mark : Char} {signs digits : List Char} (marked : mark = 'e' ∨ mark = 'E')
    (signed : signs = [] ∨ signs = ['+'] ∨ signs = ['-']) (some : digits ≠ [])
    (counted : ∀ c ∈ digits, isDigit c = true) : Exponent (mark :: (signs ++ digits))

inductive Numeral : List Char → Prop
  | parts {minus whole part power : List Char} (signed : minus = [] ∨ minus = ['-'])
    (some : whole ≠ []) (counted : ∀ c ∈ whole, isDigit c = true) (pointed : Fraction part)
    (raised : Exponent power) : Numeral (minus ++ (whole ++ (part ++ power)))

/-- A kind of token, a lexeme of that kind, and the literal that the lexeme stands for. -/
inductive Spelled : TokenKind → List Char → List Char → Prop
  | punctuation {c : Char} {kind : TokenKind} (listed : punctuation? c = some kind) :
    Spelled kind [c] [c]
  | colon : Spelled .colon [':'] [':']
  | doubleColon : Spelled .doubleColon [':', ':'] [':', ':']
  | commentBegin : Spelled .commentBegin ['/', '*'] ['/', '*']
  | commentEnd : Spelled .commentEnd ['*', '/'] ['*', '/']
  | number {lexeme : List Char} (numeral : Numeral lexeme) : Spelled .number lexeme lexeme
  | closedString {body : List Char} (plain : '"' ∉ body) :
    Spelled .string ('"' :: (body ++ ['"'])) body
  /-- A string that goes on to the end of the text. -/
  | openString {body : List Char} (plain : '"' ∉ body) : Spelled .string ('"' :: body) body
  | word {first : Char} {tail : List Char} (starts : isWordStart first = true)
    (continues : ∀ c ∈ tail, isWordPart c = true)
    (other : String.ofList (first :: tail) ≠ "__c") :
    Spelled ((TokenKind.ofKeyword? (String.ofList (first :: tail))).getD .identifier)
      (first :: tail) (first :: tail)
  | inlineC {blank code : List Char} (blanks : ∀ c ∈ blank, Text.isWhiteSpace c = true)
    (balanced : Text.Balanced code) :
    Spelled .inlineC ('_' :: '_' :: 'c' :: (blank ++ '\x7b' :: (code ++ ['\x7d']))) code

/-- The literal of a lexeme of a kind: a string without its quotes, C code between its outer braces,
and every other lexeme as it is. -/
def contentOf : TokenKind → List Char → List Char
  | .string, lexeme => lexeme.filter (· ≠ '"')
  | .inlineC, lexeme => (lexeme.dropWhile (· ≠ '\x7b')).tail.dropLast
  | _, lexeme => lexeme

/-- The kinds that neither one character nor a word of the language has. -/
def varied : List TokenKind :=
  [.number, .string, .identifier, .module, .inlineC, .commentBegin, .commentEnd, .endOfInput]

theorem punctuation?_not_varied {c : Char} {kind : TokenKind} (listed : punctuation? c = some kind) :
    kind ∉ varied := by
  obtain ⟨pair, found, rfl⟩ := Option.map_eq_some_iff.mp listed
  have all : ∀ pair ∈ punctuation, pair.2 ∉ varied := by decide
  exact all pair (List.mem_of_find?_eq_some found)

theorem ofKeyword?_not_varied {word : String} {kind : TokenKind}
    (reserved : TokenKind.ofKeyword? word = some kind) : kind ∉ varied := by
  unfold TokenKind.ofKeyword? at reserved
  split at reserved
  case h_13 =>
    obtain ⟨which, _, rfl⟩ := Option.map_eq_some_iff.mp reserved
    simp [varied]
  all_goals
    cases reserved
    decide

/-- The kind of a word that is in the language or can be a name. -/
theorem kind_of_word (word : String) {kind : TokenKind}
    (named : (TokenKind.ofKeyword? word).getD .identifier = kind) :
    kind ∉ varied ∨ kind = .identifier ∧ TokenKind.ofKeyword? word = none := by
  cases reserved : TokenKind.ofKeyword? word with
  | none =>
    rw [reserved] at named
    exact .inr ⟨named.symm, rfl⟩
  | some found =>
    rw [reserved] at named
    cases named
    exact .inl (ofKeyword?_not_varied reserved)

theorem contentOf_of_not_varied {kind : TokenKind} (plain : kind ∉ varied) (lexeme : List Char) :
    contentOf kind lexeme = lexeme := by
  unfold contentOf
  split
  · exact absurd (by decide) plain
  · exact absurd (by decide) plain
  · rfl

theorem ne_quote_of_mem {body : List Char} (plain : '"' ∉ body) :
    ∀ c ∈ body, decide (c ≠ '"') = true := by
  intro c member
  rw [decide_eq_true_iff]
  rintro rfl
  exact plain member

/-- A kind and a lexeme leave no choice for the literal. -/
theorem Spelled.literal_eq {kind : TokenKind} {lexeme literal : List Char}
    (spelled : Spelled kind lexeme literal) : literal = contentOf kind lexeme := by
  cases spelled with
  | punctuation listed => exact (contentOf_of_not_varied (punctuation?_not_varied listed) _).symm
  | closedString plain =>
    have kept := List.filter_eq_self.mpr (ne_quote_of_mem plain)
    simpa [contentOf] using kept.symm
  | openString plain =>
    have kept := List.filter_eq_self.mpr (ne_quote_of_mem plain)
    simpa [contentOf] using kept.symm
  | @word first tail =>
    rcases kind_of_word (String.ofList (first :: tail)) rfl with plain | ⟨named, _⟩
    · exact (contentOf_of_not_varied plain _).symm
    · rw [named]
      rfl
  | @inlineC blank _ blanks =>
    have before : ∀ c ∈ '_' :: '_' :: 'c' :: blank, decide (c ≠ '\x7b') = true := by
      intro c member
      rw [decide_eq_true_iff]
      rintro rfl
      have white : Text.isWhiteSpace '\x7b' = true := blanks _ (by simpa using member)
      exact absurd white (by decide)
    have parted : '_' :: '_' :: 'c' :: (blank ++ '\x7b' :: (literal ++ ['\x7d'])) =
        ('_' :: '_' :: 'c' :: blank) ++ '\x7b' :: (literal ++ ['\x7d']) := rfl
    rw [contentOf, parted, List.dropWhile_append_of_pos before]
    simp
  | _ => rfl

/-- What the kind of a lexeme tells about it and its literal. -/
def Told : TokenKind → List Char → List Char → Prop
  | .number, _, literal => Numeral literal
  | .identifier, _, literal => String.ofList literal ≠ "__c" ∧
    TokenKind.ofKeyword? (String.ofList literal) = none ∧ ∃ first tail, literal = first :: tail ∧
      isWordStart first = true ∧ ∀ c ∈ tail, isWordPart c = true
  | .inlineC, _, literal => Text.Balanced literal
  | .commentEnd, lexeme, _ => lexeme = ['*', '/']
  | .module, _, _ | .endOfInput, _, _ => False
  | _, _, _ => True

theorem told_of_not_varied {kind : TokenKind} (plain : kind ∉ varied) (lexeme literal : List Char) :
    Told kind lexeme literal := by
  cases kind with
  | number | identifier | inlineC | commentEnd | module | endOfInput =>
    exact absurd (by decide) plain
  | _ => trivial

theorem Spelled.told {kind : TokenKind} {lexeme literal : List Char}
    (spelled : Spelled kind lexeme literal) : Told kind lexeme literal := by
  cases spelled with
  | punctuation listed => exact told_of_not_varied (punctuation?_not_varied listed) _ _
  | @word first tail starts continues other =>
    rcases kind_of_word (String.ofList (first :: tail)) rfl with plain | ⟨named, free⟩
    · exact told_of_not_varied plain _ _
    · rw [named]
      exact ⟨other, free, first, tail, rfl, starts, continues⟩
  | number numeral => exact numeral
  | inlineC _ balanced => exact balanced
  | commentEnd => rfl
  | _ => trivial

/-- No text spells an end of input or a file that is imported. -/
theorem Spelled.kind_ne {kind : TokenKind} {lexeme literal : List Char}
    (spelled : Spelled kind lexeme literal) : kind ≠ .endOfInput ∧ kind ≠ .module := by
  constructor
  · rintro rfl
    exact spelled.told
  · rintro rfl
    exact spelled.told

/-! ### Numbers -/

theorem isDigit_of_mem_toString {value : Nat} {c : Char}
    (member : c ∈ (toString value).toList) : isDigit c = true := by
  rw [Nat.toString_eq_ofList_toDigits, String.toList_ofList] at member
  exact Nat.isDigit_of_mem_toDigits (by decide) (by decide) member

theorem not_isDigit_of_isWordStart {c : Char} (starts : isWordStart c = true) :
    isDigit c = false := by
  have letter : c.isAlpha = true ∨ c = '_' := by simpa [isWordStart] using starts
  rcases letter with alpha | rfl
  · have letter : (decide ('A'.val ≤ c.val ∧ c.val ≤ 'Z'.val) ||
        (decide ('a'.val ≤ c.val) && decide (c.val ≤ 'z'.val))) = true := alpha
    change (decide ('0'.val ≤ c.val) && decide (c.val ≤ '9'.val)) = false
    grind
  · rfl

/-- A run of characters that pass a test ends where one does not. -/
theorem takeWhile_run {test : Char → Bool} {run behind : List Char}
    (all : ∀ c ∈ run, test c = true) (stops : ∀ c ∈ behind.head?, test c = false) :
    (run ++ behind).takeWhile test = run := by
  rw [List.takeWhile_append_of_pos all]
  cases behind with
  | nil => simp
  | cons c behind => simp [stops c rfl]

theorem drop_length_of_append {front back text : List Char} (parted : front ++ back = text) :
    text.drop front.length = back := by
  rw [← parted, List.drop_left]

theorem take_length_of_append {front back text : List Char} (parted : front ++ back = text) :
    text.take front.length = front := by
  rw [← parted, List.take_left]

theorem fraction_parts (text : List Char) :
    Fraction (fraction text) ∧ ∃ behind, fraction text ++ behind = text := by
  unfold fraction
  split
  · next rest =>
    refine ⟨.point fun c member => List.mem_takeWhile_imp member, rest.dropWhile isDigit, ?_⟩
    rw [List.cons_append, List.takeWhile_append_dropWhile]
  · exact ⟨.none, text, rfl⟩

theorem sign_parts (text : List Char) :
    (sign text = [] ∨ sign text = ['+'] ∨ sign text = ['-']) ∧
      ∃ behind, sign text ++ behind = text := by
  unfold sign
  split
  · next rest => exact ⟨.inr (.inl rfl), rest, rfl⟩
  · next rest => exact ⟨.inr (.inr rfl), rest, rfl⟩
  · exact ⟨.inl rfl, text, rfl⟩

theorem exponent_parts (text : List Char) :
    Exponent (exponent text) ∧ ∃ behind, exponent text ++ behind = text := by
  cases text with
  | nil => exact ⟨.none, [], rfl⟩
  | cons mark rest =>
    obtain ⟨signed, behind, parted⟩ := sign_parts rest
    rw [exponent]
    dsimp only
    rw [drop_length_of_append parted]
    split_ifs with marked
    · split
      · exact ⟨.none, _, rfl⟩
      · next some =>
        have marked : mark = 'e' ∨ mark = 'E' := by simpa using marked
        refine ⟨.power marked signed some fun c member => List.mem_takeWhile_imp member,
          behind.dropWhile isDigit, ?_⟩
        rw [List.cons_append, List.append_assoc, List.takeWhile_append_dropWhile, parted]
    · exact ⟨.none, _, rfl⟩

theorem numberTail_parts (text : List Char) :
    ∃ part power behind, numberTail text = text.takeWhile isDigit ++ (part ++ power) ∧
      numberTail text ++ behind = text ∧ Fraction part ∧ Exponent power := by
  have whole : text.takeWhile isDigit ++ text.dropWhile isDigit = text :=
    List.takeWhile_append_dropWhile
  obtain ⟨pointed, more, parted⟩ := fraction_parts (text.dropWhile isDigit)
  obtain ⟨raised, behind, parted'⟩ := exponent_parts more
  have read : numberTail text =
      text.takeWhile isDigit ++ (fraction (text.dropWhile isDigit) ++ exponent more) := by
    rw [numberTail, drop_length_of_append whole, drop_length_of_append parted, List.append_assoc]
  refine ⟨_, _, behind, read, ?_, pointed, raised⟩
  rw [read]
  simp only [List.append_assoc]
  rw [parted', parted, whole]

theorem Fraction.head_not_digit {part power : List Char} (pointed : Fraction part)
    (raised : Exponent power) : ∀ c ∈ (part ++ power).head?, isDigit c = false := by
  cases pointed with
  | point => simp [isDigit]
  | none =>
    cases raised with
    | none => simp
    | power marked =>
      rcases marked with rfl | rfl <;> simp [isDigit]

theorem Exponent.head_not_digit {power : List Char} (raised : Exponent power) :
    ∀ c ∈ power.head?, isDigit c = false :=
  Fraction.none.head_not_digit raised

theorem fraction_append {part power : List Char} (pointed : Fraction part)
    (raised : Exponent power) : fraction (part ++ power) = part := by
  cases pointed with
  | point counted =>
    rw [List.cons_append, fraction, takeWhile_run counted raised.head_not_digit]
  | none =>
    cases raised with
    | none => rfl
    | power marked =>
      rcases marked with rfl | rfl <;> rfl

theorem sign_of_digit {c : Char} (digit : isDigit c = true) (rest : List Char) :
    sign (c :: rest) = [] := by
  unfold sign
  split
  · next starts =>
    cases starts
    exact absurd digit (by decide)
  · next starts =>
    cases starts
    exact absurd digit (by decide)
  · rfl

theorem exponent_self {power : List Char} (raised : Exponent power) : exponent power = power := by
  cases raised with
  | none => rfl
  | @power mark signs digits marked signed some counted =>
    obtain ⟨first, digits, rfl⟩ := List.exists_cons_of_ne_nil some
    have same : sign (signs ++ first :: digits) = signs := by
      rcases signed with rfl | rfl | rfl
      · exact sign_of_digit (counted first List.mem_cons_self) digits
      · rfl
      · rfl
    have all := List.takeWhile_eq_self_iff.mpr counted
    rw [exponent, if_pos (by simpa using marked)]
    dsimp only
    rw [same, List.drop_left, all]

theorem numberTail_self {whole part power : List Char}
    (counted : ∀ c ∈ whole, isDigit c = true) (pointed : Fraction part) (raised : Exponent power) :
    numberTail (whole ++ (part ++ power)) = whole ++ (part ++ power) := by
  rw [numberTail, takeWhile_run counted (pointed.head_not_digit raised), List.drop_left,
    fraction_append pointed raised, List.drop_left, exponent_self raised, List.append_assoc]

/-! ### Lexemes at the front of a text -/

theorem numeral_of_read {first : Char} {text : List Char}
    (starts : isDigit first = true ∨ first = '-' ∧ text.head?.any isDigit = true) :
    Numeral (first :: numberTail text) ∧
      text.take (numberTail text).length = numberTail text := by
  obtain ⟨part, power, behind, read, parted, pointed, raised⟩ := numberTail_parts text
  have counted : ∀ c ∈ text.takeWhile isDigit, isDigit c = true :=
    fun c member => List.mem_takeWhile_imp member
  constructor
  · rw [read]
    rcases starts with digit | ⟨rfl, digit⟩
    · exact .parts (.inl rfl) (List.cons_ne_nil first _)
        (List.forall_mem_cons.mpr ⟨digit, counted⟩) pointed raised
    · refine .parts (.inr rfl) ?_ counted pointed raised
      cases text with
      | nil => cases digit
      | cons c text =>
        have digit : isDigit c = true := digit
        simp [digit]
  · exact take_length_of_append parted

theorem spelled_string (text : List Char) :
    Spelled .string ('"' :: text.take ((stringBody text).length + 1)) (stringBody text) := by
  have plain : '"' ∉ stringBody text := by
    intro member
    have other := List.mem_takeWhile_imp member
    simp at other
  have parted : stringBody text ++ text.dropWhile (· ≠ '"') = text :=
    List.takeWhile_append_dropWhile
  cases behind : text.dropWhile (· ≠ '"') with
  | nil =>
    rw [behind, List.append_nil] at parted
    have all : text.take ((stringBody text).length + 1) = stringBody text := by
      rw [parted]
      exact List.take_of_length_le (Nat.le_succ _)
    rw [all]
    exact .openString plain
  | cons c rest =>
    have quote : c = '"' := by
      have stops := List.head?_dropWhile_not (· ≠ '"') text
      rw [behind] at stops
      simpa using stops
    rw [behind, quote] at parted
    have front : (stringBody text ++ ['"']) ++ rest = text := by
      rw [List.append_assoc]
      exact parted
    have taken := take_length_of_append front
    rw [List.length_append] at taken
    rw [show (stringBody text).length + 1 = (stringBody text).length + ['"'].length from rfl, taken]
    exact .closedString plain

theorem spelled_word {first : Char} {text : List Char} (starts : isWordStart first = true)
    (other : String.ofList (first :: wordTail text) ≠ "__c") :
    Spelled ((TokenKind.ofKeyword? (String.ofList (first :: wordTail text))).getD .identifier)
      (first :: text.take (wordTail text).length) (first :: wordTail text) := by
  have front : text.take (wordTail text).length = wordTail text :=
    (List.prefix_iff_eq_take.mp (List.takeWhile_prefix isWordPart)).symm
  rw [front]
  exact .word starts (fun c member => List.mem_takeWhile_imp member) other

theorem readInlineC_ok {text literal : List Char} {kind : TokenKind} {extent : Nat}
    (made : readInlineC text = .token kind literal extent) :
    kind = .inlineC ∧ Text.Balanced literal ∧ ∃ blank, (∀ c ∈ blank, Text.isWhiteSpace c = true) ∧
      text.take extent = blank ++ '\x7b' :: (literal ++ ['\x7d']) := by
  have parted : text.takeWhile Text.isWhiteSpace ++ text.dropWhile Text.isWhiteSpace = text :=
    List.takeWhile_append_dropWhile
  unfold readInlineC at made
  dsimp only at made
  rw [drop_length_of_append parted] at made
  split at made
  · cases made
  · next c inside started =>
    split_ifs at made with opening
    split at made
    · next code closed =>
      cases made
      obtain ⟨rest, rfl, counted⟩ := braced?_eq_some_iff.mp closed
      rw [started, opening] at parted
      have front : (text.takeWhile Text.isWhiteSpace ++ '\x7b' :: (literal ++ ['\x7d'])) ++ rest =
          text := by
        simpa using parted
      have taken := take_length_of_append front
      refine ⟨rfl, Text.balanced_iff_nest?.mpr counted, text.takeWhile Text.isWhiteSpace,
        fun c member => List.mem_takeWhile_imp member, ?_⟩
      rw [← taken]
      congr 1
      simp
      omega
    · cases made

theorem spelled_of_readWord {first : Char} {text literal : List Char} {kind : TokenKind}
    {extent : Nat} (starts : isWordStart first = true)
    (made : readWord first text = .token kind literal extent) :
    Spelled kind (first :: text.take extent) literal := by
  have parted : wordTail text ++ text.dropWhile isWordPart = text :=
    List.takeWhile_append_dropWhile
  unfold readWord at made
  dsimp only at made
  rw [drop_length_of_append parted] at made
  split_ifs at made with inline
  · have spelled : first :: wordTail text = ['_', '_', 'c'] := by
      have same := congrArg String.toList inline
      rwa [String.toList_ofList] at same
    obtain ⟨rfl, tail⟩ := List.cons.inj spelled
    cases code : readInlineC (text.dropWhile isWordPart) with
    | failure => rw [code] at made; cases made
    | token block inner width =>
      rw [code] at made
      cases made
      obtain ⟨rfl, balanced, blank, blanks, taken⟩ := readInlineC_ok code
      have front : text.take ((wordTail text).length + width) =
          ['_', 'c'] ++ (blank ++ '\x7b' :: (literal ++ ['\x7d'])) := by
        rw [List.take_add, take_length_of_append parted, drop_length_of_append parted, taken, tail]
      rw [front]
      exact .inlineC blanks balanced
  · cases made
    exact spelled_word starts inline

/-- What is read at the front of a text is spelled by the characters that it takes. -/
theorem spelled_of_read {first : Char} {text literal : List Char} {kind : TokenKind} {extent : Nat}
    (made : read first text = .token kind literal extent) :
    Spelled kind (first :: text.take extent) literal := by
  unfold read at made
  split at made
  · next listed =>
    cases made
    exact .punctuation listed
  · split_ifs at made with colon twice comment numeric quote starts
    · cases made
      obtain ⟨rest, rfl⟩ := List.head?_eq_some_iff.mp twice
      rw [colon]
      exact .doubleColon
    · cases made
      rw [colon]
      exact .colon
    · cases made
      obtain ⟨slash, star⟩ : first = '/' ∧ text.head? = some '*' := by simpa using comment
      obtain ⟨rest, rfl⟩ := List.head?_eq_some_iff.mp star
      rw [slash]
      exact .commentBegin
    · cases made
      obtain ⟨numeral, taken⟩ := numeral_of_read (by simpa using numeric)
      rw [taken]
      exact .number numeral
    · cases made
      rw [quote]
      exact spelled_string text
    · exact spelled_of_readWord starts made

/-! ### Lexemes that stand alone -/

theorem isWordPart_of_isDigit {c : Char} (digit : isDigit c = true) : isWordPart c = true := by
  have digit : c.isDigit = true := digit
  simp [isWordPart, Char.isAlphanum, digit]

theorem isWordPart_of_isWordStart {c : Char} (starts : isWordStart c = true) :
    isWordPart c = true := by
  have letter : c.isAlpha = true ∨ c = '_' := by simpa [isWordStart] using starts
  rcases letter with alpha | rfl
  · simp [isWordPart, Char.isAlphanum, alpha]
  · rfl

theorem punctuation?_of_isWordPart {c : Char} (part : isWordPart c = true) :
    punctuation? c = none := by
  unfold punctuation?
  rw [Option.map_eq_none_iff, List.find?_eq_none]
  rintro ⟨mark, kind⟩ listed same
  have none : (punctuation.all fun pair => !isWordPart pair.1) = true := by decide
  have other := List.all_eq_true.mp none _ listed
  rw [beq_iff_eq.mp same, part] at other
  cases other

theorem read_of_isWordStart {first : Char} (starts : isWordStart first = true) (text : List Char) :
    read first text = readWord first text := by
  have part := isWordPart_of_isWordStart starts
  have digit := not_isDigit_of_isWordStart starts
  have other {c : Char} (plain : isWordStart c = false) : first ≠ c := by
    rintro rfl
    rw [starts] at plain
    cases plain
  rw [read, punctuation?_of_isWordPart part]
  simp [other (c := ':') rfl, other (c := '/') rfl, other (c := '-') rfl, other (c := '"') rfl,
    digit, starts]

theorem read_of_isDigit {first : Char} (digit : isDigit first = true) (text : List Char) :
    read first text = readNumber first text := by
  have part := isWordPart_of_isDigit digit
  have other {c : Char} (plain : isDigit c = false) : first ≠ c := by
    rintro rfl
    rw [digit] at plain
    cases plain
  rw [read, punctuation?_of_isWordPart part]
  simp [other (c := ':') rfl, other (c := '/') rfl, digit]

theorem read_minus {text : List Char} (digit : text.head?.any isDigit = true) :
    read '-' text = readNumber '-' text := by
  have none : punctuation? '-' = none := rfl
  rw [read, none]
  simp [digit]

theorem read_numeral {first : Char} {tail : List Char} (numeral : Numeral (first :: tail)) :
    read first tail = .token .number (first :: tail) tail.length := by
  generalize spelled : first :: tail = lexeme at numeral
  obtain ⟨signed, some, counted, pointed, raised⟩ := numeral
  rename_i minus whole part power
  obtain ⟨digit, digits, rfl⟩ := List.exists_cons_of_ne_nil some
  rcases signed with rfl | rfl
  · have spelled : first :: tail = digit :: (digits ++ (part ++ power)) := spelled
    obtain ⟨rfl, rfl⟩ := List.cons.inj spelled
    have others := (List.forall_mem_cons.mp counted).2
    rw [read_of_isDigit (counted first List.mem_cons_self), readNumber,
      numberTail_self others pointed raised]
    rfl
  · have spelled : first :: tail = '-' :: (digit :: digits ++ (part ++ power)) := spelled
    obtain ⟨rfl, rfl⟩ := List.cons.inj spelled
    have starts : (digit :: digits ++ (part ++ power)).head?.any isDigit = true :=
      counted digit List.mem_cons_self
    rw [read_minus starts, readNumber, numberTail_self counted pointed raised]
    rfl

theorem not_isWordPart_of_isWhiteSpace {c : Char} (blank : Text.isWhiteSpace c = true) :
    isWordPart c = false := by
  by_contra part
  rw [Bool.not_eq_false] at part
  have word : c.isAlpha = true ∨ c.isDigit = true ∨ c = '_' := by
    simpa [isWordPart, Char.isAlphanum, or_assoc] using part
  have inside : 48 ≤ c.toNat ∧ c.toNat ≤ 122 := by
    rcases word with alpha | digit | rfl
    · have letter : (decide ('A'.val ≤ c.val ∧ c.val ≤ 'Z'.val) ||
          (decide ('a'.val ≤ c.val) && decide (c.val ≤ 'z'.val))) = true := alpha
      simp only [Bool.or_eq_true, Bool.and_eq_true, decide_eq_true_eq,
        UInt32.le_iff_toNat_le] at letter
      simp at letter
      omega
    · have digit : (decide ('0'.val ≤ c.val) && decide (c.val ≤ '9'.val)) = true := digit
      simp only [Bool.and_eq_true, decide_eq_true_eq, UInt32.le_iff_toNat_le] at digit
      simp at digit
      omega
    · decide
  simp [Text.isWhiteSpace, Text.Ranges.contains, Text.whiteSpace] at blank
  omega

theorem stringBody_append {body behind : List Char} (plain : '"' ∉ body)
    (stops : ∀ c ∈ behind.head?, c = '"') : stringBody (body ++ behind) = body := by
  apply takeWhile_run (ne_quote_of_mem plain)
  intro c starts
  simp [stops c starts]

theorem readWord_self {first : Char} {tail : List Char}
    (continues : ∀ c ∈ tail, isWordPart c = true)
    (other : String.ofList (first :: tail) ≠ "__c") :
    readWord first tail =
      .token ((TokenKind.ofKeyword? (String.ofList (first :: tail))).getD .identifier)
        (first :: tail) tail.length := by
  have whole : wordTail tail = tail := List.takeWhile_eq_self_iff.mpr continues
  rw [readWord, whole]
  exact if_neg other

theorem readInlineC_self {blank code : List Char}
    (blanks : ∀ c ∈ blank, Text.isWhiteSpace c = true) (balanced : Text.Balanced code) :
    readInlineC (blank ++ '\x7b' :: (code ++ ['\x7d'])) =
      .token .inlineC code (blank ++ '\x7b' :: (code ++ ['\x7d'])).length := by
  have run : (blank ++ '\x7b' :: (code ++ ['\x7d'])).takeWhile Text.isWhiteSpace = blank :=
    takeWhile_run blanks (by simp; decide)
  have closed : braced? 0 (code ++ ['\x7d']) = some code :=
    braced?_eq_some_iff.mpr ⟨[], rfl, Text.balanced_iff_nest?.mp balanced⟩
  rw [readInlineC, run, List.drop_left]
  dsimp only
  rw [if_pos rfl, closed]
  dsimp only
  congr 1
  simp
  omega

theorem wordTail_inlineC {blank : List Char} (blanks : ∀ c ∈ blank, Text.isWhiteSpace c = true)
    (rest : List Char) : wordTail ('_' :: 'c' :: (blank ++ '\x7b' :: rest)) = ['_', 'c'] := by
  have stops : ∀ c ∈ (blank ++ '\x7b' :: rest).head?, isWordPart c = false := by
    cases blank with
    | nil => simp; decide
    | cons c blank =>
      have ended := not_isWordPart_of_isWhiteSpace (blanks c List.mem_cons_self)
      simpa using ended
  have run : ∀ c ∈ ['_', 'c'], isWordPart c = true := List.all_eq_true.mp rfl
  exact takeWhile_run run stops

/-- A lexeme that stands alone is read as a whole, but for the end of a comment, which means nothing
outside of one. A string that is not closed takes the end of the text along. -/
theorem read_of_spelled {first : Char} {tail literal : List Char} {kind : TokenKind}
    (spelled : Spelled kind (first :: tail) literal) (outside : kind ≠ .commentEnd) :
    ∃ extent, read first tail = .token kind literal extent ∧ tail.length ≤ extent := by
  generalize whole : first :: tail = lexeme at spelled
  cases spelled with
  | punctuation listed =>
    cases whole
    refine ⟨0, ?_, Nat.le_refl 0⟩
    rw [read, listed]
  | colon =>
    cases whole
    exact ⟨0, rfl, Nat.le_refl 0⟩
  | doubleColon =>
    cases whole
    exact ⟨1, rfl, Nat.le_refl 1⟩
  | commentBegin =>
    cases whole
    exact ⟨1, rfl, Nat.le_refl 1⟩
  | commentEnd => exact absurd rfl outside
  | number numeral =>
    subst whole
    exact ⟨tail.length, read_numeral numeral, Nat.le_refl _⟩
  | closedString plain =>
    cases whole
    refine ⟨literal.length + 1, ?_, by simp⟩
    change readString (literal ++ ['"']) = _
    rw [readString, stringBody_append plain (by simp)]
  | openString plain =>
    cases whole
    refine ⟨tail.length + 1, ?_, Nat.le_succ _⟩
    change readString tail = _
    have run : stringBody (tail ++ []) = tail := stringBody_append plain (by simp)
    rw [List.append_nil] at run
    rw [readString, run]
  | word starts continues other =>
    cases whole
    exact ⟨tail.length, (read_of_isWordStart starts tail).trans (readWord_self continues other),
      Nat.le_refl _⟩
  | @inlineC blank _ blanks balanced =>
    cases whole
    have tail := wordTail_inlineC blanks (literal ++ ['\x7d'])
    refine ⟨2 + (blank ++ '\x7b' :: (literal ++ ['\x7d'])).length, ?_, by simp; omega⟩
    rw [read_of_isWordStart rfl, readWord, tail, if_pos rfl]
    have code := readInlineC_self blanks balanced
    change (readInlineC (blank ++ '\x7b' :: (literal ++ ['\x7d']))).behind 2 = _
    rw [code]
    rfl

/-- Nothing is skipped in front of a lexeme. -/
theorem blanks_of_read {first : Char} {text literal : List Char} {kind : TokenKind} {extent : Nat}
    (made : read first text = .token kind literal extent) : blanks false (first :: text) = [] := by
  rw [blanks, if_neg Bool.false_ne_true]
  split_ifs with blank comment
  · have blank : first = ' ' ∨ first = '\t' ∨ first = '\r' := by
      simpa [isBlank, or_assoc] using blank
    rcases blank with rfl | rfl | rfl <;> cases made
  · obtain ⟨slash, more⟩ : first = '/' ∧ text.head? = some '/' := by simpa using comment
    obtain ⟨rest, rfl⟩ := List.head?_eq_some_iff.mp more
    subst slash
    cases made
  · rfl

end StackLang.Lexeme
