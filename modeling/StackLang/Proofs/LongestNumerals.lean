import Mathlib.Computability.RegularExpressions
import StackLang.Proofs.CodeBlocks

/-! Numbers are read by longest match. The shape of a number is a regular expression. The scanner
takes its parts one after the other and never goes back; what it has taken in the end is the longest
beginning of the text that the expression matches. -/
namespace StackLang

open Text (Position)

/-! ### The regular expression of numbers -/

namespace Pattern

def anyOf (chars : List Char) : RegularExpression Char :=
  chars.foldr (fun c others => .char c + others) 0

def atMostOne (pattern : RegularExpression Char) : RegularExpression Char := 1 + pattern

def atLeastOne (pattern : RegularExpression Char) : RegularExpression Char := pattern * pattern.star

def digits : List Char := ['0', '1', '2', '3', '4', '5', '6', '7', '8', '9']

def digit : RegularExpression Char := anyOf digits

def fraction : RegularExpression Char := .char '.' * digit.star

def exponent : RegularExpression Char :=
  anyOf ['e', 'E'] * (atMostOne (anyOf ['+', '-']) * atLeastOne digit)

/-- A sign, digits, a point with further digits and a power of ten: `-?[0-9]+(\.[0-9]*)?` with
`([eE][+-]?[0-9]+)?` behind it. -/
def number : RegularExpression Char :=
  atMostOne (.char '-') * (atLeastOne digit * (atMostOne fraction * atMostOne exponent))

structure Longest (pattern : RegularExpression Char) (text found : List Char) : Prop where
  starts : found <+: text
  fits : found ∈ pattern.matches'
  longest : ∀ other, other <+: text → other ∈ pattern.matches' → other.length ≤ found.length

variable {pattern : RegularExpression Char} {text : List Char}

theorem mem_anyOf {chars : List Char} :
    text ∈ (anyOf chars).matches' ↔ ∃ c ∈ chars, text = [c] := by
  induction chars with
  | nil => simp [anyOf, Language.notMem_zero]
  | cons first chars ih =>
    change text ∈ ({[first]} : Language Char) + (anyOf chars).matches' ↔ _
    rw [Language.mem_add, ih, List.exists_mem_cons_iff]
    rfl

theorem mem_atMostOne : text ∈ (atMostOne pattern).matches' ↔ text = [] ∨ text ∈ pattern.matches' :=
  Iff.rfl

theorem mem_digits {c : Char} : c ∈ digits ↔ Lexeme.isDigit c = true := by
  constructor
  · have all : digits.all Lexeme.isDigit = true := rfl
    exact List.all_eq_true.mp all c
  · intro counted
    have bounds : (decide ('0'.val ≤ c.val) && decide (c.val ≤ '9'.val)) = true := counted
    simp only [Bool.and_eq_true, decide_eq_true_eq, UInt32.le_iff_toNat_le] at bounds
    have low : 48 ≤ c.toNat := bounds.1
    have high : c.toNat ≤ 57 := bounds.2
    have codes : ∀ code ∈ List.range' 48 10, Char.ofNat code ∈ digits := by decide
    rw [← Char.ofNat_toNat c]
    exact codes c.toNat (List.mem_range'_1.mpr ⟨low, by omega⟩)

theorem mem_star_digit : text ∈ digit.star.matches' ↔ ∀ c ∈ text, Lexeme.isDigit c = true := by
  rw [RegularExpression.matches'_star, Language.mem_kstar]
  simp only [digit, mem_anyOf, mem_digits]
  constructor
  · rintro ⟨pieces, rfl, single⟩ c member
    obtain ⟨piece, among, member⟩ := List.mem_flatten.mp member
    obtain ⟨d, counted, rfl⟩ := single piece among
    rwa [List.mem_singleton.mp member]
  · intro counted
    refine ⟨text.map fun c => [c], (List.flatMap_singleton' text).symm, ?_⟩
    intro piece among
    obtain ⟨c, member, rfl⟩ := List.mem_map.mp among
    exact ⟨c, counted c member, rfl⟩

theorem mem_atLeastOne_digit : text ∈ (atLeastOne digit).matches' ↔
    text ≠ [] ∧ ∀ c ∈ text, Lexeme.isDigit c = true := by
  rw [atLeastOne, RegularExpression.matches'_mul, Language.mem_mul]
  simp only [mem_star_digit]
  constructor
  · rintro ⟨first, single, others, counted, rfl⟩
    obtain ⟨c, digit, rfl⟩ := mem_anyOf.mp single
    exact ⟨List.cons_ne_nil c others, List.forall_mem_cons.mpr ⟨mem_digits.mp digit, counted⟩⟩
  · rintro ⟨some, counted⟩
    obtain ⟨c, others, rfl⟩ := List.exists_cons_of_ne_nil some
    obtain ⟨digit, counted⟩ := List.forall_mem_cons.mp counted
    exact ⟨[c], mem_anyOf.mpr ⟨c, mem_digits.mpr digit, rfl⟩, others, counted, rfl⟩

theorem mem_fraction : text ∈ (atMostOne fraction).matches' ↔ Lexeme.Fraction text := by
  rw [mem_atMostOne, fraction, RegularExpression.matches'_mul, Language.mem_mul]
  simp only [mem_star_digit]
  constructor
  · rintro (rfl | ⟨point, rfl, digits, counted, rfl⟩)
    · exact .none
    · exact .point counted
  · rintro (_ | counted)
    · exact .inl rfl
    · exact .inr ⟨['.'], rfl, _, counted, rfl⟩

theorem mem_minus : text ∈ (atMostOne (.char '-')).matches' ↔ text = [] ∨ text = ['-'] := Iff.rfl

theorem mem_sign : text ∈ (atMostOne (anyOf ['+', '-'])).matches' ↔
    text = [] ∨ text = ['+'] ∨ text = ['-'] := by
  rw [mem_atMostOne, mem_anyOf]
  simp

theorem mem_exponent : text ∈ (atMostOne exponent).matches' ↔ Lexeme.Exponent text := by
  rw [mem_atMostOne, exponent, RegularExpression.matches'_mul, Language.mem_mul]
  simp only [RegularExpression.matches'_mul, Language.mem_mul, mem_sign, mem_atLeastOne_digit,
    mem_anyOf]
  constructor
  · rintro (rfl | ⟨_, ⟨mark, marked, rfl⟩, _, ⟨signs, signed, digits, ⟨some, counted⟩, rfl⟩, rfl⟩)
    · exact .none
    · exact @Lexeme.Exponent.power mark signs digits (by simpa using marked) signed some counted
  · rintro (_ | ⟨marked, signed, some, counted⟩)
    · exact .inl rfl
    · exact .inr ⟨_, ⟨_, by simpa using marked, rfl⟩, _, ⟨_, signed, _, ⟨some, counted⟩, rfl⟩, rfl⟩

/-- The regular expression matches the numerals of the scanner. -/
theorem mem_number : text ∈ number.matches' ↔ Lexeme.Numeral text := by
  rw [number, RegularExpression.matches'_mul, Language.mem_mul]
  simp only [RegularExpression.matches'_mul, Language.mem_mul, mem_atLeastOne_digit, mem_fraction,
    mem_exponent, mem_minus]
  constructor
  · rintro ⟨minus, signed, _, ⟨whole, ⟨some, counted⟩, _, ⟨part, pointed, power, raised, rfl⟩, rfl⟩,
      rfl⟩
    exact .parts signed some counted pointed raised
  · rintro ⟨signed, some, counted, pointed, raised⟩
    exact ⟨_, signed, _, ⟨_, ⟨some, counted⟩, _, ⟨_, pointed, _, raised, rfl⟩, rfl⟩, rfl⟩

end Pattern

/-! ### The number at the front of a text -/

namespace Lexeme

variable {text rest : List Char}

theorem numberTail_digits {digits : List Char} (counted : ∀ c ∈ digits, isDigit c = true)
    (text : List Char) : numberTail (digits ++ text) = digits ++ numberTail text := by
  have behind : (digits ++ text).drop (digits ++ text.takeWhile isDigit).length =
      text.drop (text.takeWhile isDigit).length := by
    rw [List.length_append, ← List.drop_drop, List.drop_left]
  simp only [numberTail, List.takeWhile_append_of_pos counted, behind, List.append_assoc]

theorem numberTail_point (text : List Char) : numberTail ('.' :: text) =
    '.' :: (text.takeWhile isDigit ++ exponent (text.dropWhile isDigit)) := by
  have pointed : fraction ('.' :: text) = '.' :: text.takeWhile isDigit := rfl
  have parted : text.takeWhile isDigit ++ text.dropWhile isDigit = text :=
    List.takeWhile_append_dropWhile
  change fraction ('.' :: text) ++ exponent (('.' :: text).drop (fraction ('.' :: text)).length) = _
  rw [pointed, List.length_cons, List.drop_succ_cons, drop_length_of_append parted, List.cons_append]

theorem numberTail_mark {mark : Char} (marked : mark = 'e' ∨ mark = 'E') (text : List Char) :
    numberTail (mark :: text) = exponent (mark :: text) := by
  rcases marked with rfl | rfl <;> rfl

/-- An exponent is read to its last digit, and to those that follow. -/
theorem prefix_exponent {power : List Char} (raised : Exponent power) (rest : List Char) :
    power <+: exponent (power ++ rest) := by
  cases raised with
  | none => exact List.nil_prefix
  | @power mark signs digits marked signed some counted =>
    obtain ⟨first, digits, rfl⟩ := List.exists_cons_of_ne_nil some
    have same : sign (signs ++ (first :: digits ++ rest)) = signs := by
      rcases signed with rfl | rfl | rfl
      · exact sign_of_digit (counted first List.mem_cons_self) (digits ++ rest)
      · rfl
      · rfl
    rw [List.cons_append, List.append_assoc, exponent, if_pos (by simpa using marked)]
    dsimp only
    rw [same, List.drop_left, List.takeWhile_append_of_pos counted]
    refine ⟨rest.takeWhile isDigit, ?_⟩
    simp

/-- Behind the digits of a number, what can be a fraction and an exponent is taken. -/
theorem prefix_decimals {part power : List Char} (pointed : Fraction part) (raised : Exponent power)
    (rest : List Char) : part ++ power <+: numberTail (part ++ power ++ rest) := by
  cases pointed with
  | none =>
    cases power with
    | nil => exact List.nil_prefix
    | cons mark tail =>
      have marked : mark = 'e' ∨ mark = 'E' := by
        cases raised with
        | power marked => exact marked
      rw [List.nil_append, List.cons_append, numberTail_mark marked]
      exact prefix_exponent raised rest
  | @point digits counted =>
    rw [List.cons_append, List.cons_append, numberTail_point, List.append_assoc,
      List.takeWhile_append_of_pos counted, List.dropWhile_append_of_pos counted, List.append_assoc,
      List.cons_prefix_cons, List.prefix_append_right_inj]
    refine ⟨rfl, ?_⟩
    cases power with
    | nil => exact List.nil_prefix
    | cons mark tail =>
      have other : isDigit mark = false := raised.head_not_digit mark rfl
      rw [List.cons_append, List.takeWhile_cons_of_neg (by simp [other]),
        List.dropWhile_cons_of_neg (by simp [other])]
      exact prefix_exponent raised rest

/-- No numeral at the front of a text is longer than what is read there. -/
theorem length_numeral_le {first : Char} {numeral : List Char} (shape : Numeral numeral)
    (starts : numeral <+: first :: text) : numeral.length ≤ (first :: numberTail text).length := by
  obtain ⟨rest, whole⟩ := starts
  obtain ⟨signed, some, counted, pointed, raised⟩ := shape
  rename_i minus digits part power
  obtain ⟨digit, digits, rfl⟩ := List.exists_cons_of_ne_nil some
  obtain ⟨_, others⟩ := List.forall_mem_cons.mp counted
  have taken := prefix_decimals pointed raised rest
  rcases signed with rfl | rfl
  · have whole : digit :: (digits ++ (part ++ power ++ rest)) = first :: text := by
      simpa using whole
    obtain ⟨_, rfl⟩ := List.cons.inj whole
    rw [numberTail_digits others]
    simpa using taken.length_le
  · have whole : '-' :: (digit :: digits ++ (part ++ power ++ rest)) = first :: text := by
      simpa using whole
    obtain ⟨_, rfl⟩ := List.cons.inj whole
    rw [numberTail_digits counted]
    simpa using taken.length_le

def StartsNumber (text : List Char) : Prop :=
  ∃ c rest, isDigit c = true ∧ (text = c :: rest ∨ text = '-' :: c :: rest)

theorem read_number (numeric : StartsNumber text) :
    ∃ first more, text = first :: more ∧ read first more = readNumber first more ∧
      Pattern.Longest Pattern.number text (first :: numberTail more) := by
  obtain ⟨c, rest, digit, starts⟩ := numeric
  have signed : ∃ first more, text = first :: more ∧
      (isDigit first = true ∨ first = '-' ∧ more.head?.any isDigit = true) := by
    rcases starts with rfl | rfl
    · exact ⟨c, rest, rfl, .inl digit⟩
    · exact ⟨'-', c :: rest, rfl, .inr ⟨rfl, digit⟩⟩
  obtain ⟨first, more, rfl, signed⟩ := signed
  have made : read first more = readNumber first more := by
    rcases signed with digit | ⟨rfl, digit⟩
    · exact read_of_isDigit digit more
    · exact read_minus digit
  obtain ⟨shape, taken⟩ := numeral_of_read signed
  refine ⟨first, more, rfl, made, ?_, Pattern.mem_number.mpr shape, ?_⟩
  · rw [List.cons_prefix_cons, ← taken]
    exact ⟨rfl, List.take_prefix _ _⟩
  · intro other starts fits
    exact length_numeral_le (Pattern.mem_number.mp fits) starts

end Lexeme

namespace Scanner

variable {scanner : Scanner}

/-- Where a number starts a token is found. Its literal is the longest beginning of the text that
has the shape of a number, as it is written, and the scanner goes on right behind it. -/
theorem numbers_are_read_by_longest_match {text : List Char} (files : Files)
    (outside : scanner.commented = false) (starts : scanner.started.rest = text)
    (numeric : Lexeme.StartsNumber text) :
    ∃ literal behind, Pattern.Longest Pattern.number text literal ∧
      scanner.next files = (.ok (some ⟨.number, String.ofList literal,
        ⟨scanner.started.here, scanner.started.here.through literal⟩⟩), behind) ∧
      literal ++ behind.rest = text ∧ behind.here = scanner.started.here.through literal := by
  obtain ⟨first, more, rfl, made, longest⟩ := Lexeme.read_number numeric
  have read : Lexeme.read first more = .token .number (first :: Lexeme.numberTail more)
      (Lexeme.numberTail more).length := made
  have taken : (first :: more).take ((Lexeme.numberTail more).length + 1) =
      first :: Lexeme.numberTail more := (List.prefix_iff_eq_take.mp longest.starts).symm
  have there : (scanner.started.consume ((Lexeme.numberTail more).length + 1)).here =
      scanner.started.here.through (first :: Lexeme.numberTail more) := by
    rw [← taken, ← starts]
    rfl
  obtain ⟨finished, settled, kept⟩ := settle_unnamed
    { scanner.started.consume ((Lexeme.numberTail more).length + 1) with
      commented := TokenKind.number == .commentBegin } files
    ⟨.number, String.ofList (first :: Lexeme.numberTail more), ⟨scanner.started.here,
      (scanner.started.consume ((Lexeme.numberTail more).length + 1)).here⟩⟩
    (by simp)
  have found := next_of_read outside starts read settled
  rw [there] at found
  refine ⟨_, finished, longest, found, ?_, ?_⟩
  · have left : finished.rest = (first :: more).drop ((Lexeme.numberTail more).length + 1) := by
      rw [kept, ← starts]
      rfl
    rw [left, ← taken]
    exact List.take_append_drop _ _
  · rw [settle_keeps settled]
    exact there

/-- A point without digits, an exponent behind it, and a second exponent that has no digits, where
the name of a module is awaited. -/
def powers : Scanner :=
  { ofText ⟨"/w/main.qd"⟩ " -1.e5e+x".toList ⟨[], []⟩ with awaiting := true }

theorem exponent_without_digits_is_no_part_of_a_number :
    ∃ behind, Pattern.Longest Pattern.number "-1.e5e+x".toList "-1.e5".toList ∧
      powers.next ⟨[], []⟩ =
        (.ok (some ⟨.number, "-1.e5", ⟨⟨1, 2, 1⟩, ⟨1, 7, 6⟩⟩⟩), behind) ∧
      behind.rest = "e+x".toList := by
  have answer : (powers.next ⟨[], []⟩).1 =
      .ok (some ⟨.number, "-1.e5", ⟨⟨1, 2, 1⟩, ⟨1, 7, 6⟩⟩⟩) := by rfl
  have starts : powers.started.rest = "-1.e5e+x".toList := by rfl
  have outside : powers.commented = false := rfl
  obtain ⟨literal, behind, longest, found, parted, _⟩ := numbers_are_read_by_longest_match ⟨[], []⟩
    outside starts ⟨'1', ".e5e+x".toList, rfl, .inr rfl⟩
  rw [found] at answer
  have same : String.ofList literal = "-1.e5" :=
    congrArg Token.literal (Option.some.inj (Except.ok.inj answer))
  obtain rfl : literal = "-1.e5".toList := by rw [← same, String.toList_ofList]
  have left : "-1.e5".toList ++ behind.rest = "-1.e5".toList ++ "e+x".toList := parted
  exact ⟨behind, longest, found.trans (congrArg (·, behind) answer), List.append_cancel_left left⟩

end Scanner

end StackLang
