import Mathlib.Algebra.Field.Rat
import Mathlib.Data.List.Induction
import Mathlib.Tactic.GCongr
import Mathlib.Tactic.Ring
import StackLang.Number.Reading
import StackLang.Output.Lower
import StackLang.Proofs.Scanning

/-! Numbers in generated code. A numeral is copied into the code as it is written, and there the rules
of C decide which number it is: digits alone are octal behind a zero and have to fit into an integer
type, while with a point or an exponent they are decimal. The main result says which numerals stand for
the same number in both languages. -/
namespace StackLang

open Lexeme (Exponent Fraction Numeral isDigit)

/-! ### Numbers and digits -/

def digitOf (c : Char) : Nat := c.toNat - '0'.toNat

def numberOf (base : Nat) (digits : List Char) : Nat := Number.ofDigits base (digits.map digitOf)

/-- The exact number that a decimal text stands for, before it is rounded to a cell. -/
def decimalValue (literal : List Char) : ℚ :=
  let (negative, text) := Number.sign literal
  let (values, places, rest) := Number.pointedDigits 10 text
  let size : ℚ := Number.ofDigits 10 values * 10 ^ (Number.exponentAfter 'e' rest - places)
  if negative then -size else size

theorem numberOf_append (base : Nat) (front back : List Char) :
    numberOf base (front ++ back) = numberOf base front * base ^ back.length + numberOf base back := by
  induction back using List.reverseRecOn with
  | nil => simp [numberOf, Number.ofDigits]
  | append_singleton back c ih =>
    simp only [numberOf, Number.ofDigits, List.map_append, List.foldl_append, List.map_cons,
      List.map_nil, List.foldl_cons, List.foldl_nil, List.length_append, List.length_singleton] at ih ⊢
    rw [ih]
    ring

theorem numberOf_cons (base : Nat) (c : Char) (digits : List Char) :
    numberOf base (c :: digits) = digitOf c * base ^ digits.length + numberOf base digits := by
  have parted := numberOf_append base [c] digits
  simpa [numberOf, Number.ofDigits] using parted

theorem numberOf_zero_cons (base : Nat) (digits : List Char) :
    numberOf base ('0' :: digits) = numberOf base digits := by
  rw [numberOf_cons, show digitOf '0' = 0 from rfl, Nat.zero_mul, Nat.zero_add]

theorem digitOf_le {c : Char} (digit : isDigit c = true) :
    digitOf c ≤ 9 ∧ (digitOf c = 0 ↔ c = '0') := by
  have bounds : 48 ≤ c.toNat ∧ c.toNat ≤ 57 := by
    simpa [isDigit, Char.isDigit, UInt32.le_iff_toNat_le] using digit
  refine ⟨by simp only [digitOf, Char.reduceToNat]; omega, ?_, ?_⟩
  · intro none
    apply Char.toNat_inj.mp
    simp only [digitOf, Char.reduceToNat] at none ⊢
    omega
  · rintro rfl
    rfl

theorem numberOf_octal_le (digits : List Char) : numberOf 8 digits ≤ numberOf 10 digits := by
  induction digits with
  | nil => exact Nat.le_refl _
  | cons c digits ih =>
    rw [numberOf_cons, numberOf_cons]
    gcongr
    omega

/-- Two digits or more are less in octal, unless they start with a zero. -/
theorem numberOf_octal_lt {c : Char} {digits : List Char} (nonzero : digitOf c ≠ 0)
    (more : digits ≠ []) : numberOf 8 (c :: digits) < numberOf 10 (c :: digits) := by
  rw [numberOf_cons, numberOf_cons]
  have weight : 8 ^ digits.length < 10 ^ digits.length :=
    Nat.pow_lt_pow_left (by omega) (by simpa using more)
  have first := Nat.mul_lt_mul_of_pos_left weight (Nat.pos_of_ne_zero nonzero)
  have others := numberOf_octal_le digits
  omega

theorem numberOf_octal_eq_iff {digits : List Char} (counted : ∀ c ∈ digits, isDigit c = true) :
    numberOf 8 digits = numberOf 10 digits ↔ (digits.dropWhile (· = '0')).length ≤ 1 := by
  induction digits with
  | nil => simp [numberOf, Number.ofDigits]
  | cons c digits ih =>
    obtain ⟨first, others⟩ := List.forall_mem_cons.mp counted
    by_cases zero : c = '0'
    · subst zero
      rw [numberOf_zero_cons, numberOf_zero_cons, List.dropWhile_cons_of_pos (by simp)]
      exact ih others
    · rw [List.dropWhile_cons_of_neg (by simpa using zero)]
      have nonzero : digitOf c ≠ 0 := fun none => zero ((digitOf_le first).2.mp none)
      by_cases more : digits = []
      · subst more
        simp [numberOf, Number.ofDigits]
      · have less := numberOf_octal_lt nonzero more
        have long := List.length_pos_of_ne_nil more
        simp only [List.length_cons]
        omega

theorem numberOf_le_nine {digits : List Char} (counted : ∀ c ∈ digits, isDigit c = true)
    (few : (digits.dropWhile (· = '0')).length ≤ 1) : numberOf 10 digits ≤ 9 := by
  induction digits with
  | nil => exact Nat.zero_le _
  | cons c digits ih =>
    obtain ⟨first, others⟩ := List.forall_mem_cons.mp counted
    by_cases zero : c = '0'
    · subst zero
      rw [List.dropWhile_cons_of_pos (by simp)] at few
      rw [numberOf_zero_cons]
      exact ih others few
    · rw [List.dropWhile_cons_of_neg (by simpa using zero)] at few
      have alone : digits = [] := List.eq_nil_of_length_eq_zero (by simpa using few)
      subst alone
      simpa [numberOf, Number.ofDigits] using (digitOf_le first).1

/-! ### Numerals -/

theorem digit?_of_isDigit {c : Char} (digit : isDigit c = true) :
    Number.digit? 10 c = some (digitOf c) := by
  have small := (digitOf_le digit).1
  have listed : '0' ≤ c ∧ c ≤ '9' := by simpa [isDigit, Char.isDigit, Char.le_def] using digit
  rw [Number.digit?, if_pos listed]
  exact if_pos (Nat.lt_succ_of_le small)

theorem digit?_of_not_isDigit {c : Char} (other : isDigit c = false) :
    Number.digit? 10 c = none := by
  have outside : ¬('0' ≤ c ∧ c ≤ '9') := by
    intro listed
    have digit : isDigit c = true := by simpa [isDigit, Char.isDigit, Char.le_def] using listed
    simp [digit] at other
  rw [Number.digit?, if_neg outside, if_neg (by split <;> omega)]

theorem digits_append {run rest : List Char} (counted : ∀ c ∈ run, isDigit c = true)
    (stops : ∀ c ∈ rest.head?, isDigit c = false) :
    Number.digits 10 (run ++ rest) = (run.map digitOf, rest) := by
  induction run with
  | nil =>
    cases rest with
    | nil => rfl
    | cons c rest => simp [Number.digits, digit?_of_not_isDigit (stops c rfl)]
  | cons c run ih =>
    obtain ⟨first, others⟩ := List.forall_mem_cons.mp counted
    rw [List.cons_append, Number.digits, digit?_of_isDigit first, ih others]
    rfl

theorem pointedDigits_append {whole part power : List Char}
    (counted : ∀ c ∈ whole, isDigit c = true) (pointed : Fraction part) (raised : Exponent power) :
    Number.pointedDigits 10 (whole ++ (part ++ power)) =
      ((whole ++ part.tail).map digitOf, part.tail.length, power) := by
  rw [Number.pointedDigits, digits_append counted (pointed.head_not_digit raised)]
  cases pointed with
  | none =>
    cases raised with
    | none => simp
    | power marked => rcases marked with rfl | rfl <;> simp
  | point behind =>
    simp [digits_append behind raised.head_not_digit]

theorem sign_of_digits {whole : List Char} (some : whole ≠ [])
    (counted : ∀ c ∈ whole, isDigit c = true) (rest : List Char) :
    Number.sign (whole ++ rest) = (false, whole ++ rest) := by
  obtain ⟨first, others, rfl⟩ := List.exists_cons_of_ne_nil some
  have digit := counted first List.mem_cons_self
  rw [List.cons_append]
  unfold Number.sign
  split
  · next starts =>
    cases starts
    exact absurd digit (by decide)
  · next starts =>
    cases starts
    exact absurd digit (by decide)
  · rfl

def scaledValue (whole part power : List Char) : ℚ :=
  numberOf 10 (whole ++ part.tail) * 10 ^ (Number.exponentAfter 'e' power - part.tail.length)

theorem decimalValue_plain {whole part power : List Char} (some : whole ≠ [])
    (counted : ∀ c ∈ whole, isDigit c = true) (pointed : Fraction part) (raised : Exponent power) :
    decimalValue (whole ++ (part ++ power)) = scaledValue whole part power := by
  rw [decimalValue, sign_of_digits some counted]
  simp only [pointedDigits_append counted pointed raised, Bool.false_eq_true, if_false]
  rfl

theorem decimalValue_minus {whole part power : List Char}
    (counted : ∀ c ∈ whole, isDigit c = true) (pointed : Fraction part) (raised : Exponent power) :
    decimalValue ('-' :: (whole ++ (part ++ power))) = -scaledValue whole part power := by
  rw [decimalValue, Number.sign]
  simp only [pointedDigits_append counted pointed raised, if_true]
  rfl

/-! ### Constants of C -/

/-- The largest numbers of the widest integer types. A decimal integer has to fit into the signed one
and an octal integer into the unsigned one. -/
structure CIntegers where
  signed : Nat
  unsigned : Nat
  signed_wide : 9223372036854775807 ≤ signed
  unsigned_wide : 18446744073709551615 ≤ unsigned

/-- The least that C asks for. -/
def CIntegers.least : CIntegers := ⟨9223372036854775807, 18446744073709551615, le_rfl, le_rfl⟩

inductive CPower : List Char → Int → Prop
  | raised {mark : Char} {digits : List Char} (marked : mark = 'e' ∨ mark = 'E') (some : digits ≠ [])
    (counted : ∀ c ∈ digits, isDigit c = true) : CPower (mark :: digits) (numberOf 10 digits)
  | plus {mark : Char} {digits : List Char} (marked : mark = 'e' ∨ mark = 'E') (some : digits ≠ [])
    (counted : ∀ c ∈ digits, isDigit c = true) : CPower (mark :: '+' :: digits) (numberOf 10 digits)
  | minus {mark : Char} {digits : List Char} (marked : mark = 'e' ∨ mark = 'E') (some : digits ≠ [])
    (counted : ∀ c ∈ digits, isDigit c = true) :
    CPower (mark :: '-' :: digits) (-numberOf 10 digits)

/-- A constant of C without a suffix, and the number it is. -/
inductive CConstant (integers : CIntegers) : List Char → ℚ → Prop
  | decimal {first : Char} {digits : List Char} (nonzero : first ≠ '0')
    (counted : ∀ c ∈ first :: digits, isDigit c = true)
    (fits : numberOf 10 (first :: digits) ≤ integers.signed) :
    CConstant integers (first :: digits) (numberOf 10 (first :: digits))
  | octal {digits : List Char}
    (counted : ∀ c ∈ digits, isDigit c = true ∧ c ≠ '8' ∧ c ≠ '9')
    (fits : numberOf 8 digits ≤ integers.unsigned) :
    CConstant integers ('0' :: digits) (numberOf 8 digits)
  | fractional {whole places : List Char} (some : whole ++ places ≠ [])
    (counted : ∀ c ∈ whole ++ places, isDigit c = true) :
    CConstant integers (whole ++ '.' :: places)
      (numberOf 10 (whole ++ places) * 10 ^ (-(places.length : Int)))
  | fractionalPower {whole places power : List Char} {exponent : Int} (some : whole ++ places ≠ [])
    (counted : ∀ c ∈ whole ++ places, isDigit c = true) (raised : CPower power exponent) :
    CConstant integers (whole ++ '.' :: (places ++ power))
      (numberOf 10 (whole ++ places) * 10 ^ (exponent - places.length))
  | power {whole power : List Char} {exponent : Int} (some : whole ≠ [])
    (counted : ∀ c ∈ whole, isDigit c = true) (raised : CPower power exponent) :
    CConstant integers (whole ++ power) (numberOf 10 whole * 10 ^ exponent)

/-- A constant of C, or one that is negated. -/
inductive CNumber (integers : CIntegers) : List Char → ℚ → Prop
  | plain {text : List Char} {value : ℚ} (constant : CConstant integers text value) :
    CNumber integers text value
  | negated {text : List Char} {value : ℚ} (constant : CConstant integers text value) :
    CNumber integers ('-' :: text) (-value)

theorem power_of_exponent {power : List Char} (raised : Exponent power) (some : power ≠ []) :
    CPower power (Number.exponentAfter 'e' power) := by
  cases raised with
  | none => exact absurd rfl some
  | @power mark signs digits marked signed present counted =>
    have lower : mark.toLower = 'e' := by rcases marked with rfl | rfl <;> rfl
    have all : Number.digits 10 digits = (digits.map digitOf, []) := by
      simpa using @digits_append digits [] counted (by simp)
    rw [Number.exponentAfter, if_pos lower]
    rcases signed with rfl | rfl | rfl
    · have unsigned : Number.sign digits = (false, digits) := by
        simpa using sign_of_digits present counted []
      simpa [unsigned, all, numberOf] using CPower.raised marked present counted
    · simpa [Number.sign, all, numberOf] using CPower.plus marked present counted
    · simpa [Number.sign, all, numberOf] using CPower.minus marked present counted

/-- With a fraction or an exponent a numeral is a floating constant of the same number. -/
theorem CConstant.floating (integers : CIntegers) {whole part power : List Char} (some : whole ≠ [])
    (counted : ∀ c ∈ whole, isDigit c = true) (pointed : Fraction part) (raised : Exponent power)
    (floats : part ++ power ≠ []) :
    CConstant integers (whole ++ (part ++ power)) (scaledValue whole part power) := by
  unfold scaledValue
  cases pointed with
  | none =>
    have powered := power_of_exponent raised floats
    simpa using @CConstant.power integers _ _ _ some counted powered
  | @point digits behind =>
    have all : ∀ c ∈ whole ++ digits, isDigit c = true := List.forall_mem_append.mpr ⟨counted, behind⟩
    have present : whole ++ digits ≠ [] := List.append_ne_nil_of_left_ne_nil some digits
    by_cases powered : power = []
    · subst powered
      simpa [Number.exponentAfter] using @CConstant.fractional integers _ _ present all
    · exact .fractionalPower present all (power_of_exponent raised powered)

theorem not_digits_power {whole power : List Char} {exponent : Int} (raised : CPower power exponent) :
    ¬∀ c ∈ whole ++ power, isDigit c = true := by
  intro counted
  cases raised with
  | raised marked | plus marked | minus marked =>
    have digit := counted _ (List.mem_append_right _ List.mem_cons_self)
    rcases marked with rfl | rfl <;> exact absurd digit (by decide)

/-- Digits alone are an integer, octal behind a zero. -/
theorem CConstant.digits_iff {integers : CIntegers} {first : Char} {digits : List Char} {value : ℚ}
    (counted : ∀ c ∈ first :: digits, isDigit c = true) :
    CConstant integers (first :: digits) value ↔
      first ≠ '0' ∧ numberOf 10 (first :: digits) ≤ integers.signed ∧
        value = numberOf 10 (first :: digits) ∨
      first = '0' ∧ (∀ c ∈ digits, c ≠ '8' ∧ c ≠ '9') ∧
        numberOf 8 digits ≤ integers.unsigned ∧ value = numberOf 8 digits := by
  constructor
  · intro constant
    generalize same : first :: digits = text at constant counted
    cases constant with
    | decimal nonzero _ fits =>
      cases same
      exact .inl ⟨nonzero, fits, rfl⟩
    | octal octal fits =>
      cases same
      exact .inr ⟨rfl, fun c member => (octal c member).2, fits, rfl⟩
    | fractional => exact absurd (counted '.' (by simp)) (by decide)
    | fractionalPower => exact absurd (counted '.' (by simp)) (by decide)
    | power _ _ raised => exact absurd counted (not_digits_power raised)
  · rintro (⟨nonzero, fits, rfl⟩ | ⟨rfl, octal, fits, rfl⟩)
    · exact .decimal nonzero counted fits
    · exact .octal (fun c member => ⟨counted c (List.mem_cons_of_mem _ member), octal c member⟩) fits

/-! ### Numerals as constants -/

theorem CConstant.head {integers : CIntegers} {text : List Char} {value : ℚ}
    (constant : CConstant integers text value) : ∀ c ∈ text.head?, isDigit c = true ∨ c = '.' := by
  have behind {whole : List Char} (rest : List Char) (some : whole ≠ [])
      (counted : ∀ c ∈ whole, isDigit c = true) :
      ∀ c ∈ (whole ++ rest).head?, isDigit c = true ∨ c = '.' := by
    intro c first
    rw [List.head?_append_of_ne_nil _ some] at first
    exact .inl (counted c (List.mem_of_mem_head? first))
  have pointed {whole places : List Char} (rest : List Char)
      (counted : ∀ c ∈ whole ++ places, isDigit c = true) :
      ∀ c ∈ (whole ++ '.' :: rest).head?, isDigit c = true ∨ c = '.' := by
    by_cases empty : whole = []
    · simp [empty]
    · exact behind _ empty fun c member => counted c (List.mem_append_left _ member)
  cases constant with
  | decimal _ counted =>
    intro c first
    exact .inl (counted c (List.mem_of_mem_head? first))
  | octal => simp [isDigit]
  | fractional _ counted => exact pointed _ counted
  | fractionalPower _ counted => exact pointed _ counted
  | power some counted => exact behind _ some counted

theorem CConstant.not_minus {integers : CIntegers} {text : List Char} {value : ℚ} :
    ¬CConstant integers ('-' :: text) value := by
  intro constant
  rcases constant.head '-' rfl with digit | point
  · exact absurd digit (by decide)
  · exact absurd point (by decide)

theorem CNumber.negated_iff {integers : CIntegers} {text : List Char} {value : ℚ} :
    CNumber integers ('-' :: text) (-value) ↔ CConstant integers text value := by
  refine ⟨fun number => ?_, .negated⟩
  generalize same : -value = opposite at number
  cases number with
  | plain constant => exact absurd constant CConstant.not_minus
  | negated constant => rwa [neg_inj.mp same]

theorem CNumber.plain_iff {integers : CIntegers} {first : Char} {text : List Char} {value : ℚ}
    (digit : isDigit first = true) :
    CNumber integers (first :: text) value ↔ CConstant integers (first :: text) value := by
  refine ⟨fun number => ?_, .plain⟩
  cases number with
  | plain constant => exact constant
  | negated => exact absurd digit (by decide)

/-- Whether a numeral without its sign is the same number in C: if it has a fraction or an exponent, if
it is decimal and fits, or if it is octal and has at most one digit behind its zeros. -/
def KeptInC (integers : CIntegers) (text : List Char) : Prop :=
  (∃ c ∈ text, c = '.' ∨ c = 'e' ∨ c = 'E') ∨
  (text.head? ≠ some '0' ∧ numberOf 10 text ≤ integers.signed) ∨
  text.head? = some '0' ∧ (∀ c ∈ text, c ≠ '8' ∧ c ≠ '9') ∧ (text.dropWhile (· = '0')).length ≤ 1

theorem kept_of_floating (integers : CIntegers) {part power : List Char} (whole : List Char)
    (pointed : Fraction part) (raised : Exponent power) (floats : part ++ power ≠ []) :
    KeptInC integers (whole ++ (part ++ power)) := by
  apply Or.inl
  cases pointed with
  | point => exact ⟨'.', by simp, .inl rfl⟩
  | none =>
    cases raised with
    | none => exact absurd rfl floats
    | @power mark _ _ marked => exact ⟨mark, by simp, .inr marked⟩

theorem digits_kept_iff {integers : CIntegers} {first : Char} {digits : List Char}
    (counted : ∀ c ∈ first :: digits, isDigit c = true) :
    CConstant integers (first :: digits) (numberOf 10 (first :: digits)) ↔
      KeptInC integers (first :: digits) := by
  have unmarked : ¬∃ c ∈ first :: digits, c = '.' ∨ c = 'e' ∨ c = 'E' := by
    rintro ⟨c, member, rfl | rfl | rfl⟩ <;> exact absurd (counted _ member) (by decide)
  rw [CConstant.digits_iff counted, KeptInC, or_iff_right unmarked]
  have others : ∀ c ∈ digits, isDigit c = true := fun c member =>
    counted c (List.mem_cons_of_mem _ member)
  by_cases zero : first = '0'
  · subst zero
    have same := numberOf_octal_eq_iff others
    have wide := integers.unsigned_wide
    have less := numberOf_octal_le digits
    simp only [ne_eq, not_true, false_and, false_or, true_and, List.head?_cons, numberOf_zero_cons,
      Nat.cast_inj, List.forall_mem_cons]
    rw [List.dropWhile_cons_of_pos (by simp)]
    constructor
    · rintro ⟨octal, _, equal⟩
      exact ⟨⟨by decide, octal⟩, same.mp equal.symm⟩
    · rintro ⟨⟨_, octal⟩, few⟩
      have small := numberOf_le_nine others few
      exact ⟨octal, by omega, (same.mpr few).symm⟩
  · simp [zero]

/-- A numeral without a sign, as C reads it. -/
theorem constant_iff_kept {integers : CIntegers} {whole part power : List Char} (some : whole ≠ [])
    (counted : ∀ c ∈ whole, isDigit c = true) (pointed : Fraction part) (raised : Exponent power) :
    CConstant integers (whole ++ (part ++ power)) (scaledValue whole part power) ↔
      KeptInC integers (whole ++ (part ++ power)) := by
  by_cases floats : part ++ power = []
  · obtain ⟨rfl, rfl⟩ := List.append_eq_nil_iff.mp floats
    obtain ⟨first, digits, rfl⟩ := List.exists_cons_of_ne_nil some
    simpa [scaledValue, Number.exponentAfter] using digits_kept_iff counted
  · exact iff_of_true (.floating integers some counted pointed raised floats)
      (kept_of_floating integers whole pointed raised floats)

theorem Lexeme.Numeral.kept_iff {literal : List Char} (numeral : Numeral literal)
    (integers : CIntegers) :
    CNumber integers literal (decimalValue literal) ↔
      KeptInC integers (literal.dropWhile (· = '-')) := by
  cases numeral with
  | @parts minus whole part power signed some counted pointed raised =>
    have kept := @constant_iff_kept integers _ _ _ some counted pointed raised
    obtain ⟨first, digits, rfl⟩ := List.exists_cons_of_ne_nil some
    have digit := counted first List.mem_cons_self
    have starts : first ≠ '-' := by
      rintro rfl
      exact absurd digit (by decide)
    rcases signed with rfl | rfl
    · rw [List.nil_append, decimalValue_plain some counted pointed raised, List.cons_append,
        List.dropWhile_cons_of_neg (by simpa using starts), CNumber.plain_iff digit]
      exact kept
    · rw [List.singleton_append, decimalValue_minus counted pointed raised, CNumber.negated_iff,
        List.dropWhile_cons_of_pos (by simp), List.cons_append,
        List.dropWhile_cons_of_neg (by simpa using starts)]
      exact kept

/-! ### Counts and codes of characters -/

theorem numberOf_toString (value : Nat) : numberOf 10 (toString value).toList = value := by
  rw [Nat.toString_eq_ofList_toDigits, String.toList_ofList, numberOf, Number.ofDigits,
    List.foldl_map]
  calc
    _ = Nat.ofDigitChars 10 (Nat.toDigits 10 value) 0 := by
      simp [Nat.ofDigitChars, digitOf, Nat.mul_comm]
    _ = value := Nat.ofDigitChars_ten_toDigits

theorem head_toString {value : Nat} (positive : 0 < value) :
    (toString value).toList.head? ≠ some '0' := by
  rw [Nat.toString_eq_ofList_toDigits, String.toList_ofList]
  -- The last digit is taken off until the first one is alone.
  induction value using Nat.strongRecOn with
  | ind value ih =>
    rw [Nat.toDigits_eq_if (by decide)]
    split
    · simpa [Nat.digitChar_eq_zero] using positive.ne'
    · rw [List.head?_append_of_ne_nil _ Nat.toDigits_ne_nil]
      exact ih (value / 10) (by omega) (by omega)

theorem CConstant.of_toString {integers : CIntegers} {value : Nat} (fits : value ≤ integers.signed) :
    CConstant integers (toString value).toList value := by
  rcases Nat.eq_zero_or_pos value with rfl | positive
  · exact @CConstant.octal integers [] (by simp) (Nat.zero_le _)
  · have first := head_toString positive
    have number := numberOf_toString value
    have counted : ∀ c ∈ (toString value).toList, isDigit c = true := fun _ =>
      Lexeme.isDigit_of_mem_toString
    cases digits : (toString value).toList with
    | nil => simp [Nat.toDigits_ne_nil] at digits
    | cons c rest =>
      rw [digits] at first number counted
      have constant := @CConstant.decimal integers c rest (by simpa using first) counted (by omega)
      rwa [number] at constant

/-- The code of a character, or a count of them, is cast from a constant of its own value. -/
theorem Expression.text_code {integers : CIntegers} {value : Nat} (fits : value ≤ integers.signed) :
    ∃ constant, (Expression.code value).text = Expression.cast constant ∧
      CNumber integers constant.toList value :=
  ⟨toString value, rfl, .plain (.of_toString fits)⟩

/-! ### Numbers of a program -/

theorem Scanner.next_number {scanner behind : Scanner} {files : Files} {token : Token}
    (found : scanner.next files = (.ok (some token), behind)) (number : token.kind = .number) :
    Numeral token.literal.toList := by
  rcases next_cases found with closing | ⟨_, _, _, _, read, spelled⟩ | ⟨_, _, _, _, imported, _⟩
  · rw [closing] at number; cases number
  · rw [number] at read
    rw [spelled, String.toList_ofList]
    exact (Lexeme.spelled_of_read read).told
  · rw [imported] at number; cases number

theorem TokenStream.ofBytes_number {files : Files} {search later : Search} {path : Path}
    {bytes : List UInt8} {stream : TokenStream}
    (scanned : ofBytes files search path bytes = (.ok stream, later)) :
    ∀ token ∈ stream.tokens, token.kind = .number → Numeral token.literal.toList := by
  obtain ⟨tokens, last, split, ended, spelled⟩ :=
    ofBytes_keeps (fun _ => True) (fun token => token.kind = .number → Numeral token.literal.toList)
      (fun _ _ _ _ found => ⟨Scanner.next_number found, trivial⟩) (fun _ => trivial) scanned
  intro token member number
  rw [split] at member
  rcases List.mem_append.mp member with inside | behind
  · exact spelled token inside number
  · rw [List.mem_singleton.mp behind, ended] at number
    cases number

/-- The places of a number in generated code, in all of which it is written as it is. -/
structure WrittenAsItIs (literal : String) : Prop where
  argument : ∀ (frame : Frame) (depth : Nat),
    (frame.cells depth (.number literal)).map (·.map Expression.text) =
      .ok ["(__qd_real_t)" ++ literal]
  bound : ∀ (frame : Frame) (depth : Nat),
    (frame.scalar depth (.number literal)).map Expression.text = .ok ("(__qd_real_t)" ++ literal)
  constant : ∀ (frame : UnitFrame) (pending : Option (String × List String)) (name : String)
    (span : Text.Span) (others : List Statement) (made : List Definition),
    frame.definitions pending (⟨.constant name literal, span⟩ :: others) = .ok made →
      ∃ first rest, made = first :: rest ∧ frame.definitions pending others = .ok rest ∧
        first.rows = [.line ("const __qd_real_t " ++ CName.symbol frame.unit name ++ " = " ++
          literal ++ ";"), .blank]

theorem writtenAsItIs (literal : String) : WrittenAsItIs literal where
  argument _ _ := rfl
  bound _ _ := rfl
  constant frame pending name span others made generated := by
    unfold UnitFrame.definitions at generated
    obtain ⟨rest, behind, joined⟩ := Outcome.bind_ok generated
    cases joined
    exact ⟨_, rest, rfl, behind, rfl⟩

/-- Numbers of a file in generated code. They are written there as they are, and then C reads the
number that is meant exactly if the numeral has a fraction or an exponent, is a decimal integer that
fits, or is an octal one of which at most one digit counts. -/
theorem number_keeps_its_value_in_c_iff {files : Files} {search later : Search}
    {path : Path} {bytes : List UInt8} {stream : TokenStream} {token : Token}
    (scanned : TokenStream.ofBytes files search path bytes = (.ok stream, later))
    (member : token ∈ stream.tokens) (number : token.kind = .number) (integers : CIntegers) :
    WrittenAsItIs token.literal ∧
    (CNumber integers token.literal.toList (decimalValue token.literal.toList) ↔
      KeptInC integers (token.literal.toList.dropWhile (· = '-'))) :=
  ⟨writtenAsItIs token.literal,
    (TokenStream.ofBytes_number scanned token member number).kept_iff integers⟩

theorem number_behind_a_zero_is_octal :
    ∃ (stream : TokenStream) (later : Search) (token : Token),
      TokenStream.ofBytes ⟨[], []⟩ ⟨[], []⟩ ⟨"/src/main.qd"⟩ "const A 010\n".toUTF8.toList =
        (.ok stream, later) ∧
      token ∈ stream.tokens ∧ token.kind = .number ∧ token.literal = "010" ∧
      decimalValue token.literal.toList = 10 ∧ WrittenAsItIs token.literal ∧
      CNumber .least token.literal.toList 8 ∧ ¬CNumber .least token.literal.toList 10 := by
  have accepted : (TokenStream.ofBytes ⟨[], []⟩ ⟨[], []⟩ ⟨"/src/main.qd"⟩
      "const A 010\n".toUTF8.toList).1.toOption.bind (fun stream =>
        stream.tokens.find? (fun token => token.kind = .number)) =
      some ⟨.number, "010", ⟨⟨1, 9, 8⟩, ⟨1, 12, 11⟩⟩⟩ := by decide +kernel
  obtain ⟨stream, read, found⟩ := Option.bind_eq_some_iff.mp accepted
  have scanned : TokenStream.ofBytes ⟨[], []⟩ ⟨[], []⟩ ⟨"/src/main.qd"⟩
      "const A 010\n".toUTF8.toList = (.ok stream, _) :=
    Prod.ext (Outcome.eq_ok_of_toOption read) rfl
  have member := List.mem_of_find?_eq_some found
  obtain ⟨written, kept⟩ := number_keeps_its_value_in_c_iff scanned member rfl .least
  have value : decimalValue "010".toList = 10 := by decide +kernel
  have octal : CConstant .least ['0', '1', '0'] (numberOf 8 ['1', '0']) :=
    .octal (by simp [isDigit]) (by decide)
  have changed : ¬KeptInC .least ("010".toList.dropWhile (· = '-')) := by simp [KeptInC]
  refine ⟨stream, _, _, scanned, member, rfl, rfl, value, written, .plain octal, ?_⟩
  rw [← value]
  exact fun same => changed (kept.mp same)

end StackLang
