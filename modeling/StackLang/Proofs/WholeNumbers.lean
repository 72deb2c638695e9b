import Mathlib.Algebra.Order.Ring.Int
import StackLang.Machine.Cell

/-! Whole numbers as binary64 numbers. Below two to the power of 53 they are exact, and from there
on they are rounded to numbers that no exact one is equal to; so a whole number that is exact is
told apart from every other. -/
namespace StackLang.Number

open Float.Model Float.Model.UnpackedFloat

/-! ### Rounding -/

theorem targetExponent_eq (total : Int) :
    Format.binary64.targetExponent total = max (total - 53) (-1074) := rfl

theorem shift_exact (mantissa shift : Nat) :
    ExtendedMantissa.ofMantissaAndAccuracy (mantissa * 2 ^ shift) .exact >>> shift =
      ⟨mantissa, false, false⟩ := by
  induction shift generalizing mantissa with
  | zero => simp; rfl
  | succ shift ih =>
    have doubled : mantissa * 2 ^ (shift + 1) = 2 * mantissa * 2 ^ shift := by
      rw [Nat.pow_succ, Nat.mul_comm (2 ^ shift), ← Nat.mul_assoc, Nat.mul_comm mantissa]
    rw [doubled]
    change ExtendedMantissa.shiftRightOne
      (ExtendedMantissa.ofMantissaAndAccuracy (2 * mantissa * 2 ^ shift) .exact >>> shift) = _
    rw [ih]
    simp [ExtendedMantissa.shiftRightOne]

/-- A mantissa with all its digits, the first one implied. -/
def Full (mantissa : Nat) : Prop := 2 ^ 52 ≤ mantissa ∧ mantissa < 2 ^ 53

theorem Full.ne_zero {mantissa : Nat} (full : Full mantissa) : mantissa ≠ 0 := by
  have := full.1
  omega

theorem Full.pos {mantissa : Nat} (full : Full mantissa) : 0 < mantissa :=
  Nat.pos_of_ne_zero full.ne_zero

theorem Full.log2 {mantissa : Nat} (full : Full mantissa) : mantissa.log2 = 52 :=
  (Nat.log2_eq_iff full.ne_zero).mpr full

theorem log2_mul_two_pow {number : Nat} (some : number ≠ 0) (shift : Nat) :
    (number * 2 ^ shift).log2 = number.log2 + shift := by
  have low := Nat.log2_self_le some
  have high := @Nat.lt_log2_self number
  have whole : number * 2 ^ shift ≠ 0 := Nat.mul_ne_zero some (Nat.ne_of_gt (Nat.two_pow_pos shift))
  refine (Nat.log2_eq_iff whole).mpr ⟨?_, ?_⟩
  · rw [Nat.pow_add]
    exact Nat.mul_le_mul_right _ low
  · rw [Nat.add_right_comm, Nat.pow_add]
    exact Nat.mul_lt_mul_of_pos_right high (Nat.two_pow_pos shift)

theorem shiftToTargetExponent_exact {mantissa : Nat} (full : Full mantissa) (shift : Nat)
    (exponent : Int) (least : -1074 ≤ exponent) :
    shiftToTargetExponent .binary64 (mantissa * 2 ^ shift) (exponent - shift) .exact =
      (⟨mantissa, false, false⟩, exponent) := by
  have amount : (Format.binary64.targetExponent
      (totalExponent (mantissa * 2 ^ shift) (exponent - shift)) - (exponent - shift)).toNat =
      shift := by
    rw [targetExponent_eq, totalExponent, log2_mul_two_pow full.ne_zero, full.log2]
    omega
  rw [shiftToTargetExponent, shiftToExponent, amount, shift_exact]
  simp

theorem shiftToTargetExponent_full {mantissa : Nat} (full : Full mantissa) {exponent : Int}
    (least : -1074 ≤ exponent) :
    shiftToTargetExponent .binary64 mantissa exponent .exact =
      (⟨mantissa, false, false⟩, exponent) := by
  simpa using shiftToTargetExponent_exact full 0 exponent least

/-- Rounding shifts twice, since the first shift can carry. -/
theorem round_of_shifts (sign : Sign) {mantissa : Nat} {exponent between final : Int}
    {extended last : ExtendedMantissa}
    (first : shiftToTargetExponent .binary64 mantissa exponent .exact = (extended, between))
    (second : shiftToTargetExponent .binary64 extended.roundedMantissa between .exact =
      (last, final)) (some : 0 < last.mantissa) :
    roundWithAccuracy .binary64 sign mantissa exponent .exact =
      .finite sign last.mantissa final some := by
  rw [roundWithAccuracy, first]
  dsimp only
  rw [second]
  exact dif_neg (Nat.ne_of_gt some)

/-- A number that fits is rounded to itself. -/
theorem round_exact (sign : Sign) {mantissa : Nat} (full : Full mantissa) (shift : Nat)
    (exponent : Int) (least : -1074 ≤ exponent) :
    roundWithAccuracy .binary64 sign (mantissa * 2 ^ shift) (exponent - shift) .exact =
      .finite sign mantissa exponent full.pos :=
  round_of_shifts sign (shiftToTargetExponent_exact full shift exponent least)
    (shiftToTargetExponent_full full least) full.pos

theorem mantissa_shift (extended : ExtendedMantissa) (shift : Nat) :
    (extended >>> shift).mantissa = extended.mantissa / 2 ^ shift := by
  induction shift with
  | zero => simp; rfl
  | succ shift ih =>
    change (ExtendedMantissa.shiftRightOne (extended >>> shift)).mantissa = _
    rw [ExtendedMantissa.shiftRightOne, ih, Nat.div_div_eq_div_mul, Nat.pow_succ]

theorem roundedMantissa_bounds (extended : ExtendedMantissa) :
    extended.mantissa ≤ extended.roundedMantissa ∧
      extended.roundedMantissa ≤ extended.mantissa + 1 := by
  obtain ⟨mantissa, half, rest⟩ := extended
  cases half <;> cases rest <;>
    simp [ExtendedMantissa.roundedMantissa, ExtendedMantissa.accuracy,
      Accuracy.roundToNearestEven]
  omega

/-- A number with at least as many digits as fit keeps so many. -/
theorem round_full (sign : Sign) (mantissa : Nat) (exponent : Int) (long : 52 ≤ mantissa.log2)
    (least : -1074 ≤ mantissa.log2 + exponent - 52) :
    ∃ rounded scale, ∃ full : Full rounded, mantissa.log2 + exponent - 52 ≤ scale ∧
      roundWithAccuracy .binary64 sign mantissa exponent .exact =
        .finite sign rounded scale full.pos := by
  have some : mantissa ≠ 0 := by
    rintro rfl
    simp at long
  obtain ⟨shift, digits⟩ : ∃ shift, mantissa.log2 = 52 + shift := ⟨mantissa.log2 - 52, by omega⟩
  have amount : (Format.binary64.targetExponent (totalExponent mantissa exponent) -
      exponent).toNat = shift := by
    rw [targetExponent_eq, totalExponent]
    omega
  have low : 2 ^ 52 ≤ mantissa / 2 ^ shift := by
    rw [Nat.le_div_iff_mul_le (Nat.two_pow_pos shift), ← Nat.pow_add, ← digits]
    exact Nat.log2_self_le some
  have high : mantissa / 2 ^ shift < 2 ^ 53 := by
    rw [Nat.div_lt_iff_lt_mul (Nat.two_pow_pos shift), ← Nat.pow_add, Nat.add_right_comm 52 1,
      ← digits]
    exact Nat.lt_log2_self
  have first : shiftToTargetExponent .binary64 mantissa exponent .exact =
      (ExtendedMantissa.ofMantissaAndAccuracy mantissa .exact >>> shift, exponent + shift) := by
    rw [shiftToTargetExponent, shiftToExponent, amount]
  obtain ⟨kept, raised⟩ := roundedMantissa_bounds
    (ExtendedMantissa.ofMantissaAndAccuracy mantissa .exact >>> shift)
  rw [mantissa_shift] at kept raised
  change mantissa / 2 ^ shift ≤ _ at kept
  change _ ≤ mantissa / 2 ^ shift + 1 at raised
  have behind : -1074 ≤ exponent + shift := by omega
  by_cases fits : (ExtendedMantissa.ofMantissaAndAccuracy mantissa .exact >>> shift).roundedMantissa
      < 2 ^ 53
  · have full : Full _ := ⟨Nat.le_trans low kept, fits⟩
    exact ⟨_, exponent + shift, full, by omega,
      round_of_shifts sign first (shiftToTargetExponent_full full behind) full.pos⟩
  · -- A carry out of the last digit leaves a power of two.
    have carry :
        (ExtendedMantissa.ofMantissaAndAccuracy mantissa .exact >>> shift).roundedMantissa =
          2 ^ 52 * 2 ^ 1 := by omega
    have full : Full (2 ^ 52) := ⟨Nat.le_refl _, by decide⟩
    have second := shiftToTargetExponent_exact full 1 (exponent + shift + 1) (by omega)
    rw [← carry, show exponent + shift + 1 - (1 : Nat) = exponent + shift by omega] at second
    exact ⟨2 ^ 52, exponent + shift + 1, full, by omega,
      round_of_shifts sign first second full.pos⟩

/-! ### Packing -/

/-- The first digit that is not packed is one. -/
theorem toNat_one_append {mantissa : Nat} (full : Full mantissa) :
    (1#1 ++ BitVec.ofNat 52 mantissa).toNat = mantissa := by
  obtain ⟨low, high⟩ := full
  have digits : mantissa % 2 ^ 52 = mantissa - 2 ^ 52 := by omega
  rw [BitVec.toNat_append, BitVec.toNat_ofNat, BitVec.toNat_ofNat, digits,
    ← Nat.shiftLeft_add_eq_or_of_lt (by omega)]
  omega

theorem toNat_exponent {exponent : Int} (least : -1074 ≤ exponent) (fits : exponent ≤ 971) :
    ((BitVec.ofNat 11 (exponent + 1075).toNat).toNat : Int) = exponent + 1075 := by
  rw [BitVec.toNat_ofNat]
  omega

theorem ofBitVec_unpackSign {spec : Format} (sign : Sign) (exponent : BitVec spec.exponentBits)
    (mantissa : BitVec spec.mantissaBitsWithoutImplicit) :
    Sign.ofBitVec (unpackSign (packComponents spec sign exponent mantissa)) = sign := by
  have first : unpackSign (packComponents spec sign exponent mantissa) = sign.toBitVec := by
    delta unpackSign
    ext i (_ | ⟨⟨⟩⟩)
    simp +arith [BitVec.extractLsb, packComponents, BitVec.getElem_append]
  rw [first]
  cases sign <;> rfl

theorem unpack_packComponents {spec : Format} (sign : Sign) {exponent : BitVec spec.exponentBits}
    (mantissa : BitVec spec.mantissaBitsWithoutImplicit)
    (bounded : exponent ≠ -BitVec.ofNat spec.exponentBits 1)
    (normal : exponent ≠ BitVec.ofNat spec.exponentBits 0) :
    ∃ positive, UnpackedFloat.unpack spec (packComponents spec sign exponent mantissa) =
      .finite sign (1#1 ++ mantissa).toNat
        (exponent.toNat - (spec.exponentBias + spec.mantissaBitsWithoutImplicit)) positive := by
  have signed := ofBitVec_unpackSign sign exponent mantissa
  have scaled := @unpackExponent_packComponents spec sign exponent mantissa
  have filled := @unpackMantissa_packComponents spec sign exponent mantissa
  generalize packComponents spec sign exponent mantissa = bits at *
  subst signed scaled filled
  exact ⟨_, (if_neg bounded).trans (if_neg normal)⟩

theorem unpack_packedInfinity {spec : Format} (sign : Sign) :
    UnpackedFloat.unpack spec (packedInfinity spec sign) = .infinity sign := by
  have scaled : unpackExponent (packedInfinity spec sign) = -BitVec.ofNat spec.exponentBits 1 :=
    unpackExponent_packComponents
  have filled : unpackMantissa (packedInfinity spec sign) = BitVec.ofNat _ 0 :=
    unpackMantissa_packComponents
  have signed : Sign.ofBitVec (unpackSign (packedInfinity spec sign)) = sign :=
    ofBitVec_unpackSign sign _ _
  exact (if_pos scaled).trans ((if_pos filled).trans (congrArg UnpackedFloat.infinity signed))

/-- A full mantissa is unpacked as it was packed, unless the number is too great. -/
theorem unpack_pack (sign : Sign) {mantissa : Nat} (full : Full mantissa) {exponent : Int}
    (least : -1074 ≤ exponent) :
    (Float.Model.pack (.finite sign mantissa exponent full.pos)).unpack =
      if exponent ≤ 971 then .finite sign mantissa exponent full.pos else .infinity sign := by
  have biased : (exponent + Format.binary64.exponentBias +
      Format.binary64.mantissaBitsWithoutImplicit).toNat = (exponent + 1075).toNat := by
    change (exponent + 1023 + 52).toNat = _
    omega
  have digits : mantissa.log2 + 1 = Format.binary64.mantissaBits := by rw [full.log2]; rfl
  have packed : UnpackedFloat.pack .binary64 (.finite sign mantissa exponent full.pos) =
      if 2048 ≤ (exponent + 1075).toNat + 1 then packedInfinity .binary64 sign
      else packComponents .binary64 sign (BitVec.ofNat 11 (exponent + 1075).toNat)
        (BitVec.ofNat 52 mantissa) := by
    rw [← biased]
    exact congrArg (ite _ _) (if_pos digits)
  change UnpackedFloat.unpack .binary64
    (UnpackedFloat.pack .binary64 (.finite sign mantissa exponent full.pos)) = _
  rw [packed]
  by_cases fits : exponent ≤ 971
  · have scale := toNat_exponent least fits
    have bounded : BitVec.ofNat 11 (exponent + 1075).toNat ≠ -1#11 := by
      intro same
      rw [same] at scale
      have : (2047 : Int) = exponent + 1075 := scale
      omega
    have normal : BitVec.ofNat 11 (exponent + 1075).toNat ≠ 0#11 := by
      intro same
      rw [same] at scale
      have : (0 : Int) = exponent + 1075 := scale
      omega
    obtain ⟨positive, unpacked⟩ := @unpack_packComponents .binary64 sign _
      (BitVec.ofNat 52 mantissa) bounded normal
    rw [if_pos fits, if_neg (by omega)]
    refine unpacked.trans ?_
    rw [finite.injEq, scale]
    refine ⟨rfl, toNat_one_append full, ?_⟩
    change exponent + 1075 - (1023 + 52) = exponent
    omega
  · rw [if_neg fits, if_pos (by omega)]
    exact unpack_packedInfinity sign

/-! ### Whole numbers -/

def normal (number : Nat) : Nat := number * 2 ^ (52 - number.log2)

theorem full_normal {number : Nat} (some : number ≠ 0) (small : number < 2 ^ 53) :
    Full (normal number) := by
  have digits : number.log2 < 53 := (Nat.log2_lt some).mpr small
  have logged : (normal number).log2 = 52 := by
    rw [normal, log2_mul_two_pow some]
    omega
  have positive : normal number ≠ 0 :=
    Nat.mul_ne_zero some (Nat.ne_of_gt (Nat.two_pow_pos _))
  exact (Nat.log2_eq_iff positive).mp logged

theorem round_whole {number : Nat} (some : number ≠ 0) (small : number < 2 ^ 53) :
    UnpackedFloat.round .binary64 .positive number 0 =
      .finite .positive (normal number) (number.log2 - 52) (full_normal some small).pos := by
  have digits : number.log2 < 53 := (Nat.log2_lt some).mpr small
  have target : Format.binary64.targetExponent (totalExponent number 0) = number.log2 - 52 := by
    rw [targetExponent_eq, totalExponent]
    omega
  have amount : (0 - ((number.log2 : Int) - 52)).toNat = 52 - number.log2 := by omega
  have lowered : decreaseExponent number 0 (number.log2 - 52) =
      (normal number, (number.log2 : Int) - 52) := by
    rw [decreaseExponent, amount, Nat.shiftLeft_eq, normal]
    have : (0 : Int) - (52 - number.log2 : Nat) = number.log2 - 52 := by omega
    rw [this]
  have kept := shiftToTargetExponent_full (full_normal some small)
    (show -1074 ≤ (number.log2 : Int) - 52 by omega)
  rw [UnpackedFloat.round, target, lowered]
  exact round_of_shifts .positive kept kept (full_normal some small).pos

theorem unpack_ofUInt64 {number : Nat} (some : number ≠ 0) (small : number < 2 ^ 53) :
    (Float.Model.ofUInt64 number.toUInt64).unpack =
      .finite .positive (normal number) (number.log2 - 52) (full_normal some small).pos := by
  have digits : number.log2 < 53 := (Nat.log2_lt some).mpr small
  have word : number.toUInt64.toNat = number := by
    rw [Nat.toUInt64, UInt64.toNat_ofNat', Nat.mod_eq_of_lt (by omega)]
  have made : UnpackedFloat.ofUInt64 .binary64 number.toUInt64 =
      .finite .positive (normal number) (number.log2 - 52) (full_normal some small).pos := by
    rw [UnpackedFloat.ofUInt64, word, UnpackedFloat.ofNat, UnpackedFloat.ofInt,
      Float.Model.UnpackedFloat.normalize]
    rw [Int.compare_eq_gt.mpr (by omega)]
    exact round_whole some small
  rw [Float.Model.ofUInt64, made, unpack_pack _ (full_normal some small) (by omega),
    if_pos (by omega)]

theorem unpack_one : (Float.exactlyRepresentablePowersOfTen[0]).toModel.unpack =
    .finite .positive (2 ^ 52) (-52) (by decide) := rfl

theorem unpack_ofNat {number : Nat} (some : number ≠ 0) (small : number < 2 ^ 53) :
    (Float.ofNat number).toModel.unpack =
      .finite .positive (normal number) (number.log2 - 52) (full_normal some small).pos := by
  have digits : number.log2 < 53 := (Nat.log2_lt some).mpr small
  have made : Float.ofNat number =
      number.toUInt64.toFloat * Float.exactlyRepresentablePowersOfTen[0] := by
    change Float.ofScientific number false 0 = _
    rw [Float.ofScientific, dif_pos ⟨small, Nat.zero_le _⟩]
    rfl
  have product := round_exact .positive (full_normal some small) 52 (number.log2 - 52) (by omega)
  rw [made]
  change (Float.Model.pack (UnpackedFloat.mul .binary64
    (Float.Model.ofUInt64 number.toUInt64).unpack
    (Float.exactlyRepresentablePowersOfTen[0]).toModel.unpack)).unpack = _
  rw [unpack_ofUInt64 some small, unpack_one]
  change (Float.Model.pack (roundWithAccuracy .binary64 .positive _ _ .exact)).unpack = _
  rw [show (number.log2 : Int) - 52 + -52 = number.log2 - 52 - (52 : Nat) by omega, product,
    unpack_pack _ (full_normal some small) (by omega), if_pos (by omega)]

/-- A whole number with more digits than fit is rounded, and may be too great. -/
theorem unpack_ofNat_large {number : Nat} (large : 2 ^ 53 ≤ number) :
    (Float.ofNat number).toModel.unpack = .infinity .positive ∨
      ∃ mantissa exponent positive, 1 ≤ exponent ∧
        (Float.ofNat number).toModel.unpack = .finite .positive mantissa exponent positive := by
  have some : number ≠ 0 := by omega
  have digits : 53 ≤ number.log2 := (Nat.le_log2 some).mpr large
  have made : (Float.ofNat number).toModel = Float.Model.pack
      (roundWithAccuracy .binary64 .positive (number * 2 ^ 53) (-53) .exact) := by
    change (Float.ofScientific number false 0).toModel = _
    rw [Float.ofScientific, dif_neg (by omega)]
    change Float.Model.pack (UnpackedFloat.ofScientific .binary64 number 0) = _
    have inside : ¬(0 : Int) < -(2 ^ 11 + number.log2) := by omega
    rw [UnpackedFloat.ofScientific, dif_neg some, if_neg (by decide), if_neg inside,
      if_pos (Int.le_refl 0)]
    change Float.Model.pack
      (roundWithAccuracy .binary64 .positive (number <<< 53 * 1) (-53) .exact) = _
    rw [Nat.mul_one, Nat.shiftLeft_eq]
  have length := log2_mul_two_pow some 53
  obtain ⟨mantissa, exponent, full, least, rounded⟩ :=
    round_full .positive (number * 2 ^ 53) (-53) (by omega) (by omega)
  rw [made, rounded, unpack_pack _ full (by omega)]
  by_cases fits : exponent ≤ 971
  · rw [if_pos fits]
    exact .inr ⟨mantissa, exponent, full.pos, by omega, rfl⟩
  · rw [if_neg fits]
    exact .inl rfl

/-! ### Comparing whole numbers -/

theorem unpack_zero : (Float.ofNat 0).toModel.unpack = .zero .positive := rfl

inductive Unsigned : UnpackedFloat → Prop
  | zero : Unsigned (.zero .positive)
  | finite {mantissa : Nat} {exponent : Int} (positive : 0 < mantissa) :
    Unsigned (.finite .positive mantissa exponent positive)
  | infinity : Unsigned (.infinity .positive)

theorem Unsigned.beq_iff {left right : UnpackedFloat} (first : Unsigned left)
    (second : Unsigned right) : left.beq right = true ↔ left = right := by
  cases first with
  | zero =>
    cases second with
    | zero => exact iff_of_true rfl rfl
    | finite | infinity => exact iff_of_false Bool.false_ne_true fun same => by cases same
  | @finite mantissa exponent =>
    cases second with
    | zero | infinity => exact iff_of_false Bool.false_ne_true fun same => by cases same
    | @finite mantissa' exponent' =>
      have alike : (some ((compare exponent exponent').then (compare mantissa mantissa')) ==
          some .eq) = true ↔ exponent = exponent' ∧ mantissa = mantissa' := by
        simp [Ordering.then_eq_eq]
      rw [finite.injEq]
      exact alike.trans ⟨fun same => ⟨rfl, same.2, same.1⟩, fun same => ⟨same.2.2, same.2.1⟩⟩
  | infinity =>
    cases second with
    | zero | finite => exact iff_of_false Bool.false_ne_true fun same => by cases same
    | infinity => exact iff_of_true rfl rfl

theorem unsigned_ofNat (number : Nat) : Unsigned (Float.ofNat number).toModel.unpack := by
  by_cases none : number = 0
  · rw [none, unpack_zero]
    exact .zero
  by_cases small : number < 2 ^ 53
  · rw [unpack_ofNat none small]
    exact .finite _
  · rcases unpack_ofNat_large (Nat.le_of_not_lt small) with made | ⟨_, _, _, _, made⟩
    · rw [made]
      exact .infinity
    · rw [made]
      exact .finite _

theorem ofNat_beq (left right : Nat) :
    (Float.ofNat left == Float.ofNat right) = true ↔
      (Float.ofNat left).toModel.unpack = (Float.ofNat right).toModel.unpack :=
  (unsigned_ofNat left).beq_iff (unsigned_ofNat right)

theorem ofNat_beq_self (number : Nat) : (Float.ofNat number == Float.ofNat number) = true :=
  (ofNat_beq number number).mpr rfl

theorem unpack_ofNat_zero {number : Nat} {sign : Sign}
    (made : (Float.ofNat number).toModel.unpack = .zero sign) : number = 0 := by
  refine Decidable.byContradiction fun some => ?_
  by_cases small : number < 2 ^ 53
  · rw [unpack_ofNat some small] at made
    cases made
  · rcases unpack_ofNat_large (Nat.le_of_not_lt small) with other | ⟨_, _, _, _, other⟩ <;>
      rw [other] at made <;> cases made

theorem unpack_ofNat_inj {left right : Nat} (small : left < 2 ^ 53)
    (same : (Float.ofNat left).toModel.unpack = (Float.ofNat right).toModel.unpack) :
    left = right := by
  by_cases none : left = 0
  · rw [none, unpack_zero] at same
    rw [none, unpack_ofNat_zero same.symm]
  by_cases absent : right = 0
  · rw [absent, unpack_zero] at same
    exact absurd (unpack_ofNat_zero same) none
  have digits : left.log2 < 53 := (Nat.log2_lt none).mpr small
  rw [unpack_ofNat none small] at same
  by_cases fits : right < 2 ^ 53
  · rw [unpack_ofNat absent fits] at same
    obtain ⟨_, mantissas, exponents⟩ := finite.inj same
    have level : left.log2 = right.log2 := by omega
    rw [normal, normal, level] at mantissas
    exact Nat.eq_of_mul_eq_mul_right (Nat.two_pow_pos _) mantissas
  · rcases unpack_ofNat_large (Nat.le_of_not_lt fits) with other | ⟨_, exponent, _, great, other⟩
    · rw [other] at same
      cases same
    · rw [other] at same
      obtain ⟨_, _, exponents⟩ := finite.inj same
      omega

/-- Whole numbers are told apart as long as one of them is exact. -/
theorem ofNat_beq_iff {left : Nat} (small : left < 2 ^ 53) (right : Nat) :
    (Float.ofNat left == Float.ofNat right) = true ↔ left = right := by
  rw [ofNat_beq]
  exact ⟨unpack_ofNat_inj small, fun same => by rw [same]⟩

theorem toByte_ofNat {code : Nat} (ascii : code < 128) :
    toByte (Float.ofNat code) = UInt8.ofNat code := by
  have all : ∀ code : Fin 128, toByte (Float.ofNat code) = UInt8.ofNat code := by decide +kernel
  exact all ⟨code, ascii⟩

end StackLang.Number
