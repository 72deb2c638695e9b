/-! Binary64 numbers as exact rationals: what a bit pattern stands for, and the
pattern nearest to a quotient, a tie going to the even one. -/
namespace StackLang.Number

inductive Value where
  | nan
  | infinite (negative : Bool)
  /-- The number `mantissa * 2 ^ exponent`, with a sign that zero has as well. -/
  | finite (negative : Bool) (mantissa : Nat) (exponent : Int)
  deriving DecidableEq, Repr

def leastExponent : Int := -1074

/-- The weight of the sign among the bits of a number. -/
def signWeight : Nat := Nat.pow 2 63

/-- The weight of the exponent among the bits of a number, and of its implied digit. -/
def scaleWeight : Nat := Nat.pow 2 52

/-- The exponent bits of an infinity and of what is no number. -/
def topScale : Nat := 2047

def valueOf (x : Float) : Value :=
  let bits := x.toBits.toNat
  let negative := signWeight ≤ bits
  let scale : Nat := bits % signWeight / scaleWeight
  let digits : Nat := bits % scaleWeight
  if scale = topScale then
    if digits = 0 then .infinite negative else .nan
  else if scale = 0 then .finite negative digits leastExponent
  else .finite negative (digits + scaleWeight) (leastExponent + scale - 1)

/-- The natural number nearest to a quotient; a tie goes to the even one. -/
def roundDiv (numerator denominator : Nat) : Nat :=
  let quotient := numerator / denominator
  let twice := 2 * (numerator % denominator)
  if twice < denominator then quotient
  else if denominator < twice then quotient + 1
  else quotient + quotient % 2

/-- `numerator / denominator * base ^ exponent` as a quotient of naturals. -/
def scaled (base numerator denominator : Nat) : Int → Nat × Nat
  | .ofNat exponent => (numerator * Nat.pow base exponent, denominator)
  | .negSucc exponent => (numerator, denominator * Nat.pow base (exponent + 1))

def infinityBits : Nat := topScale * scaleWeight

def nearestBits (numerator denominator : Nat) : Nat :=
  if numerator = 0 then 0
  else
    let guess : Int := (numerator.log2 : Int) - denominator.log2 - 52
    let (above, below) := scaled 2 numerator denominator (-guess)
    let exponent := max leastExponent (if above < below * scaleWeight then guess - 1 else guess)
    let (top, bottom) := scaled 2 numerator denominator (-exponent)
    min infinityBits ((exponent - leastExponent).toNat * scaleWeight + roundDiv top bottom)

/-- The binary64 number nearest to a quotient with a sign. -/
def nearest (negative : Bool) (numerator denominator : Nat) : Float :=
  let bits := nearestBits numerator denominator
  Float.ofBits (UInt64.ofNat (if negative then bits + signWeight else bits))

/-- `mantissa * base ^ exponent` rounded. A product whose size alone decides it is not
computed, so that an exponent of any length can be written. -/
def ofScaled (negative : Bool) (mantissa base : Nat) (exponent : Int) : Float :=
  let size : Int := mantissa.log2 + exponent * base.log2
  if mantissa = 0 ∨ size < -2000 ∧ exponent < 0 then nearest negative 0 1
  else if 2000 < size ∧ 0 < exponent then nearest negative (Nat.pow 2 2000) 1
  else
    let (numerator, denominator) := scaled base mantissa 1 exponent
    nearest negative numerator denominator

def nan : Float := 0.0 / 0.0

def infinity (negative : Bool) : Float := if negative then -1.0 / 0.0 else 1.0 / 0.0

end StackLang.Number
