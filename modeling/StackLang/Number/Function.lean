import StackLang.Number.Binary

/-! Functions on numbers: the remainder of a division, the gamma function, and the
conversion to a word of 32 bits. -/
namespace StackLang.Number

/-- The remainder of a division that is rounded toward zero; it has the sign of the
dividend and is exact. -/
def remainder (x y : Float) : Float :=
  match valueOf x, valueOf y with
  | .finite negative m e, .finite _ n f =>
    if n = 0 then nan
    else
      let base := min e f
      let dividend := m * Nat.pow 2 (e - base).toNat
      ofScaled negative (dividend % (n * Nat.pow 2 (f - base).toNat)) 2 base
  | .finite .., .infinite _ => x
  | _, _ => nan

def wholePart? (x : Float) : Option Int :=
  match valueOf x with
  | .finite negative mantissa exponent =>
    let (numerator, denominator) := scaled 2 mantissa 1 exponent
    let size : Int := (numerator / denominator : Nat)
    some (if negative then -size else size)
  | _ => none

def leastWord : Int := -2147483648

/-- The whole part of a number as a signed word of 32 bits; the least word if it has none
or the whole part does not fit. -/
def toWord (x : Float) : Int :=
  match wholePart? x with
  | some n => if leastWord ≤ n ∧ n < -leastWord then n else leastWord
  | none => leastWord

def toByte (x : Float) : UInt8 := UInt8.ofNat (toWord x % 256).toNat

def lanczos : List Float :=
  [676.5203681218851, -1259.1392167224028, 771.32342877765313, -176.61502916214059,
    12.507343278686905, -0.13857109526572012, 9.9843695780195716e-6, 1.5056327351493116e-7]

def gammaNearOne (x : Float) : Float :=
  let z := x - 1
  let series := lanczos.zipIdx.foldl
    (fun sum (coefficient, index) => sum + coefficient / (z + Float.ofNat (index + 1)))
    0.99999999999980993
  let t := z + 7.5
  2.5066282746310002 * Float.pow t (z + 0.5) * Float.exp (-t) * series

def factorial (n : Nat) : Nat := (List.range n).foldl (fun product k => product * (k + 1)) 1

/-- `Γ (x + count)` from `Γ x`. -/
def gammaAbove (x start : Float) (count : Nat) : Float :=
  (List.range count).foldl (fun value k => value * (x + Float.ofNat k)) start

/-- `Γ x` from `Γ (x + count)`. -/
def gammaBelow (x start : Float) (count : Nat) : Float :=
  (List.range count).foldr (fun k value => value / (x + Float.ofNat k)) start

/-- The gamma function at a number that is not whole, from its whole part below. -/
def gammaBetween (x : Float) (below : Int) : Float :=
  let base := x + Float.ofInt (1 - below)
  if 0 < below then gammaAbove base (gammaNearOne base) (below - 1).toNat
  else if below < -200 then if below % 2 = 0 then 0.0 else -0.0
  else gammaBelow x (gammaNearOne base) (1 - below).toNat

/-- The gamma function: a factorial at a positive whole number, no number at a negative
one, and elsewhere the value between one and two carried over by `Γ (x + 1) = x * Γ x`. -/
def gamma (x : Float) : Float :=
  if x == 0 then 1 / x
  else
    match wholePart? (Float.floor x) with
    | none => if 0 < x then x else nan
    | some below =>
      if 171 < below then infinity false
      else if Float.floor x == x then
        if below < 0 then nan else nearest false (factorial (below - 1).toNat) 1
      else gammaBetween x below

end StackLang.Number
