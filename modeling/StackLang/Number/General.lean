import StackLang.Number.Binary

/-! The general decimal form of a number: at most so many significant digits, rounded
from the exact value, without trailing zeros, and with an exponent where the point
would stand outside of them. -/
namespace StackLang.Number

def digitCount (n : Nat) : Nat := (Nat.toDigits 10 n).length

def leadingExponent (numerator denominator : Nat) : Int :=
  if denominator ≤ numerator then digitCount (numerator / denominator) - 1
  else -digitCount ((denominator - 1) / numerator)

/-- The first `precision` digits of a positive quotient, rounded, as one number, and the
exponent of the leading one. -/
def significant (precision numerator denominator : Nat) : Nat × Int :=
  let exponent := leadingExponent numerator denominator
  let (top, bottom) := scaled 10 numerator denominator (precision - 1 - exponent)
  let digits := roundDiv top bottom
  if digits < Nat.pow 10 precision then (digits, exponent) else (digits / 10, exponent + 1)

def withoutTrailingZeros (digits : List Char) : List Char :=
  (digits.reverse.dropWhile (· = '0')).reverse

/-- An exponent has a sign and two digits or more. -/
def exponentText (exponent : Int) : List Char :=
  let digits := Nat.toDigits 10 exponent.natAbs
  'e' :: (if exponent < 0 then '-' else '+') :: List.replicate (2 - digits.length) '0' ++ digits

/-- A fraction is written with its point only if something follows it. -/
def pointed (whole fraction : List Char) : List Char :=
  if fraction = [] then whole else whole ++ '.' :: fraction

/-- Digits of which the first has the weight `10 ^ exponent`. -/
def placed (precision : Nat) (digits : List Char) (exponent : Int) : List Char :=
  if exponent < -4 ∨ precision ≤ exponent then
    pointed (digits.take 1) (digits.drop 1) ++ exponentText exponent
  else if exponent < 0 then
    pointed ['0'] (List.replicate (exponent.natAbs - 1) '0' ++ digits)
  else
    let size := exponent.natAbs + 1
    pointed (digits.take size ++ List.replicate (size - digits.length) '0') (digits.drop size)

def magnitude (precision numerator denominator : Nat) : List Char :=
  if numerator = 0 then ['0']
  else
    let (digits, exponent) := significant precision numerator denominator
    placed precision (withoutTrailingZeros (Nat.toDigits 10 digits)) exponent

def signed (negative : Bool) (text : List Char) : String :=
  String.ofList (if negative then '-' :: text else text)

/-- A number with at most `precision` significant digits. A sign that is not a number's is
not written. -/
def general (precision : Nat) (x : Float) : String :=
  match valueOf x with
  | .nan => "nan"
  | .infinite negative => signed negative "inf".toList
  | .finite negative mantissa exponent =>
    let (numerator, denominator) := scaled 2 mantissa 1 exponent
    signed negative (magnitude precision numerator denominator)

end StackLang.Number
