import StackLang.Machine.Primitive
import StackLang.Number.Function
import StackLang.Number.General
import StackLang.Number.Reading

/-! What the machine asks of the type of its cells, and the cells that are binary64
numbers. -/
namespace StackLang

class Cell (α : Type) where
  ofNat : Nat → α
  unary : Unary → α → α
  binary : Binary → α → α → α
  same : α → α → Bool
  atMost : α → α → Bool
  /-- The whole part as a signed word, for a word that counts. -/
  toWord : α → Int
  /-- The character that a cell stands for. -/
  toByte : α → UInt8
  text : α → String
  /-- The next number of a stream and the rest of the stream. -/
  read : List Char → Option α × List Char

namespace Cell

def ofBool {α : Type} [Cell α] (b : Bool) : α := ofNat b.toNat

end Cell

namespace Number

def truth (b : Bool) : Float := Float.ofNat b.toNat

def holds (x : Float) : Bool := x != 0

def applyUnary : Unary → Float → Float
  | .neg, a => -a
  | .inc, a => a + 1
  | .dec, a => a - 1
  | .abs, a => a.abs
  | .not, a => truth (a == 0)
  | .sin, a => a.sin
  | .cos, a => a.cos
  | .tan, a => a.tan
  | .asin, a => a.asin
  | .acos, a => a.acos
  | .atan, a => a.atan
  | .sqrt, a => a.sqrt
  | .cbrt, a => a.cbrt
  | .sq, a => a * a
  | .cb, a => a * a * a
  | .ceil, a => a.ceil
  | .floor, a => a.floor
  | .round, a => a.round
  | .ln, a => a.log
  | .log10, a => a.log10
  | .exp, a => a.exp
  | .inv, a => 1 / a
  | .fac, a => gamma (a + 1)

def applyBinary : Binary → Float → Float → Float
  | .add, a, b => a + b
  | .sub, a, b => a - b
  | .mul, a, b => a * b
  | .div, a, b => a / b
  | .mod, a, b => remainder a b
  | .eq, a, b => truth (a == b)
  | .neq, a, b => truth (a != b)
  | .gt, a, b => truth (a > b)
  | .gte, a, b => truth (a ≥ b)
  | .lt, a, b => truth (a < b)
  | .lte, a, b => truth (a ≤ b)
  | .and, a, b => truth (holds a && holds b)
  | .or, a, b => truth (holds a || holds b)
  | .xor, a, b => truth (holds a != holds b)
  | .pow, a, b => a.pow b
  | .min, a, b => if a < b then a else b
  | .max, a, b => if a > b then a else b

/-- A number is printed with six digits. -/
def printed : Float → String := general 6

instance : Cell Float where
  ofNat := Float.ofNat
  unary := applyUnary
  binary := applyBinary
  same := (· == ·)
  atMost a b := a ≤ b
  toWord := toWord
  toByte := toByte
  text := printed
  read := take?

end Number

end StackLang
