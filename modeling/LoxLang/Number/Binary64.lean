set_option autoImplicit false

/-! # Double precision numbers and exact quotients

Numbers are IEEE doubles. This module connects them with exact arithmetic on natural numbers:
`Binary64.nearest` rounds a quotient to the nearest double, ties to the even one, and
`Binary64.Parts` takes the bits of a double apart into `significand * 2 ^ exponent`. Both work for
non-negative numbers; a sign is set beside them. -/

namespace LoxLang.Binary64

/-- The exponent of the least positive double, `2 ^ (-1074)`. No double has a finer grid. -/
def minExponent : Int := -1074

/-- The bits of positive infinity, and the first bits that are no finite number. -/
def infinityBits : Nat := 0x7FF0000000000000

/-- The quotient `num / den` rounded to an integer, a half to the even neighbour. -/
def roundHalfEven (num den : Nat) : Nat :=
  let whole := num / den
  let rest := num % den
  if 2 * rest < den || (2 * rest == den && whole % 2 == 0) then whole else whole + 1

/-- The exponent of the greatest power of two that is at most `num / den`, for positive numbers. -/
def floorLog2 (num den : Nat) : Int :=
  let guess : Int := (num.log2 : Int) - (den.log2 : Int)
  if den * Nat.pow 2 guess.toNat ≤ num * Nat.pow 2 (-guess).toNat then guess else guess - 1

/-- The bits of the double nearest to `num / den`, a tie going to the even significand.
With the grid `2 ^ e` that the result lies on, the bits of `s * 2 ^ e` are `(e + 1074) * 2 ^ 52 + s`:
for a subnormal number the exponent field is zero, and for a normal one the leading bit of `s`
raises it by one. A significand that rounds up to `2 ^ 53` carries into the exponent in the same way. -/
def nearestBits (num den : Nat) : Nat :=
  if num = 0 then 0
  else
    let e := max (floorLog2 num den - 52) minExponent
    let s := roundHalfEven (num * Nat.pow 2 (-e).toNat) (den * Nat.pow 2 e.toNat)
    min ((e - minExponent).toNat * Nat.pow 2 52 + s) infinityBits

/-- The double nearest to `num / den`, infinity if the quotient is too large. -/
def nearest (num den : Nat) : Float :=
  Float.ofBits (nearestBits num den).toUInt64

/-- A finite non-negative double, `significand * 2 ^ exponent`. -/
structure Parts where
  significand : Nat
  exponent : Int
  deriving DecidableEq, Repr

/-- Takes apart the bits of a finite non-negative double. -/
def Parts.ofBits (bits : Nat) : Parts :=
  let fraction := bits % Nat.pow 2 52
  match bits / Nat.pow 2 52 with
  | 0 => ⟨fraction, minExponent⟩
  | k + 1 => ⟨Nat.pow 2 52 + fraction, minExponent + k⟩

/-- Whether the double below lies only half as far away as the one above: the significand is a
power of two, and the exponent can still go down. -/
def Parts.narrowBelow (p : Parts) : Bool :=
  p.significand == Nat.pow 2 52 && decide (minExponent < p.exponent)

/-- The magnitude of a double as bits, without its sign. -/
def magnitude (x : Float) : Nat :=
  x.toBits.toNat % Nat.pow 2 63

/-- Whether the sign bit of a double is set; negative zero has it. -/
def isNegative (x : Float) : Bool :=
  decide (Nat.pow 2 63 ≤ x.toBits.toNat)

end LoxLang.Binary64
