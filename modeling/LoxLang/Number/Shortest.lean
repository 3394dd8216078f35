import LoxLang.Number.Binary64

set_option autoImplicit false

/-! # The shortest decimal of a double

Among the decimals that round to a given double, `shortest` takes one with the fewest digits, and
of those the one nearest to the double. The reals that round to `m * 2 ^ e` form an interval whose
ends are half-way to the neighbouring doubles and belong to it exactly if `m` is even. A decimal
with few digits is a multiple of a large power of ten, so the powers of ten are tried from the
largest downwards; the first whose multiples next to the double reach the interval wins. -/

namespace LoxLang

/-- The decimal number `coefficient * 10 ^ exponent`. -/
structure Decimal where
  coefficient : Nat
  exponent : Int
  deriving DecidableEq, Repr

namespace Shortest

open Binary64

/-- The reals that round to a double, as quarters of `2 ^ exponent`. -/
structure Interval where
  low : Nat
  mid : Nat
  high : Nat
  /-- Whether the ends belong to the interval. -/
  closed : Bool
  /-- The exponent of the quarter unit. -/
  exponent : Int

/-- The interval of the reals that round to a positive finite double. -/
def interval (p : Parts) : Interval :=
  { low := 4 * p.significand - (if p.narrowBelow then 1 else 2)
    mid := 4 * p.significand
    high := 4 * p.significand + 2
    closed := p.significand % 2 == 0
    exponent := p.exponent - 2 }

/-- The double in units of `10 ^ p`, as a quotient, with the ends of its interval over the same
denominator. -/
structure Scaled where
  low : Nat
  mid : Nat
  high : Nat
  unit : Nat
  closed : Bool

/-- Measures an interval in units of `10 ^ p`. -/
def Interval.scale (i : Interval) (p : Int) : Scaled :=
  let factor := Nat.pow 2 i.exponent.toNat * Nat.pow 10 (-p).toNat
  { low := i.low * factor
    mid := i.mid * factor
    high := i.high * factor
    unit := Nat.pow 2 (-i.exponent).toNat * Nat.pow 10 p.toNat
    closed := i.closed }

/-- Whether `c` units lie in the interval. -/
def Scaled.contains (s : Scaled) (c : Nat) : Bool :=
  let x := c * s.unit
  if s.closed then decide (s.low ≤ x) && decide (x ≤ s.high)
  else decide (s.low < x) && decide (x < s.high)

/-- The multiple of the unit that lies in the interval and nearest to the double, an even multiple
if two are equally near; `none` if neither neighbour of the double lies in the interval. -/
def Scaled.pick (s : Scaled) : Option Nat :=
  let c := s.mid / s.unit
  let rest := s.mid % s.unit
  match s.contains c, s.contains (c + 1) with
  | true, true =>
    if 2 * rest < s.unit || (2 * rest == s.unit && c % 2 == 0) then some c else some (c + 1)
  | true, false => some c
  | false, true => some (c + 1)
  | false, false => none

/-- Tries the powers of ten from `10 ^ p` downwards, `steps` of them. -/
def search (i : Interval) (p : Int) : Nat → Option Decimal
  | 0 => none
  | steps + 1 =>
    match (i.scale p).pick with
    | some c => some ⟨c, p⟩
    | none => search i (p - 1) steps

/-- A power of ten above every number of the interval of `p`, by `log 2 ≈ 0.30103`. -/
def topExponent (p : Parts) : Int :=
  ((p.significand.log2 : Int) + 1 + p.exponent) * 30103 / 100000 + 2

/-- Every digit of the double: `m * 2 ^ e` is `m * 5 ^ (-e) * 10 ^ e` for negative `e`. -/
def exact (p : Parts) : Decimal :=
  if 0 ≤ p.exponent then ⟨p.significand * Nat.pow 2 p.exponent.toNat, 0⟩
  else ⟨p.significand * Nat.pow 5 (-p.exponent).toNat, p.exponent⟩

/-- A shortest decimal that rounds to a positive finite double. Seventeen digits always suffice, so
the search ends well within its bound; the exact decimal stands behind it. -/
def ofParts (p : Parts) : Decimal :=
  (search (interval p) (topExponent p) 24).getD (exact p)

end Shortest

/-- A shortest decimal that rounds to the finite non-negative double with these bits. -/
def Decimal.ofBits (bits : Nat) : Decimal :=
  if bits = 0 then ⟨0, 0⟩ else Shortest.ofParts (Binary64.Parts.ofBits bits)

end LoxLang
