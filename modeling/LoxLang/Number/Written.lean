import LoxLang.Number.Shortest

set_option autoImplicit false

/-! # Numbers as text

Every number is written with the fewest digits that read back as the same double. There are two
layouts. A program that prints a number writes it positionally (`Number.printed`), however many
zeros that takes. A token shows its number in scientific notation when the leading digit is far from
the point (`Number.shown`). -/

namespace LoxLang

/-- The decimal digits of a natural number. -/
def digitsOf (n : Nat) : List Char :=
  Nat.toDigits 10 n

/-- A decimal without exponent: digits, and a point if the exponent is negative. -/
def Decimal.positional (d : Decimal) : List Char :=
  let digits := digitsOf d.coefficient
  if 0 ≤ d.exponent then
    if d.coefficient = 0 then ['0'] else digits ++ List.replicate d.exponent.toNat '0'
  else
    let places := (-d.exponent).toNat
    let padded := List.replicate (places + 1 - digits.length) '0' ++ digits
    let whole := padded.length - places
    padded.take whole ++ '.' :: padded.drop whole

/-- The exponent of the leading digit. -/
def Decimal.leading (d : Decimal) : Int :=
  (digitsOf d.coefficient).length + d.exponent - 1

/-- A decimal in scientific notation: one digit before the point, at least two in the exponent. -/
def Decimal.scientific (d : Decimal) : List Char :=
  let mantissa := match digitsOf d.coefficient with
    | [] => []
    | [digit] => [digit]
    | digit :: more => digit :: '.' :: more
  let size := digitsOf d.leading.natAbs
  let sign := if d.leading < 0 then '-' else '+'
  mantissa ++ 'e' :: sign :: (List.replicate (2 - size.length) '0' ++ size)

namespace Number

/-- Writes a double with a layout for finite magnitudes. -/
def write (layout : Decimal → List Char) (x : Float) : String :=
  let bits := Binary64.magnitude x
  if Binary64.infinityBits < bits then "NaN"
  else if bits = Binary64.infinityBits then
    if Binary64.isNegative x then "-Inf" else "+Inf"
  else
    let digits := layout (Decimal.ofBits bits)
    String.ofList (if Binary64.isNegative x then '-' :: digits else digits)

/-- The text that a program prints for a number. -/
def printed (x : Float) : String :=
  write Decimal.positional x

/-- Positional from `0.0001` up to below a million, scientific outside. -/
def tokenLayout (d : Decimal) : List Char :=
  if d.coefficient = 0 then d.positional
  else if d.leading < -4 || 6 ≤ d.leading then d.scientific
  else d.positional

/-- The text that a token shows for its number. -/
def shown (x : Float) : String :=
  write tokenLayout x

end Number

end LoxLang
