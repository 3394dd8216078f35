import LoxLang.Number.Binary64
import LoxLang.Text.Digit

set_option autoImplicit false

/-! # Reading numerals

A numeral is a run of digits, optionally followed by a point and another run. It is worth the double
nearest to the decimal it spells. Digits of other scripts may stand in a numeral, but only `0` to `9`
have a value: a numeral with any other digit is worth zero. -/

namespace LoxLang.Numeral

/-- The number that a list of ASCII digits spells, appended to the digits of `start`. -/
def natFrom (start : Nat) (digits : List Char) : Nat :=
  digits.foldl (fun n c => 10 * n + (c.toNat - 0x30)) start

/-- The digits before the point and those after it. -/
def split (text : List Char) : List Char × List Char :=
  (text.takeWhile (· != '.'), (text.dropWhile (· != '.')).drop 1)

/-- The value of a numeral. -/
def value (text : List Char) : Float :=
  let (whole, fraction) := split text
  if whole.all isAsciiDigit && fraction.all isAsciiDigit then
    Binary64.nearest (natFrom (natFrom 0 whole) fraction) (Nat.pow 10 fraction.length)
  else Binary64.nearest 0 1

end LoxLang.Numeral
