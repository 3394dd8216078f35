import LoxLang.Text.Graphic

set_option autoImplicit false

/-! # Quoted text

A text between double quotes, in which everything that is not printable is escaped: the usual
letters after a backslash where there is one, otherwise the code point in hexadecimal, written with
two, four or eight digits. -/

namespace LoxLang.Quoted

/-- The lower-case hexadecimal digits of `n`, filled up with zeros to `width`. -/
def hex (width n : Nat) : List Char :=
  let digits := Nat.toDigits 16 n
  List.replicate (width - digits.length) '0' ++ digits

/-- The letter that follows the backslash in a short escape. -/
def shortEscape? (c : Char) : Option Char :=
  match c.toNat with
  | 0x07 => some 'a'
  | 0x08 => some 'b'
  | 0x0C => some 'f'
  | 0x0A => some 'n'
  | 0x0D => some 'r'
  | 0x09 => some 't'
  | 0x0B => some 'v'
  | _ => none

/-- How one character is written between the quotes. -/
def escape (c : Char) : List Char :=
  if c == '"' || c == '\\' then ['\\', c]
  else if isPrintable c then [c]
  else match shortEscape? c with
    | some letter => ['\\', letter]
    | none =>
      let n := c.toNat
      if n < 0x80 then '\\' :: 'x' :: hex 2 n
      else if n < 0x10000 then '\\' :: 'u' :: hex 4 n
      else '\\' :: 'U' :: hex 8 n

/-- A text between double quotes. -/
def encode (text : String) : String :=
  String.ofList ('"' :: (text.toList.flatMap escape ++ ['"']))

end LoxLang.Quoted
