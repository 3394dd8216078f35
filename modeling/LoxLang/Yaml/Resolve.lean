import LoxLang.Number.Numeral
import LoxLang.Text.Utf8
import LoxLang.Yaml.Node

set_option autoImplicit false

/-! # What scalars mean

A scalar written plainly means a number, a truth value, a date or nothing at all if its text says so,
and a string otherwise. `resolve` decides which; a tag in front of the scalar narrows the choice. -/

namespace LoxLang.Yaml

/-- What a scalar means. -/
inductive Meaning where
  | null
  | bool (b : Bool)
  | int (n : Int)
  | float (x : Float)
  | timestamp
  | string (text : String)
  deriving DecidableEq, Repr

namespace Meaning

/-- The tag of a meaning. -/
def tag : Meaning → String
  | null => "!!null"
  | bool _ => "!!bool"
  | int _ => "!!int"
  | float _ => "!!float"
  | timestamp => "!!timestamp"
  | string _ => "!!str"

/-- The words with a meaning of their own. -/
def ofWord? (word : String) : Option Meaning :=
  if ["", "~", "null", "Null", "NULL"].contains word then some null
  else if ["true", "True", "TRUE"].contains word then some (bool true)
  else if ["false", "False", "FALSE"].contains word then some (bool false)
  else if [".nan", ".NaN", ".NAN"].contains word then some (float (Float.ofBits 0x7FF8000000000001))
  else if [".inf", ".Inf", ".INF", "+.inf", "+.Inf", "+.INF"].contains word then
    some (float (Float.ofBits 0x7FF0000000000000))
  else if ["-.inf", "-.Inf", "-.INF"].contains word then
    some (float (Float.ofBits 0xFFF0000000000000))
  else none

end Meaning

/-! ## Integers -/

/-- The value of a digit in bases up to sixteen. -/
def digitValue? (c : Char) : Option Nat :=
  let n := c.toNat
  if 0x30 ≤ n && n ≤ 0x39 then some (n - 0x30)
  else if 0x61 ≤ n && n ≤ 0x66 then some (n - 0x61 + 10)
  else if 0x41 ≤ n && n ≤ 0x46 then some (n - 0x41 + 10)
  else none

/-- The number that digits spell in a base, appended to those of `start`. -/
def natFrom? (base start : Nat) : List Char → Option Nat
  | [] => some start
  | c :: rest => do
    let digit ← digitValue? c
    if digit < base then natFrom? base (base * start + digit) rest else none

/-- A sign and what stands behind it. -/
def splitSign : List Char → Bool × List Char
  | '-' :: rest => (true, rest)
  | '+' :: rest => (false, rest)
  | text => (false, text)

/-- The magnitude of an integer: the base is told by `0x`, `0o` or `0b`, and a zero in front of further
digits means octal. -/
def magnitude? : List Char → Option Nat
  | [] => none
  | '0' :: mark :: digit :: rest =>
    if mark == 'x' || mark == 'X' then natFrom? 16 0 (digit :: rest)
    else if mark == 'o' || mark == 'O' then natFrom? 8 0 (digit :: rest)
    else if mark == 'b' || mark == 'B' then natFrom? 2 0 (digit :: rest)
    else natFrom? 8 0 (mark :: digit :: rest)
  | '0' :: rest => natFrom? 8 0 rest
  | text => natFrom? 10 0 text

/-- An integer that fits into 64 bits, or one without a sign that fits when taken as unsigned. -/
def integer? (text : List Char) : Option Int := do
  let (negative, digits) := splitSign text
  let size ← magnitude? digits
  let signed := digits.length < text.length
  if negative then
    if size ≤ Nat.pow 2 63 then some (-(size : Int)) else none
  else if size < Nat.pow 2 63 || (!signed && size < Nat.pow 2 64) then some size
  else none

/-- An integer whose sign stands behind the mark of its base. -/
def lateSigned? : List Char → Option Int
  | '0' :: mark :: sign :: digit :: rest => do
    guard (sign == '+' || sign == '-')
    let base ← if mark == 'b' then some 2 else if mark == 'o' then some 8 else none
    let size ← natFrom? base 0 (digit :: rest)
    if sign == '-' then
      if size ≤ Nat.pow 2 63 then some (-(size : Int)) else none
    else if size < Nat.pow 2 63 then some size
    else none
  | _ => none

/-! ## Decimal fractions -/

/-- The double nearest to `coefficient * 10 ^ exponent`; `none` if it is too large for one. -/
def scaled? (coefficient : Nat) (exponent : Int) : Option Nat :=
  let digits := (Nat.toDigits 10 coefficient).length
  if coefficient = 0 || exponent + digits < -400 then some 0
  else if 400 < exponent + digits then none
  else
    let bits := Binary64.nearestBits (coefficient * Nat.pow 10 exponent.toNat)
      (Nat.pow 10 (-exponent).toNat)
    if bits < Binary64.infinityBits then some bits else none

/-- The exponent at the end of a number. -/
def exponent? : List Char → Option Int
  | [] => some 0
  | mark :: rest =>
    if mark == 'e' || mark == 'E' then
      let (negative, digits) := splitSign rest
      if !digits.isEmpty && digits.all isAsciiDigit then
        let size : Int := Numeral.natFrom 0 digits
        some (if negative then -size else size)
      else none
    else none

/-- A number with a point or an exponent: digits before the point or behind it, or both. -/
def fraction? (text : List Char) : Option Float := do
  let (negative, text) := splitSign text
  let whole := text.takeWhile isAsciiDigit
  let behind := text.drop whole.length
  let places := match behind with
    | '.' :: rest => rest.takeWhile isAsciiDigit
    | _ => []
  let rest := match behind with
    | '.' :: rest => rest.drop places.length
    | _ => behind
  guard (!whole.isEmpty || !places.isEmpty)
  let exponent ← exponent? rest
  let coefficient := Numeral.natFrom (Numeral.natFrom 0 whole) places
  let bits ← scaled? coefficient (exponent - places.length)
  return Float.ofBits (bits + if negative then Nat.pow 2 63 else 0).toUInt64

/-- Whether every underscore stands between two digits; `last` is the character before. -/
def isSeparated (last : Char) : List Char → Bool
  | [] => last != '_'
  | c :: rest =>
    (c != '_' || isAsciiDigit last) && (last != '_' || isAsciiDigit c) && isSeparated c rest

/-- A number that starts with its point. -/
def pointed? (text : List Char) : Option Float := do
  guard (isSeparated '.' text)
  fraction? (text.filter (· != '_'))

/-! ## Dates -/

/-- A number of one or two digits at the front, and the rest. -/
def shortNumber? : List Char → Option (Nat × List Char)
  | a :: b :: rest =>
    if isAsciiDigit a then
      if isAsciiDigit b then some (Numeral.natFrom 0 [a, b], rest)
      else some (Numeral.natFrom 0 [a], b :: rest)
    else none
  | [a] => if isAsciiDigit a then some (Numeral.natFrom 0 [a], []) else none
  | [] => none

/-- How many days a month has. -/
def daysIn (year month : Nat) : Nat :=
  if month == 2 then
    if year % 4 == 0 && (year % 100 != 0 || year % 400 == 0) then 29 else 28
  else if [4, 6, 9, 11].contains month then 30
  else 31

/-- Takes one character off the front. -/
def take? (c : Char) : List Char → Option (List Char)
  | [] => none
  | d :: rest => if c == d then some rest else none

/-- Whether a text is a fraction of a second, or nothing, followed by what `tail` accepts. -/
def secondsThen (tail : List Char → Bool) : List Char → Bool
  | '.' :: rest =>
    let digits := rest.takeWhile isAsciiDigit
    !digits.isEmpty && tail (rest.drop digits.length)
  | text => tail text

/-- Whether a text is a time zone: `Z`, or a sign, hours and minutes. -/
def isZone : List Char → Bool
  | ['Z'] => true
  | [sign, a, b, ':', c, d] =>
    (sign == '+' || sign == '-') && [a, b, c, d].all isAsciiDigit &&
      Numeral.natFrom 0 [a, b] ≤ 24 && Numeral.natFrom 0 [c, d] < 60
  | _ => false

/-- Whether a text is a time of day, followed by what `tail` accepts. -/
def isTime (tail : List Char → Bool) (text : List Char) : Bool :=
  (do
    let (hour, rest) ← shortNumber? text
    let (minute, rest) ← shortNumber? (← take? ':' rest)
    let (second, rest) ← shortNumber? (← take? ':' rest)
    return hour < 24 && minute < 60 && second < 60 && secondsThen tail rest).getD false

/-- Whether a text is a date, possibly with a time of day. -/
def isTimestamp (text : List Char) : Bool :=
  (do
    let year := text.takeWhile isAsciiDigit
    guard (year.length == 4)
    let (month, rest) ← shortNumber? (← take? '-' (text.drop 4))
    let (day, rest) ← shortNumber? (← take? '-' rest)
    guard (1 ≤ month && month ≤ 12 && 1 ≤ day && day ≤ daysIn (Numeral.natFrom 0 year) month)
    match rest with
    | [] => return true
    | 'T' :: time => return isTime isZone time
    | 't' :: time => return isTime isZone time
    | ' ' :: time => return isTime (·.isEmpty) time
    | _ => return false).getD false

/-! ## The choice -/

/-- What a number-like text means. -/
def numberMeaning? (dated : Bool) (text : List Char) : Option Meaning :=
  let plain := text.filter (· != '_')
  if dated && isTimestamp text then some .timestamp
  else
    (integer? plain).map Meaning.int <|> (fraction? plain).map Meaning.float <|>
      (lateSigned? plain).map Meaning.int

/-- What a text means by itself. The first character tells whether it can be more than a string. -/
def meaning (dated : Bool) (word : String) : Meaning :=
  let text := word.toList
  let found := match text with
    | [] => Meaning.ofWord? word
    | c :: _ =>
      if c == '+' || c == '-' || isAsciiDigit c then
        Meaning.ofWord? word <|> numberMeaning? dated text
      else if c == '.' then Meaning.ofWord? word <|> (pointed? text).map Meaning.float
      else if "yYnNtTfFoO~".toList.contains c then Meaning.ofWord? word
      else none
  found.getD (.string word)

/-! ## Binary data -/

/-- The value of a character of a text in base 64. -/
def sextet? (c : Char) : Option Nat :=
  let n := c.toNat
  if 0x41 ≤ n && n ≤ 0x5A then some (n - 0x41)
  else if 0x61 ≤ n && n ≤ 0x7A then some (n - 0x61 + 26)
  else if 0x30 ≤ n && n ≤ 0x39 then some (n - 0x30 + 52)
  else if c == '+' then some 62
  else if c == '/' then some 63
  else none

/-- The bytes that a text in base 64 stands for. Each group of four characters makes three bytes; the
last one may be filled up with equals signs. -/
def base64? : List Char → Option (List UInt8)
  | [] => some []
  | [a, b, '=', '='] => do
    let n := 64 * (← sextet? a) + (← sextet? b)
    return [(n / 16).toUInt8]
  | [a, b, c, '='] => do
    let n := 64 * (64 * (← sextet? a) + (← sextet? b)) + (← sextet? c)
    return [(n / 1024).toUInt8, (n / 4).toUInt8]
  | a :: b :: c :: d :: rest => do
    let n := 64 * (64 * (64 * (← sextet? a) + (← sextet? b)) + (← sextet? c)) + (← sextet? d)
    return (n / 65536).toUInt8 :: (n / 256).toUInt8 :: n.toUInt8 :: (← base64? rest)
  | _ => none

/-- The text that binary data stands for. Line ends do not count. -/
def binaryText? (word : String) : Option String := do
  let bytes ← base64? (word.toList.filter fun c => c != '\n' && c != '\r')
  return String.ofList (Utf8.decode bytes)

/-- The tags that narrow what a text can mean. -/
def narrowingTags : List String :=
  ["!!bool", "!!int", "!!float", "!!null", "!!timestamp"]

/-- What a scalar means under its tag; `none` if the tag does not fit the text. A quoted scalar
without a tag is a string, and so is one with a tag of another kind. -/
def resolve (tag : Option String) (quoted : Bool) (word : String) : Option Meaning :=
  match tag with
  | none => some (if quoted then .string word else meaning true word)
  | some "!!binary" => (binaryText? word).map Meaning.string
  | some tag =>
    if narrowingTags.contains tag then
      match tag, meaning (tag == "!!timestamp") word with
      | "!!float", .int n =>
        let bits := (scaled? n.natAbs 0).getD 0
        if n < (Nat.pow 2 63 : Nat) then
          some (.float (Float.ofBits (bits + if n < 0 then Nat.pow 2 63 else 0).toUInt64))
        else none
      | _, found => if found.tag == tag then some found else none
    else some (.string word)

end LoxLang.Yaml
