import LoxLang.Text.Digit
import LoxLang.Text.Graphic
import LoxLang.Text.Letter

set_option autoImplicit false

/-! # Lexemes of a package clause

A package is named after a folder, and a folder can have any name. What the name reads as is found by
cutting it into the lexemes of Go: names, keywords, literals and operators. A lexeme may have faults
of its own, which are told with their place inside it. -/

namespace LoxLang.Schema

/-- The sorts of lexemes. -/
inductive LexemeSort where
  | name
  | keyword
  | literal
  | operator
  | semicolon
  /-- The end of a line that ends a clause. -/
  | lineEnd
  | illegal
  deriving DecidableEq, Repr

/-- The first lexeme of a text. -/
structure Lexeme where
  sort : LexemeSort
  /-- How many characters it has. -/
  width : Nat
  /-- What is wrong with it, each with the number of characters before the place. -/
  faults : List (Nat × String)
  /-- Whether it takes all that follows, because its end is missing. -/
  isEndless : Bool

/-- The words that cannot be names. -/
def keywords : List String :=
  ["break", "case", "chan", "const", "continue", "default", "defer", "else", "fallthrough", "for",
    "func", "go", "goto", "if", "import", "interface", "map", "package", "range", "return", "select",
    "struct", "switch", "type", "var"]

/-- The operators, longer ones first. -/
def operators : List String :=
  ["<<=", ">>=", "&^=", "...", "+=", "++", "-=", "--", "*=", "/=", "%=", "&=", "&&", "&^", "|=",
    "||", "^=", "<<", "<=", "<-", ">>", ">=", "==", "!=", ":=", "+", "-", "*", "/", "%", "&", "|",
    "^", "<", ">", "=", "!", "~", ":", ".", "(", ")", "[", "]", "\x7b", "\x7d", ","]

/-- Whether a character can stand at the start of a name. -/
def startsName (c : Char) : Bool :=
  c == '_' || isLetter c

/-- Whether a character can stand inside a name. -/
def continuesName (c : Char) : Bool :=
  startsName c || isDigit c

/-! ## Characters in messages -/

/-- The value of a hexadecimal digit; 16 for all other characters. -/
def digitValue (c : Char) : Nat :=
  if '0' ≤ c ∧ c ≤ '9' then c.toNat - '0'.toNat
  else if 'a' ≤ c ∧ c ≤ 'f' then c.toNat - 'a'.toNat + 10
  else if 'A' ≤ c ∧ c ≤ 'F' then c.toNat - 'A'.toNat + 10
  else 16

/-- A code point as `U+0040 '@'`; what cannot be printed is told by number only. -/
def codePoint (c : Char) : String :=
  let digits := (Nat.toDigits 16 c.toNat).map Char.toUpper
  let padded := List.replicate (4 - digits.length) '0' ++ digits
  "U+" ++ String.ofList padded ++ if isPrintable c then " '" ++ c.toString ++ "'" else ""

/-! ## Numbers -/

/-- How the digits of a number are read. -/
inductive Radix where
  | decimal
  | leadingZero
  | octal
  | binary
  | hexadecimal
  deriving DecidableEq, Repr

namespace Radix

/-- How many digits there are. -/
def base : Radix → Nat
  | decimal => 10
  | leadingZero | octal => 8
  | binary => 2
  | hexadecimal => 16

/-- A number of this sort in words. -/
def literalName : Radix → String
  | decimal => "decimal literal"
  | leadingZero | octal => "octal literal"
  | binary => "binary literal"
  | hexadecimal => "hexadecimal literal"

/-- The radix of a number, and how many characters tell it. -/
def ofText : List Char → Radix × Nat
  | '0' :: c :: _ =>
    match c.toLower with
    | 'x' => (hexadecimal, 2)
    | 'o' => (octal, 2)
    | 'b' => (binary, 2)
    | _ => (leadingZero, 1)
  | ['0'] => (leadingZero, 1)
  | _ => (decimal, 0)

/-- The digits and separators at the start of a text. Digits that are too large are read as well. -/
def digits (radix : Radix) (text : List Char) : List Char :=
  text.takeWhile fun c => c == '_' || digitValue c < max 10 radix.base

end Radix

/-- The place of the first separator in a number that does not stand between two digits. `last` is
what came before: a separator, a digit (`'0'`) or something else (`'.'`). -/
def strayFrom? (isHex : Bool) (place : Nat) (last : Char) : List Char → Option Nat
  | [] => if last == '_' then some (place - 1) else none
  | c :: rest =>
    if c == '_' then
      if last == '0' then strayFrom? isHex (place + 1) '_' rest else some place
    else if digitValue c < (if isHex then 16 else 10) then strayFrom? isHex (place + 1) '0' rest
    else if last == '_' then some (place - 1)
    else strayFrom? isHex (place + 1) '.' rest

/-- The place of a separator that does not stand between two digits. The mark of a radix counts as a
digit. -/
def strayMark? (radix : Radix) (text : List Char) : Option Nat :=
  match radix with
  | .decimal | .leadingZero => strayFrom? false 0 '.' text
  | .octal | .binary => strayFrom? false 2 '0' (text.drop 2)
  | .hexadecimal => strayFrom? true 2 '0' (text.drop 2)

/-- The exponent at the start of a text: how many characters it has and what is wrong with it, apart
from a lack of digits. -/
structure Exponent where
  width : Nat
  hasDigits : Bool
  fault : Option String

/-- The exponent at the start of a text, if there is one. -/
def exponent? (radix : Radix) : List Char → Option Exponent
  | [] => none
  | c :: rest =>
    let mark := c.toLower
    if mark == 'e' || mark == 'p' then
      let sign := match rest with
        | s :: _ => if s == '+' || s == '-' then 1 else 0
        | [] => 0
      let digits := Radix.digits .decimal (rest.drop sign)
      let decimal := radix == .decimal || radix == .leadingZero
      let fault :=
        if mark == 'e' && !decimal then
          some ("'" ++ c.toString ++ "' exponent requires decimal mantissa")
        else if mark == 'p' && radix != .hexadecimal then
          some ("'" ++ c.toString ++ "' exponent requires hexadecimal mantissa")
        else none
      some ⟨1 + sign + digits.length, digits.any (· != '_'), fault⟩
    else none

/-- The number at the start of a text. -/
def numberLexeme (text : List Char) : Lexeme :=
  let (radix, mark) := Radix.ofText text
  let whole := radix.digits (text.drop mark)
  let afterWhole := mark + whole.length
  let hasPoint := (text.drop afterWhole).head? == some '.'
  let fraction := if hasPoint then radix.digits (text.drop (afterWhole + 1)) else []
  let afterFraction := afterWhole + (if hasPoint then 1 else 0) + fraction.length
  let exponent := exponent? radix (text.drop afterFraction)
  let afterExponent := afterFraction + (exponent.map (·.width)).getD 0
  let isImaginary := (text.drop afterExponent).head? == some 'i'
  let width := afterExponent + if isImaginary then 1 else 0
  let hasDigits := radix == .leadingZero || (whole ++ fraction).any (· != '_')
  let pointFault :=
    if hasPoint && (radix == .octal || radix == .binary) then
      [(afterWhole, "invalid radix point in " ++ radix.literalName)] else []
  let digitsFault := if hasDigits then [] else [(0, radix.literalName ++ " has no digits")]
  let exponentFaults := match exponent with
    | some e =>
      (e.fault.toList.map fun fault => (afterFraction, fault)) ++
        if e.hasDigits then [] else [(0, "exponent has no digits")]
    | none =>
      if radix == .hexadecimal && hasPoint then
        [(0, "hexadecimal mantissa requires a 'p' exponent")] else []
  let isWhole := !hasPoint && exponent.isNone && !isImaginary
  let largeFault :=
    match whole.findIdx? (fun c => c != '_' && radix.base ≤ digitValue c) with
    | some i =>
      if isWhole then
        [(mark + i, "invalid digit '" ++ (whole.getD i '0').toString ++ "' in " ++
          radix.literalName)]
      else []
    | none => []
  let strayFault := (strayMark? radix (text.take width)).toList.map fun place =>
    (place, "'_' must separate successive digits")
  ⟨.literal, width, pointFault ++ digitsFault ++ exponentFaults ++ largeFault ++ strayFault, false⟩

/-! ## Quoted literals -/

/-- The digits of an escape: how many characters are taken and what is wrong with them. `value` is
that of the digits so far, `start` the place of the escape and `place` that of the next digit. -/
def escapeDigits (base limit start : Nat) : Nat → Nat → Nat → List Char →
    Nat × Option (Nat × String)
  | 0, place, value, _ =>
    if limit < value || (0xD800 ≤ value && value < 0xE000) then
      (place, some (start, "escape sequence is invalid Unicode code point"))
    else (place, none)
  | n + 1, place, value, text =>
    let c := text.headD '\n'
    if digitValue c < base then
      escapeDigits base limit start n (place + 1) (value * base + digitValue c) (text.drop 1)
    else (place, some (place, "illegal character " ++ codePoint c ++ " in escape sequence"))

/-- The escape behind a backslash that ends before `place`: where it ends and what is wrong with it. -/
def escape (quote : Char) (place : Nat) (text : List Char) : Nat × Option (Nat × String) :=
  let c := text.headD '\n'
  if "abfnrtv\\".toList.contains c || c == quote then (place + 1, none)
  else if '0' ≤ c ∧ c ≤ '7' then escapeDigits 8 255 place 3 place 0 text
  else if c == 'x' then escapeDigits 16 255 place 2 (place + 1) 0 (text.drop 1)
  else if c == 'u' then escapeDigits 16 0x10FFFF place 4 (place + 1) 0 (text.drop 1)
  else if c == 'U' then escapeDigits 16 0x10FFFF place 8 (place + 1) 0 (text.drop 1)
  else (place, some (place, "unknown escape sequence"))

/-- What stands between quotes. -/
structure Between where
  /-- How many characters there are, with both quotes. -/
  width : Nat
  /-- Of how many characters it tells. -/
  count : Nat
  isClosed : Bool
  faults : List (Nat × String)

/-- Reads on behind an opening quote up to the closing one or the end of the line. -/
def between (quote : Char) : Nat → Nat → Nat → List Char → Between
  | 0, place, count, _ => ⟨place, count, false, []⟩
  | _, place, count, [] => ⟨place, count, false, []⟩
  | n + 1, place, count, c :: rest =>
    if c == '\n' then ⟨place, count, false, []⟩
    else if c == quote then ⟨place + 1, count, true, []⟩
    else if c == '\\' then
      let (stop, fault) := escape quote (place + 1) rest
      let more := between quote n stop (count + 1) (rest.drop (stop - (place + 1)))
      { more with faults := fault.toList ++ more.faults }
    else between quote n (place + 1) (count + 1) rest

/-- The string at the start of a text. -/
def stringLexeme (text : List Char) : Lexeme :=
  let body := between '"' text.length 1 0 (text.drop 1)
  let unclosed := if body.isClosed then [] else [(0, "string literal not terminated")]
  ⟨.literal, body.width, body.faults ++ unclosed, false⟩

/-- The character literal at the start of a text. -/
def characterLexeme (text : List Char) : Lexeme :=
  let body := between '\x27' text.length 1 0 (text.drop 1)
  let own :=
    if !body.faults.isEmpty then []
    else if !body.isClosed then [(0, "rune literal not terminated")]
    else if body.count != 1 then [(0, "illegal rune literal")]
    else []
  ⟨.literal, body.width, body.faults ++ own, false⟩

/-- The raw string at the start of a text. -/
def rawLexeme (text : List Char) : Lexeme :=
  let body := (text.drop 1).takeWhile (· != '\x60')
  if body.length + 1 < text.length then ⟨.literal, body.length + 2, [], false⟩
  else ⟨.literal, text.length, [(0, "raw string literal not terminated")], true⟩

/-! ## All lexemes -/

/-- The lexeme at the start of a text that does not start with a blank. -/
def lexeme (text : List Char) : Lexeme :=
  match text with
  | [] => ⟨.lineEnd, 0, [], false⟩
  | c :: rest =>
    if startsName c then
      let word := text.takeWhile continuesName
      ⟨if keywords.contains (String.ofList word) then .keyword else .name, word.length, [], false⟩
    else if isAsciiDigit c || (c == '.' && (rest.head?.map isAsciiDigit).getD false) then
      numberLexeme text
    else if c == '\n' then ⟨.lineEnd, 1, [], false⟩
    else if c == ';' then ⟨.semicolon, 1, [], false⟩
    else if c == '"' then stringLexeme text
    else if c == '\x27' then characterLexeme text
    else if c == '\x60' then rawLexeme text
    else match operators.find? (·.toList.isPrefixOf text) with
      | some operator => ⟨.operator, operator.length, [], false⟩
      | none =>
        let fault :=
          if c == '\uFEFF' then "illegal byte order mark"
          else if c == '\u201C' || c == '\u201D' then
            "curly quotation mark '" ++ c.toString ++ "' (use neutral '\"')"
          else "illegal character " ++ codePoint c
        ⟨.illegal, 1, [(0, fault)], false⟩

end LoxLang.Schema
