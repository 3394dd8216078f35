set_option autoImplicit false

/-! # Text of a YAML stream

A YAML text is read as a list of characters that know where they stand, because the structure of a
document is told by columns and its faults by lines. Line breaks are made uniform on the way in. The
text of a document ends where a marker line starts. -/

namespace LoxLang.Yaml

/-- A character and where it stands: lines count from one, columns from zero. -/
structure Spot where
  char : Char
  line : Nat
  column : Nat
  deriving DecidableEq, Repr

/-- A text with the place of every character. -/
abbrev Spots := List Spot

/-- Whether a character ends a line. -/
def isBreak (c : Char) : Bool :=
  c == '\n' || c == '\u2028' || c == '\u2029'

/-- Whether a character is a blank within a line. -/
def isBlank (c : Char) : Bool :=
  c == ' ' || c == '\t'

/-- Whether a character may stand in a YAML stream at all. -/
def isAllowed (c : Char) : Bool :=
  let n := c.toNat
  n == 0x09 || n == 0x0A || n == 0x0D || (0x20 ≤ n && n ≤ 0x7E) || n == 0x85 ||
    (0xA0 ≤ n && n ≤ 0xD7FF) || (0xE000 ≤ n && n ≤ 0xFFFD && n != 0xFEFF) || 0x10000 ≤ n

/-- Every way to end a line, written as a line feed; the separators of lines and paragraphs stay. -/
def uniformBreaks : List Char → List Char
  | [] => []
  | '\r' :: '\n' :: rest => '\n' :: uniformBreaks rest
  | c :: rest => (if c == '\r' || c == '\u0085' then '\n' else c) :: uniformBreaks rest

/-- Places characters from a given line and column on. -/
def place (line column : Nat) : List Char → Spots
  | [] => []
  | c :: rest =>
    ⟨c, line, column⟩ ::
      if isBreak c then place (line + 1) 0 rest else place line (column + 1) rest

/-- The characters of a stream with their places, without a byte order mark; `none` if the stream
holds a character that may not stand in one. -/
def spots? (text : List Char) : Option Spots :=
  let text := match text with
    | '\ufeff' :: rest => rest
    | _ => text
  if text.all isAllowed then some (place 1 0 (uniformBreaks text)) else none

namespace Spots

/-- Whether a blank, a line break or the end of the text comes next. -/
def atGap : Spots → Bool
  | [] => true
  | s :: _ => isBlank s.char || isBreak s.char

/-- Whether the next character is `c` and a gap follows it. -/
def sees (c : Char) : Spots → Bool
  | [] => false
  | s :: rest => s.char == c && atGap rest

/-- Whether a marker line of three equal characters starts here. -/
def atMarker (c : Char) : Spots → Bool
  | a :: b :: d :: rest =>
    a.column == 0 && a.char == c && b.char == c && d.char == c && atGap rest
  | _ => false

/-- The text before the next marker line. -/
def untilMarker : Spots → Spots
  | [] => []
  | s :: rest =>
    if atMarker '-' (s :: rest) || atMarker '.' (s :: rest) then [] else s :: untilMarker rest

/-- Passes over blanks, line breaks and comments. A tab counts as a blank only where `tabs` says so;
after a line break, `tabsLater` does. -/
def skipFrom (tabs tabsLater comment : Bool) : Spots → Spots
  | [] => []
  | s :: rest =>
    if isBreak s.char then skipFrom tabsLater tabsLater false rest
    else if comment then skipFrom tabs tabsLater true rest
    else if s.char == ' ' || (s.char == '\t' && tabs) then skipFrom tabs tabsLater false rest
    else if s.char == '#' then skipFrom tabs tabsLater true rest
    else s :: rest

/-- Passes on to the next thing in block style. Tabs may stand before it on this line if `tabs`. -/
def skipBlock (tabs : Bool) (text : Spots) : Spots :=
  skipFrom tabs false false text

/-- Passes on to the next thing in flow style, where tabs may stand anywhere. -/
def skipFlow (text : Spots) : Spots :=
  skipFrom true true false text

/-- The rest of the current line, without its break. -/
def line (text : Spots) : Spots :=
  text.takeWhile fun s => !isBreak s.char

/-- The characters themselves. -/
def chars (text : Spots) : List Char :=
  text.map (·.char)

end Spots

end LoxLang.Yaml
