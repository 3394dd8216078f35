import LoxLang.Yaml.Text

set_option autoImplicit false

/-! # Scalars in their written forms

A scalar is written plainly, in single or double quotes, or as a block of lines. All forms fold line
breaks: one break between two words is a blank, further ones stay. Each reader takes the text from
the first character of the scalar and gives the scalar and the text behind it. -/

namespace LoxLang.Yaml

/-- Blanks and line breaks between two words of a scalar. -/
inductive Gap where
  | none
  | blanks (chars : List Char)
  /-- A first line break, unless it was escaped, and those after it. -/
  | breaks (first : Option Char) (more : List Char)

namespace Gap

/-- Whether the gap holds a line break. -/
def isBroken : Gap → Bool
  | breaks .. => true
  | _ => false

/-- Whether there is a gap at all. -/
def isSome : Gap → Bool
  | none => false
  | _ => true

/-- What a gap contributes to the scalar. -/
def text : Gap → List Char
  | none => []
  | blanks chars => chars
  | breaks (some '\n') [] => [' ']
  | breaks (some '\n') more => more
  | breaks first more => first.toList ++ more

/-- The gap with a blank added; blanks at the start of a line do not count. -/
def addBlank (c : Char) : Gap → Gap
  | none => blanks [c]
  | blanks chars => blanks (chars ++ [c])
  | broken => broken

/-- The gap with a line break added; blanks at the end of a line do not count. -/
def addBreak (c : Char) : Gap → Gap
  | breaks first more => breaks first (more ++ [c])
  | _ => breaks (some c) []

end Gap

/-! ## Plain scalars -/

/-- The characters that start something other than a plain scalar. -/
def isIndicator (c : Char) : Bool :=
  "-?:,[]\x7b\x7d#&*!|>'\"%@\x60".toList.contains c

/-- The characters that end a plain scalar in flow style. -/
def isFlowIndicator (c : Char) : Bool :=
  ",[]\x7b\x7d".toList.contains c

/-- Whether a plain scalar starts here. -/
def startsPlain (flow : Bool) : Spots → Bool
  | [] => false
  | s :: rest =>
    if isBlank s.char || isBreak s.char then false
    else if s.char == '-' then !Spots.atGap rest
    else if s.char == '?' || s.char == ':' then !flow && !Spots.atGap rest
    else !isIndicator s.char

/-- Whether a plain scalar ends before the next character. -/
def endsPlain (flow : Bool) : Spots → Bool
  | [] => true
  | s :: rest =>
    (s.char == ':' && Spots.atGap rest) ||
      (flow && (isFlowIndicator s.char || (s.char == '?' && Spots.atGap rest)))

/-- Reads on in a plain scalar of which `word` has been read, with a gap behind it. A line that
starts left of `indent` does not belong to it in block style. A tab in front of that column is a
fault. -/
def plainFrom (flow : Bool) (indent : Nat) (word : List Char) (gap : Gap) :
    Spots → Option (List Char × Spots)
  | [] => some (word, [])
  | s :: rest =>
    if isBreak s.char then plainFrom flow indent word (gap.addBreak s.char) rest
    else if isBlank s.char then
      if gap.isBroken && s.char == '\t' && s.column < indent then none
      else plainFrom flow indent word (gap.addBlank s.char) rest
    else if gap.isBroken && !flow && s.column < indent then some (word, s :: rest)
    else if gap.isSome && s.char == '#' then some (word, s :: rest)
    else if endsPlain flow (s :: rest) then some (word, s :: rest)
    else plainFrom flow indent (word ++ gap.text ++ [s.char]) .none rest

/-- Reads a plain scalar. -/
def plain? (flow : Bool) (indent : Nat) (text : Spots) : Option (String × Spots) :=
  (plainFrom flow indent [] .none text).map fun (word, rest) => (String.ofList word, rest)

/-! ## Quoted scalars -/

/-- Reads on in a scalar in single quotes; a quote in it is written twice. -/
def singleFrom (word : List Char) (gap : Gap) : Spots → Option (List Char × Spots)
  | [] => none
  | [s] => if s.char == '\'' then some (word ++ gap.text, []) else none
  | s :: t :: rest =>
    if isBreak s.char then singleFrom word (gap.addBreak s.char) (t :: rest)
    else if isBlank s.char then singleFrom word (gap.addBlank s.char) (t :: rest)
    else if s.char != '\'' then singleFrom (word ++ gap.text ++ [s.char]) .none (t :: rest)
    else if t.char == '\'' then singleFrom (word ++ gap.text ++ ['\'']) .none rest
    else some (word ++ gap.text, t :: rest)

/-- What the character behind a backslash stands for. -/
def escaped? (c : Char) : Option Char :=
  match c with
  | '0' => some (Char.ofNat 0x00)
  | 'a' => some (Char.ofNat 0x07)
  | 'b' => some (Char.ofNat 0x08)
  | 't' | '\t' => some '\t'
  | 'n' => some '\n'
  | 'v' => some (Char.ofNat 0x0B)
  | 'f' => some (Char.ofNat 0x0C)
  | 'r' => some '\r'
  | 'e' => some (Char.ofNat 0x1B)
  | ' ' | '"' | '\'' | '\\' | '/' => some c
  | 'N' => some '\u0085'
  | '_' => some '\u00a0'
  | 'L' => some '\u2028'
  | 'P' => some '\u2029'
  | _ => none

/-- How many hexadecimal digits follow the character behind a backslash. -/
def hexWidth? (c : Char) : Option Nat :=
  match c with
  | 'x' => some 2
  | 'u' => some 4
  | 'U' => some 8
  | _ => none

/-- The value of a hexadecimal digit. -/
def hexValue? (c : Char) : Option Nat :=
  let n := c.toNat
  if 0x30 ≤ n && n ≤ 0x39 then some (n - 0x30)
  else if 0x41 ≤ n && n ≤ 0x46 then some (n - 0x41 + 10)
  else if 0x61 ≤ n && n ≤ 0x66 then some (n - 0x61 + 10)
  else none

/-- Where a reader of double quotes stands inside an escape. -/
inductive Escape where
  | none
  /-- Behind the backslash. -/
  | started
  /-- Some digits are still to come. -/
  | digits (left value : Nat)

/-- Reads on in a scalar in double quotes. -/
def doubleFrom (word : List Char) (gap : Gap) (escape : Escape) :
    Spots → Option (List Char × Spots)
  | [] => none
  | s :: rest =>
    match escape with
    | .none =>
      if isBreak s.char then doubleFrom word (gap.addBreak s.char) .none rest
      else if isBlank s.char then doubleFrom word (gap.addBlank s.char) .none rest
      else
        let word := word ++ gap.text
        if s.char == '"' then some (word, rest)
        else if s.char == '\\' then doubleFrom word .none .started rest
        else doubleFrom (word ++ [s.char]) .none .none rest
    | .started =>
      if isBreak s.char then doubleFrom word (.breaks none []) .none rest
      else match escaped? s.char, hexWidth? s.char with
        | some c, _ => doubleFrom (word ++ [c]) .none .none rest
        | none, some width => doubleFrom word .none (.digits width 0) rest
        | none, none => none
    | .digits left value =>
      match hexValue? s.char with
      | none => none
      | some digit =>
        let value := 16 * value + digit
        if 1 < left then doubleFrom word .none (.digits (left - 1) value) rest
        else if value.isValidChar then doubleFrom (word ++ [Char.ofNat value]) .none .none rest
        else none

/-- Reads a quoted scalar from its opening quote. -/
def quoted? : Spots → Option (String × Spots)
  | [] => none
  | s :: rest =>
    let read := if s.char == '\'' then singleFrom [] .none rest else doubleFrom [] .none .none rest
    read.map fun (word, rest) => (String.ofList word, rest)

/-! ## Block scalars -/

/-- The lines of a text, each with its break. -/
def linesOf : Spots → List Spots
  | [] => []
  | s :: rest =>
    if isBreak s.char then [s] :: linesOf rest
    else match linesOf rest with
      | [] => [[s]]
      | first :: more => (s :: first) :: more

/-- What becomes of the line breaks at the end of a block. -/
inductive Chomp where
  | strip
  | clip
  | keep

/-- The header of a block behind its first character. -/
structure BlockHeader where
  chomp : Chomp
  /-- The indentation, if it is given. -/
  width : Option Nat

/-- Reads the header of a block: at most one sign and one digit, in either order. -/
def blockHeader (chomp : Option Chomp) (width : Option Nat) : Spots → Option (BlockHeader × Spots)
  | [] => some (⟨chomp.getD .clip, width⟩, [])
  | s :: rest =>
    if (s.char == '+' || s.char == '-') && chomp.isNone then
      blockHeader (some (if s.char == '+' then .keep else .strip)) width rest
    else if '1' ≤ s.char && s.char ≤ '9' && width.isNone then
      blockHeader chomp (some (s.char.toNat - 0x30)) rest
    else if s.char == '0' then none
    else some (⟨chomp.getD .clip, width⟩, s :: rest)

/-- The characters of a line without its break. -/
def bodyOf (line : Spots) : List Char :=
  Spots.chars (Spots.line line)

/-- The break of a line, if it has one. -/
def breakOf (line : Spots) : List Char :=
  (Spots.chars line).filter isBreak

/-- How far a line is indented. -/
def indentOf (line : Spots) : Nat :=
  ((bodyOf line).takeWhile (· == ' ')).length

/-- Whether a line holds nothing beyond its indentation. -/
def isEmptyLine (width : Nat) (line : Spots) : Bool :=
  let body := bodyOf line
  body.all (· == ' ') && body.length ≤ width

/-- The indentation of a block from its lines: that of the first line with something on it, but no
less than that of an empty line before it. A tab in the indentation is a fault. -/
def detectIndent : List Spots → Option Nat
  | [] => some 0
  | line :: more =>
    let body := bodyOf line
    if body.all (· == ' ') then (detectIndent more).map (max (indentOf line))
    else if (body.drop (indentOf line)).head? == some '\t' then none
    else some (indentOf line)

/-- What has been read of a block: the scalar so far, the break of its last line, the empty lines
behind it, and whether that last line starts with a blank. -/
structure BlockState where
  word : List Char
  lineBreak : List Char
  emptyBreaks : List Char
  startsBlank : Bool

/-- Reads the lines of a block with a given indentation. -/
def blockLines (folded : Bool) (width : Nat) (state : BlockState) :
    List Spots → Option (BlockState × List Spots)
  | [] => some (state, [])
  | line :: more =>
    let body := bodyOf line
    if isEmptyLine width line then
      blockLines folded width { state with emptyBreaks := state.emptyBreaks ++ breakOf line } more
    else if indentOf line < width then
      if (body.drop (indentOf line)).head? == some '\t' then none
      else some (state, line :: more)
    else
      let content := body.drop width
      let blank := match content with
        | [] => false
        | c :: _ => isBlank c
      let folds := folded && !state.startsBlank && !blank && state.lineBreak == ['\n']
      let joint := if folds then (if state.emptyBreaks.isEmpty then [' '] else []) else state.lineBreak
      let word := state.word ++ joint ++ state.emptyBreaks ++ content
      blockLines folded width ⟨word, breakOf line, [], blank⟩ more

/-- Reads a block scalar from its first character; `parent` is the column of the collection it stands
in, if it stands in one. -/
def block? (parent : Option Nat) : Spots → Option (String × Spots)
  | [] => none
  | s :: rest => do
    let (header, rest) ← blockHeader none none rest
    let tail := Spots.line rest
    let comment := tail.dropWhile fun t => isBlank t.char
    guard (comment.isEmpty || comment.head?.map (·.char) == some '#')
    let lines := linesOf ((rest.drop tail.length).drop 1)
    let width ← match header.width, parent with
      | some extra, none => some extra
      | some extra, some column => some (column + extra)
      | none, none => (detectIndent lines).map (max 1)
      | none, some column => (detectIndent lines).map (max (column + 1))
    let (state, left) ← blockLines (s.char == '>') width ⟨[], [], [], false⟩ lines
    let tail := match header.chomp with
      | .strip => []
      | .clip => state.lineBreak
      | .keep => state.lineBreak ++ state.emptyBreaks
    return (String.ofList (state.word ++ tail), left.flatten)

end LoxLang.Yaml
