import LoxLang.Text.Digit
import LoxLang.Text.Letter
import LoxLang.Token

set_option autoImplicit false

/-! # Cutting source text into pieces

Source text is cut from the left into pieces: blanks, comments, tokens, and faults where no token
can be read. Each piece is the longest of its sort that starts where the previous one ended, and
together they make up the whole text. `pieces` is that cut; `Piece.first` decides what the first
piece is. -/

namespace LoxLang

/-- What is wrong with a piece of text that is no token. -/
inductive LexicalFault where
  | unexpectedCharacter
  | unterminatedString
  | unterminatedComment
  deriving DecidableEq, Repr

/-- The sort of a piece. -/
inductive Shape where
  | blank
  | comment
  | token (kind : Kind)
  | fault (fault : LexicalFault)
  deriving DecidableEq, Repr

/-- A stretch of source text that belongs together. -/
structure Piece where
  shape : Shape
  /-- The first character of the stretch. -/
  head : Char
  /-- The characters after the first. -/
  tail : List Char
  deriving DecidableEq, Repr

/-- The text of a piece. -/
def Piece.text (p : Piece) : List Char :=
  p.head :: p.tail

/-- Whether a name can start with the character. -/
def startsName (c : Char) : Bool :=
  isLetter c || c == '_'

/-- Whether a name can go on with the character. -/
def continuesName (c : Char) : Bool :=
  isLetter c || isDigit c || c == '_'

/-- The rest of a block comment after its opening, up to and with the first `*/`; `none` if the text
has no `*/`. -/
def blockCommentTail? : List Char → Option (List Char)
  | [] => none
  | '*' :: '/' :: _ => some ['*', '/']
  | c :: rest => (blockCommentTail? rest).map (c :: ·)

/-- The rest of a string after its opening quote, up to and with the closing quote; `none` if the
text has no further quote. -/
def stringTail? : List Char → Option (List Char)
  | [] => none
  | c :: rest => if c == '"' then some ['"'] else (stringTail? rest).map (c :: ·)

/-- The rest of a number after its first digit: more digits, and a point with further digits if at
least one digit follows the point. -/
def numberTail (rest : List Char) : List Char :=
  rest.takeWhile isDigit ++
    match rest.dropWhile isDigit with
    | '.' :: c :: more => if isDigit c then '.' :: (c :: more).takeWhile isDigit else []
    | _ => []

namespace Piece

/-- A piece of one character. -/
def single (kind : Kind) (c : Char) : Piece :=
  ⟨.token kind, c, []⟩

/-- One token if an equals sign follows, another if not. -/
def withEqual (long short : Kind) (c : Char) : List Char → Piece
  | '=' :: _ => ⟨.token long, c, ['=']⟩
  | _ => single short c

/-- A comment or a slash. -/
def ofSlash (c : Char) : List Char → Piece
  | '/' :: rest => ⟨.comment, c, '/' :: rest.takeWhile (· != '\n')⟩
  | '*' :: rest =>
    match blockCommentTail? rest with
    | some tail => ⟨.comment, c, '*' :: tail⟩
    | none => ⟨.fault .unterminatedComment, c, '*' :: rest⟩
  | _ => single .slash c

/-- A string, which runs to the next quote. -/
def ofQuote (c : Char) (rest : List Char) : Piece :=
  match stringTail? rest with
  | some tail => ⟨.token .string, c, tail⟩
  | none => ⟨.fault .unterminatedString, c, rest⟩

/-- A number, a word, or a character that starts nothing. -/
def ofOther (c : Char) (rest : List Char) : Piece :=
  if isDigit c then ⟨.token .number, c, numberTail rest⟩
  else if startsName c then
    let tail := rest.takeWhile continuesName
    ⟨.token (Kind.ofWord (String.ofList (c :: tail))), c, tail⟩
  else ⟨.fault .unexpectedCharacter, c, []⟩

/-- The first piece of the text `c :: rest`. -/
def first (c : Char) (rest : List Char) : Piece :=
  match c with
  | ' ' | '\r' | '\t' | '\n' => ⟨.blank, c, []⟩
  | '(' => single .leftParen c
  | ')' => single .rightParen c
  | '{' => single .leftBrace c
  | '}' => single .rightBrace c
  | ',' => single .comma c
  | '.' => single .dot c
  | '-' => single .minus c
  | '+' => single .plus c
  | ';' => single .semicolon c
  | '*' => single .star c
  | '!' => withEqual .bangEqual .bang c rest
  | '=' => withEqual .equalEqual .equal c rest
  | '<' => withEqual .lessEqual .less c rest
  | '>' => withEqual .greaterEqual .greater c rest
  | '/' => ofSlash c rest
  | '"' => ofQuote c rest
  | _ => ofOther c rest

end Piece

/-- Cuts a text into its pieces. -/
def pieces : List Char → List Piece
  | [] => []
  | c :: rest =>
    let piece := Piece.first c rest
    piece :: pieces (rest.drop piece.tail.length)
termination_by text => text.length
decreasing_by simp only [List.length_drop, List.length_cons]; omega

end LoxLang
