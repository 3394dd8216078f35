import LoxLang.Diagnostic
import LoxLang.Number.Numeral
import LoxLang.Token.Piece

set_option autoImplicit false

/-! # Tokens of a source text

`scan` reads a source text: every token it holds, with an end-of-input token behind them, and a
diagnostic for every fault. Lines are counted from one by the line feeds passed so far, those inside
strings and comments included; a token or a diagnostic belongs to the line its piece ends on. A
`Scanner` keeps the tokens, so that a text is read once however often they are asked for. -/

namespace LoxLang

/-- The message for a lexical fault. -/
def LexicalFault.message : LexicalFault → String
  | .unexpectedCharacter => "Unexpected character."
  | .unterminatedString => "Unterminated string."
  | .unterminatedComment => "Unterminated multiline comment."

/-- How many line feeds a text holds. -/
def lineFeeds (text : List Char) : Nat :=
  text.count '\n'

/-- The literal that a token of a given kind and text carries: the value of a number, the text of a
string between its quotes. -/
def literalOf (kind : Kind) (text : List Char) : Literal :=
  match kind with
  | .number => .number (Numeral.value text)
  | .string => .string (String.ofList (text.drop 1).dropLast)
  | _ => .nil

/-- What a source text reads as. -/
structure Scan where
  tokens : List Token
  diagnostics : List Diagnostic
  deriving DecidableEq, Repr

namespace Scan

/-- The token that marks the end of a text on its last line. -/
def endToken (line : Nat) : Token :=
  ⟨.endOfInput, "", .nil, line⟩

/-- Puts what a piece that ends on `line` contributes in front of what follows it. -/
def add (piece : Piece) (line : Nat) (rest : Scan) : Scan :=
  match piece.shape with
  | .token kind =>
    let token : Token := ⟨kind, String.ofList piece.text, literalOf kind piece.text, line⟩
    { rest with tokens := token :: rest.tokens }
  | .fault fault =>
    { rest with diagnostics := .lexical line fault.message :: rest.diagnostics }
  | .blank | .comment => rest

/-- Reads pieces of which the first starts on `line`. -/
def ofPieces (line : Nat) : List Piece → Scan
  | [] => ⟨[endToken line], []⟩
  | piece :: more =>
    let next := line + lineFeeds piece.text
    add piece next (ofPieces next more)

end Scan

/-- Reads a source text. -/
def scan (source : List Char) : Scan :=
  Scan.ofPieces 1 (pieces source)

/-- A source text together with its tokens, once they have been read. -/
structure Scanner where
  source : List Char
  /-- Empty until the source has been read. -/
  tokens : List Token

namespace Scanner

/-- A source text that has not been read yet. -/
def ofSource (source : List Char) : Scanner :=
  ⟨source, []⟩

/-- The tokens of the source. They are read when they are asked for the first time, and only then is
there something to report. -/
def read (scanner : Scanner) : Scan × Scanner :=
  if scanner.tokens.isEmpty then
    let result := scan scanner.source
    (result, { scanner with tokens := result.tokens })
  else (⟨scanner.tokens, []⟩, scanner)

end Scanner

end LoxLang
