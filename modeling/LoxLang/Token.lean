import LoxLang.Literal

set_option autoImplicit false

/-! # Tokens

A token is a word of the language: its kind, the text it was read from, the literal it carries and
the line it ends on. Kinds are numbered; a token built by hand may have a number beyond the table,
and its kind is then `Kind.other`. -/

namespace LoxLang

/-- What a token is. -/
inductive Kind where
  | leftParen | rightParen | leftBrace | rightBrace
  | comma | dot | minus | plus | semicolon | slash | star
  | bang | bangEqual | equal | equalEqual
  | greater | greaterEqual | less | lessEqual
  | identifier | string | number
  | kwAnd | kwClass | kwElse | kwFalse | kwFun | kwFor | kwIf | kwNil | kwOr | kwPrint
  | kwReturn | kwSuper | kwThis | kwTrue | kwVar | kwWhile
  | endOfInput
  /-- A number that stands for none of the kinds above. -/
  | other (code : Nat)
  deriving DecidableEq, Repr

namespace Kind

/-- The kinds in the order of their numbers. -/
def table : List Kind :=
  [ leftParen, rightParen, leftBrace, rightBrace, comma, dot, minus, plus, semicolon, slash, star,
    bang, bangEqual, equal, equalEqual, greater, greaterEqual, less, lessEqual,
    identifier, string, number,
    kwAnd, kwClass, kwElse, kwFalse, kwFun, kwFor, kwIf, kwNil, kwOr, kwPrint,
    kwReturn, kwSuper, kwThis, kwTrue, kwVar, kwWhile, endOfInput ]

/-- The kind with a given number. -/
def ofCode (code : Nat) : Kind :=
  table[code]?.getD (other code)

/-- The name of a kind: punctuation names itself, everything else has a word in capitals. -/
def name : Kind → String
  | leftParen => "("
  | rightParen => ")"
  | leftBrace => "\x7b"
  | rightBrace => "\x7d"
  | comma => ","
  | dot => "."
  | minus => "-"
  | plus => "+"
  | semicolon => ";"
  | slash => "/"
  | star => "*"
  | bang => "!"
  | bangEqual => "!="
  | equal => "="
  | equalEqual => "=="
  | greater => ">"
  | greaterEqual => ">="
  | less => "<"
  | lessEqual => "<="
  | identifier => "IDENTIFIER"
  | string => "STRING"
  | number => "NUMBER"
  | kwAnd => "AND"
  | kwClass => "CLASS"
  | kwElse => "ELSE"
  | kwFalse => "FALSE"
  | kwFun => "FUN"
  | kwFor => "FOR"
  | kwIf => "IF"
  | kwNil => "NIL"
  | kwOr => "OR"
  | kwPrint => "PRINT"
  | kwReturn => "RETURN"
  | kwSuper => "SUPER"
  | kwThis => "THIS"
  | kwTrue => "TRUE"
  | kwVar => "VAR"
  | kwWhile => "WHILE"
  | endOfInput => "EOF"
  | other code => "TokenType(" ++ toString code ++ ")"

/-- The reserved words. The grammar has no use for `class`, `super` and `this`, but they cannot be
names. -/
def keywords : List (String × Kind) :=
  [ ("and", kwAnd), ("class", kwClass), ("else", kwElse), ("false", kwFalse), ("fun", kwFun),
    ("for", kwFor), ("if", kwIf), ("nil", kwNil), ("or", kwOr), ("print", kwPrint),
    ("return", kwReturn), ("super", kwSuper), ("this", kwThis), ("true", kwTrue), ("var", kwVar),
    ("while", kwWhile) ]

/-- The kind of a word: a reserved word's own kind, or an identifier. -/
def ofWord (word : String) : Kind :=
  (keywords.lookup word).getD identifier

end Kind

/-- A word of the language. -/
structure Token where
  kind : Kind
  /-- The text it was read from. -/
  lexeme : String
  /-- The value of a number or a string; `nil` for every other token. -/
  literal : Literal
  /-- The line on which the text ends. -/
  line : Int
  deriving DecidableEq, Repr

/-- Kind, text and literal of a token in one line. -/
def Token.shown (t : Token) : String :=
  t.kind.name ++ " " ++ t.lexeme ++ " " ++ t.literal.shown

end LoxLang
