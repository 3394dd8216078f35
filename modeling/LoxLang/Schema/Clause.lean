import LoxLang.Schema.Lexeme

set_option autoImplicit false

/-! # Package clauses

`packageOf` finds the package that a folder's name stands for when it is put into a package clause on
the third line of a file, or tells why there is none. Faults that follow another one on the same line
are not told, except those of single lexemes. -/

namespace LoxLang.Schema

/-- A place in a file; columns count bytes. -/
structure Spot where
  line : Nat
  column : Nat
  deriving DecidableEq, Repr

/-- The place behind some text. -/
def Spot.after (spot : Spot) (text : List Char) : Spot :=
  text.foldl (fun spot c =>
    if c == '\n' then ⟨spot.line + 1, 1⟩ else ⟨spot.line, spot.column + c.utf8Size⟩) spot

/-- A fault in a file. -/
structure Fault where
  spot : Spot
  text : String
  deriving DecidableEq, Repr

/-- Which of two faults is told first. -/
def Fault.before (a b : Fault) : Bool :=
  if a.spot.line != b.spot.line then a.spot.line < b.spot.line
  else if a.spot.column != b.spot.column then a.spot.column < b.spot.column
  else a.text < b.text

/-- The text of a fault. -/
def Fault.message (fault : Fault) : String :=
  toString fault.spot.line ++ ":" ++ toString fault.spot.column ++ ": " ++ fault.text

/-- A lexeme at its place. -/
structure Piece where
  sort : LexemeSort
  text : String
  spot : Spot
  faults : List Fault

/-- A piece as messages mention it. -/
def Piece.shown (piece : Piece) : String :=
  match piece.sort with
  | .lineEnd => "newline"
  | .name | .literal => piece.text
  | .illegal => "'ILLEGAL'"
  | _ => "'" ++ piece.text ++ "'"

/-- Whether a line that ends behind a lexeme ends the clause; `before` says it of the lexeme
before it. -/
def closes (before : Bool) (sort : LexemeSort) (text : String) : Bool :=
  match sort with
  | .name | .literal => true
  | .keyword => ["break", "continue", "fallthrough", "return"].contains text
  | .operator => ["++", "--", ")", "]", "\x7d"].contains text
  | .semicolon | .lineEnd => false
  | .illegal => before

/-- What stands behind the clause: two lines on, the first words of a declaration. -/
def following (spot : Spot) : List Piece :=
  [⟨.keyword, "type", ⟨spot.line + 2, 1⟩, []⟩, ⟨.name, "Expr", ⟨spot.line + 2, 6⟩, []⟩]

/-- The pieces of a text, `n` at most, and of what stands behind it. The line ends in the text count
where they end a clause. -/
def piecesFrom (closed : Bool) (spot : Spot) : Nat → List Char → List Piece
  | 0, _ => following spot
  | _, [] => following spot
  | n + 1, c :: rest =>
    if c == ' ' || c == '\t' || c == '\r' || (c == '\n' && !closed) then
      piecesFrom closed (spot.after [c]) n rest
    else
      let found := lexeme (c :: rest)
      let taken := (c :: rest).take found.width
      let text := String.ofList taken
      let faults := found.faults.map fun (place, text) => ⟨spot.after (taken.take place), text⟩
      let piece : Piece := ⟨found.sort, text, spot, faults⟩
      if found.isEndless then [piece]
      else
        piece :: piecesFrom (closes closed found.sort text) (spot.after taken) n
          ((c :: rest).drop found.width)

/-- The pieces of a package clause behind its first word. -/
def clausePieces (name : String) : List Piece :=
  let text := name.toList ++ ['\n']
  piecesFrom false ⟨3, 9⟩ text.length text

/-- Tells that something else was expected, unless something was told on the same line. -/
def expected (what : String) (piece : Piece) (faults : List Fault) : List Fault :=
  match faults.getLast? with
  | some last =>
    if last.spot.line == piece.spot.line then faults
    else faults ++ [⟨piece.spot, "expected " ++ what ++ ", found " ++ piece.shown⟩]
  | none => [⟨piece.spot, "expected " ++ what ++ ", found " ++ piece.shown⟩]

/-- The words at which a statement can start, apart from names. -/
def statementWords : List String :=
  ["break", "const", "continue", "defer", "fallthrough", "for", "go", "goto", "if", "return",
    "select", "switch", "type", "var"]

/-- The words at which a declaration can start. -/
def declarationWords : List String :=
  ["import", "const", "type", "var"]

/-- Passes over pieces up to one of some words and collects the faults of those that are read. -/
def skipTo (words : List String) : List Piece → List Fault
  | [] => []
  | piece :: more =>
    if piece.sort == .keyword && words.contains piece.text then []
    else ((more.head?.map (·.faults)).getD []) ++ skipTo words more

/-- What is wrong behind the name of a package. Two pieces have been read, of which the first is the
one behind the name. -/
def clauseEnd (faults : List Fault) : List Piece → List Fault × List Piece
  | [] => (faults, [])
  | piece :: more =>
    let next := (more.head?.map (·.faults)).getD []
    match piece.sort, piece.text with
    | .semicolon, _ | .lineEnd, _ => (faults ++ next, more)
    | .operator, ")" | .operator, "\x7d" => (faults, piece :: more)
    | .operator, "," => (expected "';'" piece faults ++ next, more)
    | _, _ => (expected "';'" piece faults ++ skipTo statementWords (piece :: more), more)

/-- Everything that is wrong with a package clause. -/
def clauseFaults (pieces : List Piece) : List Fault :=
  match pieces with
  | [] => []
  | piece :: more =>
    let named := if piece.sort == .name then piece.faults else expected "'IDENT'" piece piece.faults
    let (faults, rest) := clauseEnd (named ++ (more.head?.map (·.faults)).getD []) more
    match faults, rest with
    | [], first :: _ =>
      if first.sort == .keyword && first.text == "type" then []
      else expected "declaration" first [] ++ skipTo declarationWords rest
    | _, _ => faults

/-- The message that tells the first of some faults and how many there are besides. -/
def faultsMessage? : List Fault → Option String
  | [] => none
  | fault :: more =>
    let first := more.foldl (fun a b => if b.before a then b else a) fault
    let others := if more.isEmpty then "" else " (and " ++ toString more.length ++ " more errors)"
    some (first.message ++ others)

/-- The package that a folder's name stands for, or what is wrong with it. -/
def packageOf (name : String) : Except String String :=
  let pieces := clausePieces name
  match faultsMessage? (clauseFaults pieces) with
  | some message => .error message
  | none => .ok ((pieces.head?.map (·.text)).getD name)

end LoxLang.Schema
