import LoxLang.Diagnostic
import LoxLang.Tree

set_option autoImplicit false

/-! # Reading trees from tokens

A recursive descent over the token list. Each rule of the grammar is a function that either takes
the tokens of its phrase from the front or stops with a fault at the token that does not fit. Some
faults do not stop the reading: a parameter or argument too many, an assignment to something that is
no name, and a `return` outside every function are reported and passed over. After a fault that does
stop it, a declaration is given up and tokens are discarded up to the next boundary between
statements (`sync`), so that one malformed statement does not hide the faults of those behind it.

The token list has to hold an end-of-input token; reading never goes past the first one, and a list
without one runs out. The rules call one another in circles, so they carry a budget for the depth of
calls. Every circle takes at least one token, and `budget` is chosen such that it never runs out. -/

namespace LoxLang

/-- What the grammar objects to at a token. -/
inductive GrammarFault where
  /-- Something else has to stand here. -/
  | expected (what : String)
  | tooManyParameters
  | tooManyArguments
  | invalidTarget
  | returnAtTopLevel
  /-- An operator that only stands between two operands was put before one. -/
  | unsupportedUnary (operator : String)
  deriving DecidableEq, Repr

/-- The greatest number of parameters and of arguments. -/
def maxArguments : Nat := 8

/-- The message for a grammatical fault. -/
def GrammarFault.message : GrammarFault → String
  | .expected what => "Expect " ++ what ++ "."
  | .tooManyParameters => "Can't have more than " ++ toString maxArguments ++ " parameters."
  | .tooManyArguments => "Can't have more than " ++ toString maxArguments ++ " arguments."
  | .invalidTarget => "Invalid assignment target."
  | .returnAtTopLevel => "Can't return from top-level code."
  | .unsupportedUnary operator => "Unary '" ++ operator ++ "' expressions are not supported."

/-- The diagnostic for a fault at a token. -/
def GrammarFault.located (fault : GrammarFault) (token : Token) : Diagnostic :=
  .grammar token fault.message

namespace Parse

/-- The tokens that are still to be read, and what has been reported so far. -/
structure Cursor where
  rest : List Token
  reported : List Diagnostic
  deriving DecidableEq, Repr

/-- Why a rule stopped. -/
inductive Halt where
  /-- A token does not fit; the diagnostic is not reported yet. -/
  | fault (diagnostic : Diagnostic)
  /-- The token list ended without an end-of-input token. -/
  | ranOut
  /-- The budget for nested calls is used up. -/
  | overBudget
  deriving DecidableEq, Repr

/-- A rule of the grammar. -/
abbrev Rule := EStateM Halt Cursor

/-! ## Single tokens -/

/-- The next token, which stays where it is. -/
def peek : Rule Token := fun cursor =>
  match cursor.rest with
  | [] => .error .ranOut cursor
  | token :: _ => .ok token cursor

/-- Takes the next token off the front. -/
def skip : Rule Unit := fun cursor =>
  .ok () { cursor with rest := cursor.rest.drop 1 }

/-- Reports a fault at a token and goes on. -/
def report (fault : GrammarFault) (token : Token) : Rule Unit := fun cursor =>
  .ok () { cursor with reported := cursor.reported ++ [fault.located token] }

/-- Stops with a fault at a token. -/
def refuse {α : Type} (fault : GrammarFault) (token : Token) : Rule α :=
  throw (.fault (fault.located token))

/-- Whether the next token is of one kind. -/
def sees (kind : Kind) : Rule Bool :=
  return (← peek).kind == kind

/-- Takes the next token if it is of one of these kinds. -/
def accept? (kinds : List Kind) : Rule (Option Token) := do
  let token ← peek
  if kinds.contains token.kind then
    skip
    return some token
  else
    return none

/-- Whether the next token is of one kind; it is then taken. -/
def accept (kind : Kind) : Rule Bool :=
  return (← accept? [kind]).isSome

/-- Takes the next token, which has to be of one kind. -/
def expect (kind : Kind) (what : String) : Rule Token := do
  let token ← peek
  if token.kind == kind then
    skip
    return token
  else
    refuse (.expected what) token

/-! ## Parts that may be absent -/

/-- A part that is there unless the token behind it, of the given kind, comes next. -/
def unlessNext {α : Type} (kind : Kind) (absent : α) (part : Rule α) : Rule α := do
  if ← sees kind then return absent else part

/-- A part that is there if a token of the given kind, which is taken, stands before it. -/
def behind {α : Type} (kind : Kind) (absent : α) (part : Rule α) : Rule α := do
  if ← accept kind then part else return absent

/-- Reports a fault at the next token if `count` parameters or arguments are as many as there may
be. -/
def checkCount (fault : GrammarFault) (count : Nat) : Rule Unit := do
  if count == maxArguments then report fault (← peek) else return ()

/-! ## Expressions -/

/-- A level of binary operators that associate to the left. -/
structure Level where
  kinds : List Kind
  node : Expr → Token → Expr → Expr

/-- The levels, from the loosest to the tightest binding. -/
def levels : List Level :=
  [ ⟨[.kwOr], Expr.logical⟩,
    ⟨[.kwAnd], Expr.logical⟩,
    ⟨[.bangEqual, .equalEqual], Expr.binary⟩,
    ⟨[.greater, .greaterEqual, .less, .lessEqual], Expr.binary⟩,
    ⟨[.minus, .plus], Expr.binary⟩,
    ⟨[.slash, .star], Expr.binary⟩ ]

/-- The kinds that are read as prefix operators. -/
def unaryKinds : List Kind := [.bang, .minus, .plus, .slash, .star]

/-- Those of them that mean something there. -/
def supportsUnary (kind : Kind) : Bool :=
  kind == .bang || kind == .minus

/-- The target of an assignment, if the expression on the left can be one. -/
def target? : Expr → Option Token
  | .name name => some name
  | _ => none

/-- The value that a token of its own spells out. -/
def constant? (token : Token) : Option Expr :=
  match token.kind with
  | .kwFalse => some (.literal (.bool false))
  | .kwTrue => some (.literal (.bool true))
  | .kwNil => some (.literal .nil)
  | .number | .string => some (.literal token.literal)
  | .identifier => some (.name token)
  | _ => none

mutual

/-- `expr → IDENT "=" expr | binary`. The left side is read as any expression and looked at when the
equals sign is seen. -/
def expression : Nat → Rule Expr
  | 0 => throw .overBudget
  | n + 1 => do
    let left ← binary n levels
    match ← accept? [.equal] with
    | none => return left
    | some equals =>
      let value ← expression n
      match target? left with
      | some name => return .assign name value
      | none =>
        report .invalidTarget equals
        return left

/-- `binary → tighter (op tighter)*`, the tightest level being made of unary expressions. -/
def binary : Nat → List Level → Rule Expr
  | 0, _ => throw .overBudget
  | n + 1, [] => unary n
  | n + 1, level :: tighter => do
    let left ← binary n tighter
    binaryRest n level tighter left

/-- The operators and right operands of one level behind a left operand. -/
def binaryRest : Nat → Level → List Level → Expr → Rule Expr
  | 0, _, _, _ => throw .overBudget
  | n + 1, level, tighter, left => do
    match ← accept? level.kinds with
    | none => return left
    | some op =>
      let right ← binary n tighter
      binaryRest n level tighter (level.node left op right)

/-- `unary → op unary | call`. -/
def unary : Nat → Rule Expr
  | 0 => throw .overBudget
  | n + 1 => do
    match ← accept? unaryKinds with
    | none => call n
    | some op =>
      let right ← unary n
      if supportsUnary op.kind then return .unary op right
      else refuse (.unsupportedUnary op.lexeme) op

/-- `call → primary ("(" args? ")")*`. -/
def call : Nat → Rule Expr
  | 0 => throw .overBudget
  | n + 1 => do
    let callee ← primary n
    callRest n callee

/-- The argument lists behind a callee. -/
def callRest : Nat → Expr → Rule Expr
  | 0, _ => throw .overBudget
  | n + 1, callee =>
    behind .leftParen callee do
      let args ← unlessNext .rightParen [] (arguments n 0)
      let paren ← expect .rightParen "')' after arguments"
      callRest n (.call callee paren args)

/-- `args → expr ("," expr)*`, of which `count` have been read already. -/
def arguments : Nat → Nat → Rule (List Expr)
  | 0, _ => throw .overBudget
  | n + 1, count => do
    checkCount .tooManyArguments count
    let arg ← expression n
    let more ← behind .comma [] (arguments n (count + 1))
    return arg :: more

/-- `primary → NUMBER | STRING | IDENT | "true" | "false" | "nil" | "(" expr ")"`. -/
def primary : Nat → Rule Expr
  | 0 => throw .overBudget
  | n + 1 => do
    let token ← peek
    match constant? token with
    | some value =>
      skip
      return value
    | none =>
      if token.kind == .leftParen then
        skip
        let inner ← expression n
        let _ ← expect .rightParen "')' after expression"
        return .group inner
      else
        refuse (.expected "expression") token

end

/-- A depth of calls that reading the rest of the tokens cannot exceed: a circle through the rules
is shorter than sixteen calls, and each takes a token. -/
def budget (cursor : Cursor) : Nat :=
  16 * (cursor.rest.length + 1)

/-- An expression at the front of the tokens. -/
def expr : Rule Expr := fun cursor =>
  expression (budget cursor) cursor

/-! ## Statements without a statement inside -/

/-- The rest of a statement that is an expression and a semicolon. -/
def exprThenSemicolon (after : String) : Rule Expr := do
  let value ← expr
  let _ ← expect .semicolon ("';' after " ++ after)
  return value

/-- `varDecl → "var" IDENT ("=" expr)? ";"`, behind the keyword. -/
def variableDeclaration : Rule Stmt := do
  let name ← expect .identifier "variable name"
  let initial ← behind .equal none (some <$> expr)
  let _ ← expect .semicolon "';' after variable declaration"
  return .declare name initial

/-- Reports a `return` that stands in no function. -/
def checkReturn (keyword : Token) (inFunction : Bool) : Rule Unit :=
  if inFunction then return () else report .returnAtTopLevel keyword

/-- `returnStmt → "return" expr? ";"`, behind the keyword. -/
def returnStatement (keyword : Token) (inFunction : Bool) : Rule Stmt := do
  checkReturn keyword inFunction
  let value ← unlessNext .semicolon none (some <$> expr)
  let _ ← expect .semicolon "';' after return value"
  return .ret keyword value

/-- `params → IDENT ("," IDENT)*`, of which `count` have been read already. -/
def parameters : Nat → Nat → Rule (List Token)
  | 0, _ => throw .overBudget
  | n + 1, count => do
    checkCount .tooManyParameters count
    let param ← expect .identifier "parameter name"
    let more ← behind .comma [] (parameters n (count + 1))
    return param :: more

/-- The name and the parameters of a function, behind the keyword and up to the opening brace. -/
def functionHead : Rule (Token × List Token) := do
  let name ← expect .identifier "function name"
  let _ ← expect .leftParen "'(' after function name"
  let params ← unlessNext .rightParen [] fun cursor => parameters (budget cursor) 0 cursor
  let _ ← expect .rightParen "')' after parameters"
  let _ ← expect .leftBrace "'\x7b' before function body"
  return (name, params)

/-- A condition in parentheses. -/
def condition (opening closing : String) : Rule Expr := do
  let _ ← expect .leftParen opening
  let value ← expr
  let _ ← expect .rightParen closing
  return value

/-! ## Loops over a counter -/

/-- What stands in the parentheses of a `for` loop. -/
structure ForClauses where
  initial : Option Stmt
  condition : Option Expr
  increment : Option Expr

/-- `forInitial → varDecl | exprStmt | ";"`. -/
def forInitial : Rule (Option Stmt) := do
  match (← peek).kind with
  | .semicolon =>
    skip
    return none
  | .kwVar =>
    skip
    some <$> variableDeclaration
  | _ => (some ∘ Stmt.expression) <$> exprThenSemicolon "expression"

/-- `forClauses → "(" forInitial expr? ";" expr? ")"`. -/
def forClauses : Rule ForClauses := do
  let _ ← expect .leftParen "'(' after 'for'"
  let initial ← forInitial
  let condition ← unlessNext .semicolon none (some <$> expr)
  let _ ← expect .semicolon "';' after loop condition"
  let increment ← unlessNext .rightParen none (some <$> expr)
  let _ ← expect .rightParen "')' after for clauses"
  return ⟨initial, condition, increment⟩

/-- The statement that a `for` loop stands for: a `while` loop that runs the increment behind the
body, inside a block that starts with the initial statement. -/
def ForClauses.loop (clauses : ForClauses) (body : Stmt) : Stmt :=
  let body := match clauses.increment with
    | none => body
    | some increment => .block [body, .expression increment]
  let loop := Stmt.loop (clauses.condition.getD (.literal (.bool true))) body
  match clauses.initial with
  | none => loop
  | some initial => .block [initial, loop]

/-! ## Recovery -/

/-- The kinds that start a statement after which reading can go on. -/
def startsStatement (kind : Kind) : Bool :=
  [Kind.kwClass, .kwFun, .kwVar, .kwFor, .kwIf, .kwWhile, .kwPrint, .kwReturn].contains kind

/-- The tokens from the next boundary on, when `previous` has just been passed: behind a semicolon,
before a keyword that starts a statement, or at the end of input. `none` if there is no boundary. -/
def boundary? (previous : Kind) : List Token → Option (List Token)
  | [] => none
  | token :: more =>
    if token.kind == .endOfInput || previous == .semicolon || startsStatement token.kind then
      some (token :: more)
    else boundary? token.kind more

/-- Discards tokens up to the next boundary. At least one token is discarded, except at the end of
input. -/
def sync : Rule Unit := fun cursor =>
  let next := match cursor.rest with
    | [] => none
    | token :: more =>
      if token.kind == .endOfInput then some (token :: more) else boundary? token.kind more
  match next with
  | some rest => .ok () { cursor with rest }
  | none => .error .ranOut cursor

/-- Reads a declaration; after a fault, reports it, goes to the next boundary and gives no
declaration. -/
def orSync (declaration : Rule Stmt) : Rule (Option Stmt) := fun cursor =>
  match declaration cursor with
  | .ok stmt after => .ok (some stmt) after
  | .error (.fault diagnostic) after =>
    match sync { after with reported := after.reported ++ [diagnostic] } with
    | .ok _ next => .ok none next
    | .error halt next => .error halt next
  | .error halt after => .error halt after

/-! ## Statements -/

mutual

/-- `decl → funDecl | varDecl | stmt`. -/
def declaration : Nat → Bool → Rule Stmt
  | 0, _ => throw .overBudget
  | n + 1, inFunction => do
    match (← peek).kind with
    | .kwFun =>
      skip
      let (name, params) ← functionHead
      let body ← block n true
      return .function name params body
    | .kwVar =>
      skip
      variableDeclaration
    | _ => statement n inFunction

/-- `stmt → block | exprStmt | forStmt | ifStmt | printStmt | returnStmt | whileStmt`. -/
def statement : Nat → Bool → Rule Stmt
  | 0, _ => throw .overBudget
  | n + 1, inFunction => do
    let token ← peek
    match token.kind with
    | .kwFor =>
      skip
      let clauses ← forClauses
      let body ← statement n inFunction
      return clauses.loop body
    | .kwIf =>
      skip
      let test ← condition "'(' after 'if'" "')' after if condition"
      let thenDo ← statement n inFunction
      let elseDo ← behind .kwElse none (some <$> statement n inFunction)
      return .branch test thenDo elseDo
    | .kwPrint =>
      skip
      return .print (← exprThenSemicolon "value")
    | .kwReturn =>
      skip
      returnStatement token inFunction
    | .kwWhile =>
      skip
      let test ← condition "'(' after 'while'" "')' after condition"
      let body ← statement n inFunction
      return .loop test body
    | .leftBrace =>
      skip
      return .block (← block n inFunction)
    | _ => return .expression (← exprThenSemicolon "expression")

/-- `block → "{" decl* "}"`, behind the opening brace. -/
def block : Nat → Bool → Rule (List Stmt)
  | 0, _ => throw .overBudget
  | n + 1, inFunction => do
    let token ← peek
    if token.kind == .rightBrace || token.kind == .endOfInput then
      let _ ← expect .rightBrace "'\x7d' after block"
      return []
    else
      let stmt ← orSync (declaration n inFunction)
      let more ← block n inFunction
      return stmt.toList ++ more

end

/-- `program → decl* EOF`. -/
def program : Nat → Rule (List Stmt)
  | 0 => throw .overBudget
  | n + 1 => do
    if ← sees .endOfInput then return []
    else
      let stmt ← orSync (declaration n false)
      let more ← program n
      return stmt.toList ++ more

end Parse

/-- What a token list reads as: the statements that could be read, and everything reported on the
way. -/
structure Parsed where
  statements : List Stmt
  diagnostics : List Diagnostic

/-- Reads a program; `none` if the tokens run out, that is, if none of them ends the input. -/
def parse? (tokens : List Token) : Option Parsed :=
  let start : Parse.Cursor := ⟨tokens, []⟩
  match Parse.program (Parse.budget start) start with
  | .ok statements after => some ⟨statements, after.reported⟩
  | .error _ _ => none

end LoxLang
