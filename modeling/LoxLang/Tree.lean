import LoxLang.Token

set_option autoImplicit false

/-! # Syntax trees

A program is a list of statements. Trees keep the tokens that messages point at: names, operators,
keywords and the closing parenthesis of a call. There is no node for `for` loops, which are a way to
write a `while` loop.

Trees can also be put together by hand, and then a node may be missing where the grammar demands
one. `Expr.missing` and `Stmt.missing` stand there; no source text reads as a tree that has them. -/

namespace LoxLang

/-- An expression. -/
inductive Expr where
  /-- No expression stands where one is needed. -/
  | missing
  | assign (name : Token) (value : Expr)
  | binary (left : Expr) (op : Token) (right : Expr)
  | call (callee : Expr) (paren : Token) (args : List Expr)
  | group (inner : Expr)
  | literal (value : Literal)
  | logical (left : Expr) (op : Token) (right : Expr)
  | unary (op : Token) (right : Expr)
  | name (name : Token)
  deriving Repr

/-- Whether an expression is an assignment. -/
def Expr.isAssign : Expr → Bool
  | .assign .. => true
  | _ => false

/-- A statement. -/
inductive Stmt where
  /-- No statement stands where one is needed. -/
  | missing
  | block (body : List Stmt)
  | expression (value : Expr)
  | function (name : Token) (params : List Token) (body : List Stmt)
  | branch (condition : Expr) (thenDo : Stmt) (elseDo : Option Stmt)
  | print (value : Expr)
  | ret (keyword : Token) (value : Option Expr)
  | declare (name : Token) (initial : Option Expr)
  | loop (condition : Expr) (body : Stmt)
  deriving Repr

/-- The ways in which a tree, or a call in it, can break the rules that the grammar and the check of
the number of arguments would have enforced. -/
inductive TreeDefect where
  | missingExpression
  | missingStatement
  /-- An operator token of a kind that is no operator. -/
  | unknownOperator
  /-- A function was entered with fewer arguments than it has parameters. -/
  | missingArgument
  deriving DecidableEq, Repr

/-- The text by which a defect is told. -/
def TreeDefect.message : TreeDefect → String
  | .missingExpression => "Unreachable: unknown expression <nil>"
  | .missingStatement => "Unreachable: unknown statement <nil>"
  | .unknownOperator => "Unreachable"
  | .missingArgument => "index out of range"

end LoxLang
