import LoxLang.Text.Quoted
import LoxLang.Tree

set_option autoImplicit false

/-! # Expressions in prefix form

`Expr.printed` writes an expression with every group in parentheses and the operator first, which
shows how it was read. Strings are quoted, so that the text tells them apart from names. -/

namespace LoxLang

/-- A literal as it stands in a printed expression. -/
def Literal.printed : Literal → String
  | .nil => "nil"
  | .bool b => boolText b
  | .number x => Number.printed x
  | .string s => Quoted.encode s

/-- A head and its parts in parentheses, separated by blanks. -/
def parenthesized (head : String) (parts : List String) : String :=
  "(" ++ head ++ String.join (parts.map (" " ++ ·)) ++ ")"

mutual

/-- The prefix form of an expression, or the defect that keeps it from having one. -/
def Expr.printed : Expr → Except TreeDefect String
  | .missing => .error .missingExpression
  | .assign name value => do
    return parenthesized ("= " ++ name.lexeme) [← value.printed]
  | .binary left op right => do
    return parenthesized op.lexeme [← left.printed, ← right.printed]
  | .call callee _ args => do
    return parenthesized "call" ((← callee.printed) :: (← printedAll args))
  | .group inner => do
    return parenthesized "group" [← inner.printed]
  | .literal value => .ok value.printed
  | .logical left op right => do
    return parenthesized op.lexeme [← left.printed, ← right.printed]
  | .unary op right => do
    return parenthesized op.lexeme [← right.printed]
  | .name name => .ok name.lexeme

/-- The prefix forms of several expressions. -/
def printedAll : List Expr → Except TreeDefect (List String)
  | [] => .ok []
  | e :: more => do
    return (← e.printed) :: (← printedAll more)

end

/-- The expression that a statement shows when a program is listed: that of an expression statement,
a print statement or a declaration with an initial value. -/
def Stmt.shownExpr? : Stmt → Option Expr
  | .expression value => some value
  | .print value => some value
  | .declare _ initial => initial
  | _ => none

end LoxLang
