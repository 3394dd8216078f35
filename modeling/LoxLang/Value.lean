import LoxLang.Tree

set_option autoImplicit false

/-! # Values

What an expression evaluates to: the literals, the functions that a program declares, and native
functions, which are given from outside. Two functions are the same only if they come from the same
execution of the same declaration, so every function value carries a number of its own. -/

namespace LoxLang

/-- A declared function together with the scope it was declared in. -/
structure Closure where
  name : Token
  params : List Token
  body : List Stmt
  /-- The number of the scope in which the declaration was executed. -/
  scope : Nat

/-- A value. -/
inductive Value where
  | nil
  | bool (b : Bool)
  | number (x : Float)
  | string (s : String)
  /-- A declared function; no two executions of a declaration give the same `identity`. -/
  | closure (identity : Nat) (function : Closure)
  /-- A native function, by its number. -/
  | native (index : Nat)

/-- The value of a literal. -/
def Literal.toValue : Literal → Value
  | .nil => .nil
  | .bool b => .bool b
  | .number x => .number x
  | .string s => .string s

namespace Value

/-- Everything counts as true except `nil` and `false`. -/
def isTruthy : Value → Bool
  | nil => false
  | bool b => b
  | _ => true

/-- Equality as programs see it. Values of different sorts differ, numbers compare as doubles, and
functions by identity. -/
def same : Value → Value → Bool
  | nil, nil => true
  | bool a, bool b => a == b
  | number x, number y => x == y
  | string s, string t => s == t
  | closure i _, closure j _ => i == j
  | native i, native j => i == j
  | _, _ => false

/-- The text that a program prints for a value. -/
def text : Value → String
  | nil => "nil"
  | bool b => boolText b
  | number x => Number.printed x
  | string s => s
  | closure _ function => "<fn " ++ function.name.lexeme ++ ">"
  | native _ => "<native fn>"

end Value

end LoxLang
