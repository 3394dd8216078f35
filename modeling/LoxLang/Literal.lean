import LoxLang.Number.Written

set_option autoImplicit false

/-! # Literals

The values that can be written down in a program: `nil`, the two truth values, numbers and strings.
Functions have no written form; they exist only while a program runs. -/

namespace LoxLang

/-- A value that a program can spell out. -/
inductive Literal where
  | nil
  | bool (b : Bool)
  | number (x : Float)
  | string (s : String)
  deriving DecidableEq, Repr

/-- The spelling of a truth value. -/
def boolText (b : Bool) : String :=
  if b then "true" else "false"

/-- The text by which a token shows the literal it carries; `nil` is what a token without one
carries. -/
def Literal.shown : Literal → String
  | .nil => "<nil>"
  | .bool b => boolText b
  | .number x => Number.shown x
  | .string s => s

end LoxLang
