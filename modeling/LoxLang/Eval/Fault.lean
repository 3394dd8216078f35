import LoxLang.Diagnostic

set_option autoImplicit false

/-! # Faults of a running program

Everything that a program can do wrong while it runs, and how it is told. -/

namespace LoxLang

/-- What a running program did wrong. -/
inductive RuntimeFault where
  | undefinedVariable (name : String)
  | operandNotNumber
  | operandsNotNumbers
  | operandsNotAddable
  | notCallable
  | wrongArity (expected : Int) (given : Nat)
  | stackOverflow
  deriving DecidableEq, Repr

namespace RuntimeFault

/-- The message for a fault. -/
def message : RuntimeFault → String
  | undefinedVariable name => "Undefined variable '" ++ name ++ "'."
  | operandNotNumber => "Operand must be a number."
  | operandsNotNumbers => "Operands must be numbers."
  | operandsNotAddable => "Operands must be two numbers or two strings."
  | notCallable => "Can only call functions and natives."
  | wrongArity expected given =>
    "Expected " ++ toString expected ++ " arguments but got " ++ toString given ++ "."
  | stackOverflow => "Stack overflow."

/-- The cause under which a fault falls. -/
def cause : RuntimeFault → Cause
  | undefinedVariable _ => .undefinedVariable
  | operandNotNumber | operandsNotNumbers | operandsNotAddable => .typeMismatch
  | notCallable => .notCallable
  | wrongArity .. => .arityMismatch
  | stackOverflow => .stackOverflow

/-- The diagnostic for a fault at a token. -/
def located (fault : RuntimeFault) (token : Token) : Diagnostic :=
  .runtime token fault.cause fault.message

end RuntimeFault

end LoxLang
