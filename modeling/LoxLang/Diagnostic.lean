import LoxLang.Token

set_option autoImplicit false

/-! # Diagnostics

A diagnostic is what a user is told about a program: a fault in its text, in its grammar, or while
it ran. Whoever reports one can put a context before it. Runtime errors are told apart from all
others, because they end a run differently. -/

namespace LoxLang

/-- What made a running program fail. -/
inductive Cause where
  | undefinedVariable
  | typeMismatch
  | notCallable
  | arityMismatch
  | stackOverflow
  | invalidConfig
  deriving DecidableEq, Repr

/-- The causes in the order of their numbers. -/
def Cause.table : List Cause :=
  [.undefinedVariable, .typeMismatch, .notCallable, .arityMismatch, .stackOverflow, .invalidConfig]

/-- The name of a cause. -/
def Cause.text : Cause → String
  | .undefinedVariable => "undefined variable"
  | .typeMismatch => "type mismatch"
  | .notCallable => "not callable"
  | .arityMismatch => "arity mismatch"
  | .stackOverflow => "stack overflow"
  | .invalidConfig => "invalid config"

/-- Something to tell the user. -/
inductive Diagnostic where
  /-- The text on a line cannot be cut into tokens. -/
  | lexical (line : Int) (message : String)
  /-- The grammar does not allow a token where it stands. -/
  | grammar (token : Token) (message : String)
  /-- Evaluation failed at a token. -/
  | runtime (token : Token) (cause : Cause) (message : String)
  /-- A failure that has no place in the program. -/
  | plain (message : String)
  /-- A diagnostic with the context in which it arose. -/
  | within (context : String) (inner : Diagnostic)
  deriving DecidableEq, Repr

namespace Diagnostic

/-- The line that ends a located message. -/
def lineNote (line : Int) : String :=
  "\n[line " ++ toString line ++ "]"

/-- The text of a diagnostic. -/
def message : Diagnostic → String
  | lexical line text => "Error: " ++ text ++ lineNote line
  | grammar token text =>
    if token.kind = .endOfInput then "Error at end: " ++ text ++ lineNote token.line
    else "Error at '" ++ token.lexeme ++ "': " ++ text ++ lineNote token.line
  | runtime token _ text => text ++ lineNote token.line
  | plain text => text
  | within context inner => context ++ ": " ++ inner.message

/-- The diagnostic itself, without the contexts put before it. -/
def core : Diagnostic → Diagnostic
  | within _ inner => inner.core
  | d => d

/-- Whether a diagnostic, whatever its context, tells of a failure while the program ran. -/
def isRuntime (d : Diagnostic) : Bool :=
  match d.core with
  | runtime .. => true
  | _ => false

/-- What the user reads for a list of diagnostics: each on lines of its own. -/
def render (ds : List Diagnostic) : String :=
  String.join (ds.map fun d => d.message ++ "\n")

end Diagnostic

/-- Which sorts of diagnostics have been reported since the last reset. -/
structure Status where
  /-- Something other than a runtime error was reported. -/
  hadError : Bool
  /-- A runtime error was reported. -/
  hadRuntimeError : Bool
  deriving DecidableEq, Repr

namespace Status

/-- Nothing has been reported. -/
def clear : Status := ⟨false, false⟩

/-- Takes note of a diagnostic. -/
def note (s : Status) (d : Diagnostic) : Status :=
  if d.isRuntime then { s with hadRuntimeError := true } else { s with hadError := true }

/-- Takes note of several diagnostics in turn. -/
def noteAll (s : Status) (ds : List Diagnostic) : Status :=
  ds.foldl note s

end Status

end LoxLang
