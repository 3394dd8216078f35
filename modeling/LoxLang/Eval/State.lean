import LoxLang.Eval.Fault
import LoxLang.Store

set_option autoImplicit false

/-! # The state of a run

Evaluation reads a `Setting`, which stays the same throughout, and changes a `State`: the store, the
number of calls that are active, the lines written so far, and the number of calls of native functions
made so far. It can stop in four ways, told apart by `Stop`; only the first of them is within the reach
of a program read from source text. -/

namespace LoxLang

/-- What a native function answers. -/
inductive NativeReply where
  | value (v : Value)
  /-- It refuses, with a message. -/
  | failure (message : String)
  /-- It breaks down and takes the whole run with it. -/
  | breakdown
  /-- What it answers is not known, and the run cannot go on without it. -/
  | pending

/-- A function given from outside. What it answers may change from call to call: `run n` answers the
call that comes behind `n` other calls of native functions. -/
structure Native where
  arity : Int
  run : Nat → List Value → NativeReply

/-- What stays the same during a run. -/
structure Setting where
  /-- How many calls may be active at once. -/
  maxDepth : Nat
  /-- Whether the value of an expression statement is written out. -/
  echo : Bool
  /-- The native functions by their numbers. -/
  natives : Array Native

/-- A line of output. -/
structure Line where
  text : String
  /-- Whether it echoes an expression statement, in contrast to a print statement. -/
  echo : Bool
  deriving DecidableEq, Repr

/-- What changes during a run. -/
structure State where
  store : Store
  /-- How many calls are active. -/
  depth : Nat
  output : Array Line
  /-- How many calls of native functions have been made. -/
  nativeCalls : Nat

/-- Why evaluation stopped before its end. -/
inductive Stop where
  /-- The program failed, or a native function refused. -/
  | failure (diagnostic : Diagnostic)
  /-- The tree has a defect. -/
  | defect (defect : TreeDefect)
  /-- A native function broke down. -/
  | breakdown
  /-- The bound on calls and loop turns was reached, or an answer of a native function is not known.
  Neither says anything about the program. -/
  | exhausted
  deriving DecidableEq, Repr

/-- A computation on the state that may stop. -/
abbrev Eval := EStateM Stop State

namespace Eval

/-- Stops with a fault at a token. -/
def refuse {α : Type} (fault : RuntimeFault) (token : Token) : Eval α :=
  throw (.failure (fault.located token))

/-- Writes a line. -/
def write (text : String) (echo : Bool) : Eval Unit := fun state =>
  .ok () { state with output := state.output.push ⟨text, echo⟩ }

/-- Makes a scope inside another one. -/
def newScope (enclosing : Nat) : Eval Nat := fun state =>
  let (scope, store) := state.store.newScope (some enclosing)
  .ok scope { state with store }

/-- Binds a name in a scope. -/
def define (scope : Nat) (name : String) (value : Value) : Eval Unit := fun state =>
  .ok () { state with store := state.store.define scope name value }

/-- Binds names to values in a scope, one after the other. -/
def defineAll (scope : Nat) (bindings : List (String × Value)) : Eval Unit := fun state =>
  .ok () { state with store := state.store.defineAll scope bindings }

/-- The value of a name. -/
def get (scope : Nat) (name : Token) : Eval Value := fun state =>
  match state.store.get? scope name.lexeme with
  | some value => .ok value state
  | none => refuse (.undefinedVariable name.lexeme) name state

/-- Gives a name that is bound already a new value. -/
def assign (scope : Nat) (name : Token) (value : Value) : Eval Unit := fun state =>
  match state.store.owner? name.lexeme scope with
  | some owner => define owner name.lexeme value state
  | none => refuse (.undefinedVariable name.lexeme) name state

/-- Makes a function value with an identity of its own. -/
def newClosure (function : Closure) : Eval Value := fun state =>
  .ok (.closure state.store.closures function)
    { state with store := { state.store with closures := state.store.closures + 1 } }

/-- Counts a call of a native function, and tells how many there were before it. -/
def countNative : Eval Nat := fun state =>
  .ok state.nativeCalls { state with nativeCalls := state.nativeCalls + 1 }

/-- Runs the body of a call that stands at a closing parenthesis. The call counts as active while its
body runs, however that ends. -/
def active {α : Type} (setting : Setting) (paren : Token) (body : Eval α) : Eval α := fun state =>
  if setting.maxDepth ≤ state.depth then refuse .stackOverflow paren state
  else match body { state with depth := state.depth + 1 } with
    | .ok value after => .ok value { after with depth := after.depth - 1 }
    | .error stop after => .error stop { after with depth := after.depth - 1 }

end Eval

end LoxLang
