import LoxLang.Eval
import LoxLang.Token.Scan
import LoxLang.Tree.Parse

set_option autoImplicit false

/-! # Sessions

A session is an interpreter that lives through several programs: its settings, the state that each
program leaves to the next, and what has been reported. Scope 0 holds the globals, which start with the
native function `clock`. -/

namespace LoxLang

/-- How many calls may be active at once unless asked otherwise. -/
def defaultCallDepth : Nat := 512

/-- The greatest number of active calls that can be asked for. -/
def callDepthLimit : Nat := 10000

/-- The number of active calls that a session allows when `wanted` are asked for. -/
def effectiveDepth (wanted : Int) : Nat :=
  if wanted ≤ 0 then defaultCallDepth else min wanted.toNat callDepthLimit

/-- An interpreter between two programs. -/
structure Session where
  setting : Setting
  state : State
  /-- Which sorts of diagnostics have been reported since the last reset. -/
  status : Status
  /-- What has been reported and not been taken yet, in the order of the reports. -/
  reports : List Diagnostic

/-- What a source text reads as, with everything reported while reading it. -/
structure Reading where
  statements : List Stmt
  diagnostics : List Diagnostic

/-- Reads a source text. A scan always ends with an end-of-input token, so the tokens never run
out; without statements is what a reading would be if they did. -/
def Reading.ofSource (source : List Char) : Reading :=
  let scanned := scan source
  match parse? scanned.tokens with
  | some parsed => ⟨parsed.statements, scanned.diagnostics ++ parsed.diagnostics⟩
  | none => ⟨[], scanned.diagnostics⟩

/-- How a run ended. -/
inductive RunEnd where
  /-- It came to its end, with the failure that stopped it, if one did. -/
  | finished (failure : Option Diagnostic)
  | defect (defect : TreeDefect)
  | breakdown
  | exhausted
  deriving DecidableEq, Repr

namespace Session

/-- The number of the global scope. -/
def globals : Nat := 0

/-- What a clock reads in seconds, call by call; a reading that has not been taken is not known. -/
abbrev Readings := Nat → Option Float

/-- The native function that tells the time. -/
def clock (readings : Readings) : Native where
  arity := 0
  run earlier _ :=
    match readings earlier with
    | some time => .value (.number time)
    | none => .pending

/-- Makes a scope, inside another one or on its own. -/
def newScope (session : Session) (enclosing : Option Nat) : Nat × Session :=
  let (scope, store) := session.state.store.newScope enclosing
  (scope, { session with state.store := store })

/-- Binds a name in a scope. -/
def define (session : Session) (scope : Nat) (name : String) (value : Value) : Session :=
  { session with state.store := session.state.store.define scope name value }

/-- Binds a name to a new native function. -/
def defineNative (session : Session) (scope : Nat) (name : String) (native : Native) : Session :=
  let index := session.setting.natives.size
  let session := { session with setting.natives := session.setting.natives.push native }
  session.define scope name (.native index)

/-- A new session. -/
def start (wantedDepth : Int) (echo : Bool) (readings : Readings) : Session :=
  let empty : Session :=
    { setting := ⟨effectiveDepth wantedDepth, echo, #[]⟩
      state := ⟨Store.empty, 0, #[], 0⟩
      status := Status.clear
      reports := [] }
  let (scope, session) := empty.newScope none
  session.defineNative scope "clock" (clock readings)

/-- The value of a name as seen from a scope, or the diagnostic that it has none. -/
def get (session : Session) (scope : Nat) (name : Token) : Except Diagnostic Value :=
  match session.state.store.get? scope name.lexeme with
  | some value => .ok value
  | none => .error ((RuntimeFault.undefinedVariable name.lexeme).located name)

/-- Gives a bound name a new value, or tells that it is not bound. -/
def assign (session : Session) (scope : Nat) (name : Token) (value : Value) :
    Except Diagnostic Session :=
  match session.state.store.assign? scope name.lexeme value with
  | some store => .ok { session with state.store := store }
  | none => .error ((RuntimeFault.undefinedVariable name.lexeme).located name)

/-- Reports diagnostics, one after the other. -/
def report (session : Session) (diagnostics : List Diagnostic) : Session :=
  { session with
    status := session.status.noteAll diagnostics
    reports := session.reports ++ diagnostics }

/-- Forgets which sorts of diagnostics have been reported. -/
def reset (session : Session) : Session :=
  { session with status := Status.clear }

/-- Executes statements in a scope. The first failure ends the run and is reported; a `return` ends
it without one. -/
def run (session : Session) (bound : Nat) (scope : Nat) (statements : List Stmt) :
    RunEnd × Session :=
  match Eval.execAll session.setting bound scope statements session.state with
  | .ok _ state => (.finished none, { session with state })
  | .error (.failure diagnostic) state =>
    (.finished (some diagnostic), { session with state }.report [diagnostic])
  | .error (.defect defect) state => (.defect defect, { session with state })
  | .error .breakdown state => (.breakdown, { session with state })
  | .error .exhausted state => (.exhausted, { session with state })

/-- The lines written so far, and the session without them. -/
def takeOutput (session : Session) : List Line × Session :=
  (session.state.output.toList, { session with state.output := #[] })

/-- The diagnostics reported so far, and the session without them. -/
def takeReports (session : Session) : List Diagnostic × Session :=
  (session.reports, { session with reports := [] })

end Session

/-- Lines as they are written out. -/
def renderLines (lines : List Line) : String :=
  String.join (lines.map (·.text ++ "\n"))

end LoxLang
