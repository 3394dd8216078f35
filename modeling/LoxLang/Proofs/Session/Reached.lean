import LoxLang.Proofs.Eval.Passive
import LoxLang.Session

set_option autoImplicit false

/-! # The sessions there can be

A session starts with its global scope and goes on step by step: source texts are read and run, in
any scope there is and whether or not reading them reported something, and whoever holds the session
makes scopes, binds names and adds native functions in between. -/

namespace LoxLang

/-- A native function that keeps its place: it does not break down and makes no function values. -/
structure Native.Steady (native : Native) : Prop where
  passive : native.Passive
  lasts : ∀ n args, native.run n args ≠ .breakdown

namespace Session

/-- The values that can be handed to a session: all but functions, and the functions it holds. -/
def Knows (session : Session) (value : Value) : Prop :=
  (∀ i f, value ≠ .closure i f) ∨ ∃ scope name, session.state.store.get? scope name = some value

/-- A scope that has been made. -/
def HasScope (session : Session) (scope : Nat) : Prop :=
  scope < session.state.store.scopes.size

/-- What can happen to a session. -/
inductive Step (session : Session) : Session → Prop
  | newScope (enclosing : Option Nat) :
    (∀ outer, enclosing = some outer → session.HasScope outer) →
    Step session (session.newScope enclosing).2
  | define {scope : Nat} (name : String) {value : Value} :
    session.HasScope scope → session.Knows value → Step session (session.define scope name value)
  | assign {scope : Nat} (name : Token) {value : Value} {after : Session} :
    session.HasScope scope → session.Knows value → session.assign scope name value = .ok after →
    Step session after
  | defineNative {scope : Nat} (name : String) {native : Native} :
    session.HasScope scope → native.Steady → Step session (session.defineNative scope name native)
  | report (diagnostics : List Diagnostic) : Step session (session.report diagnostics)
  | reset : Step session session.reset
  | takeOutput : Step session session.takeOutput.2
  | takeReports : Step session session.takeReports.2
  | run (bound : Nat) {scope : Nat} (source : List Char) :
    session.HasScope scope →
    Step session (session.run bound scope (Reading.ofSource source).statements).2

/-- The sessions that come about. -/
inductive Reached : Session → Prop
  | start (wantedDepth : Int) (echo : Bool) (readings : Readings) :
    Reached (start wantedDepth echo readings)
  | step {session after : Session} : Reached session → Step session after → Reached after

/-- An assignment binds the name in the scope that owns it. -/
theorem assign_define {session after : Session} {scope : Nat} {name : Token} {value : Value}
    (h : session.assign scope name value = .ok after) :
    ∃ owner, session.state.store.owner? name.lexeme scope = some owner ∧
      after = session.define owner name.lexeme value := by
  unfold assign Store.assign? at h
  cases howner : session.state.store.owner? name.lexeme scope with
  | none => simp [howner] at h
  | some owner =>
      simp only [howner, Except.ok.injEq] at h
      exact ⟨owner, rfl, h.symm⟩

/-- A clock tells the time or nothing. -/
theorem clock_steady (readings : Readings) : (clock readings).Steady := by
  refine ⟨fun n args i f hvalue => ?_, fun n args hbreak => ?_⟩
  · unfold clock at hvalue
    cases htime : readings n with
    | some time => simp [htime] at hvalue
    | none => simp [htime] at hvalue
  · unfold clock at hbreak
    cases htime : readings n with
    | some time => simp [htime] at hbreak
    | none => simp [htime] at hbreak

/-- The native function of a new session is its clock. -/
theorem start_steady {wantedDepth : Int} {echo : Bool} {readings : Readings} :
    ∀ native ∈ (start wantedDepth echo readings).setting.natives, native.Steady := by
  intro native hnative
  have hclock : native = clock readings := Array.mem_singleton.mp hnative
  exact hclock ▸ clock_steady readings

/-- All that a new session binds is its native function. -/
theorem start_value {wantedDepth : Int} {echo : Bool} {readings : Readings} {scope : Nat} {here : Scope}
    {name : String} {value : Value}
    (hhere : (start wantedDepth echo readings).state.store.scopes[scope]? = some here)
    (hvalue : here.get? name = some value) : value = .native 0 := by
  have hscopes : (start wantedDepth echo readings).state.store.scopes
      = #[⟨none, [("clock", .native 0)]⟩] := rfl
  have hmem : here ∈ #[⟨none, [("clock", Value.native 0)]⟩] := by
    rw [← hscopes]
    exact Array.mem_of_getElem? hhere
  rw [Array.mem_singleton] at hmem
  rw [hmem, Scope.get?, Scope.lookup_cons_eq] at hvalue
  split at hvalue
  case isTrue =>
      cases hvalue
      rfl
  case isFalse => cases hvalue

end Session

end LoxLang
