import Mathlib.Logic.Relation
import LoxLang.Proofs.Eval.Moments
import LoxLang.Proofs.Session.Pieces

set_option autoImplicit false

/-! # How deep calls go

A session is asked for some number of calls that may be active at once, and settles on a limit of its
own (`effectiveDepth`). It keeps to that limit through all that is done with it. Between two runs no
call is active, whichever way the runs before have ended. In a run the number that the state holds is
the number of active calls, and the run ends for a call too many exactly if one is attempted at the
limit (`Session.run_depth`). -/

namespace LoxLang

theorem effectiveDepth_pos (wanted : Int) : 1 ≤ effectiveDepth wanted := by
  unfold effectiveDepth defaultCallDepth callDepthLimit
  split <;> omega

theorem effectiveDepth_le (wanted : Int) : effectiveDepth wanted ≤ callDepthLimit := by
  unfold effectiveDepth defaultCallDepth callDepthLimit
  split <;> omega

namespace Session

/-- Anything that can be done with a session: no matter which trees are run, in which scope, and what
the native functions do. -/
inductive Move (session : Session) : Session → Prop
  | newScope (enclosing : Option Nat) : Move session (session.newScope enclosing).2
  | define (scope : Nat) (name : String) (value : Value) :
    Move session (session.define scope name value)
  | assign {scope : Nat} {name : Token} {value : Value} {after : Session} :
    session.assign scope name value = .ok after → Move session after
  | defineNative (scope : Nat) (name : String) (native : Native) :
    Move session (session.defineNative scope name native)
  | report (diagnostics : List Diagnostic) : Move session (session.report diagnostics)
  | reset : Move session session.reset
  | takeOutput : Move session session.takeOutput.2
  | takeReports : Move session session.takeReports.2
  | run (bound scope : Nat) (stmts : List Stmt) : Move session (session.run bound scope stmts).2

/-- The moment when a run begins. -/
def opening (session : Session) (bound scope : Nat) (stmts : List Stmt) : Moment :=
  ⟨bound, .stmts scope stmts, session.state⟩

/-- A session with a limit and no active call. -/
structure AtRest (limit : Nat) (session : Session) : Prop where
  maxDepth : session.setting.maxDepth = limit
  depth : session.state.depth = 0

theorem start_atRest (wanted : Int) (echo : Bool) (readings : Readings) :
    (start wanted echo readings).AtRest (effectiveDepth wanted) :=
  ⟨rfl, rfl⟩

section
variable {session after : Session} {limit bound scope : Nat} {stmts : List Stmt}

/-- A run leaves the state in which its first moment ends. -/
theorem run_state (session : Session) (bound scope : Nat) (stmts : List Stmt) :
    (session.run bound scope stmts).2.state
      = (session.opening bound scope stmts).final session.setting := by
  change _ = Eval.final (Eval.execAll session.setting bound scope stmts session.state)
  unfold run
  cases Eval.execAll session.setting bound scope stmts session.state with
  | ok flow after => rfl
  | error stop after => cases stop <;> rfl

theorem AtRest.run (h : session.AtRest limit) (bound scope : Nat) (stmts : List Stmt) :
    (session.run bound scope stmts).2.AtRest limit where
  maxDepth := by
    rw [run_setting]
    exact h.maxDepth
  depth := by
    rw [run_state, Moment.balanced]
    exact h.depth

theorem AtRest.move (h : session.AtRest limit) (hmove : Move session after) :
    after.AtRest limit := by
  cases hmove with
  | @assign scope name value after hassign =>
      unfold assign at hassign
      cases hstore : session.state.store.assign? scope name.lexeme value with
      | none => simp [hstore] at hassign
      | some store =>
          simp only [hstore, Except.ok.injEq] at hassign
          rw [← hassign]
          exact ⟨h.maxDepth, h.depth⟩
  | run bound scope stmts => exact h.run bound scope stmts
  | _ => exact ⟨h.maxDepth, h.depth⟩

/-- What is done with a session one thing after the other leaves it at rest. -/
theorem AtRest.moves (h : session.AtRest limit) (hmoves : Relation.ReflTransGen Move session after) :
    after.AtRest limit := by
  induction hmoves with
  | refl => exact h
  | tail _ hmove ih => exact ih.move hmove

/-- From a session at rest the state counts the calls from the beginning of the run. -/
theorem AtRest.during (h : session.AtRest limit) {calls : Nat} {m : Moment}
    (hm : Moment.During session.setting (session.opening bound scope stmts) calls m) :
    m.state.depth = calls ∧ calls ≤ limit := by
  have hopening : (session.opening bound scope stmts).state.depth = 0 := h.depth
  obtain ⟨hcalls, hle⟩ := hm.depth (by omega)
  rw [hopening, Nat.zero_add] at hcalls
  rw [hcalls, h.maxDepth] at hle
  exact ⟨hcalls, hle⟩

/-- A run ends with a call too many exactly if its first moment stops for one. -/
theorem run_overflow_iff {paren : Token} :
    (session.run bound scope stmts).1
        = .finished (some (.runtime paren .stackOverflow "Stack overflow.")) ↔
      (session.opening bound scope stmts).Stops session.setting (.overflow paren) :=
  run_failure_iff

end

/-- A session keeps to its limit, counts the calls that are active, and refuses one call too many and
no other. -/
theorem run_depth {wanted : Int} {echo : Bool} {readings : Readings} {session : Session}
    (hmoves : Relation.ReflTransGen Move (start wanted echo readings) session)
    (bound scope : Nat) (stmts : List Stmt) :
    let limit := effectiveDepth wanted
    let opening := session.opening bound scope stmts
    let During := Moment.During session.setting
    (1 ≤ limit ∧ limit ≤ 10000) ∧
      (session.state.depth = 0 ∧ (session.run bound scope stmts).2.state.depth = 0) ∧
      (∀ calls m, During opening calls m →
        m.state.depth = calls ∧ calls ≤ limit ∧ (m.final session.setting).depth = calls ∧
          ∀ paren, m.Stops session.setting (.overflow paren) ↔
            ∃ more m', During m more m' ∧ m'.Attempts paren ∧ m'.state.depth = limit) ∧
      ∀ paren, (session.run bound scope stmts).1
          = .finished (some (.runtime paren .stackOverflow "Stack overflow.")) ↔
        ∃ calls m, During opening calls m ∧ m.Attempts paren ∧ m.state.depth = limit := by
  intro limit opening During
  have hrest : session.AtRest limit := (start_atRest wanted echo readings).moves hmoves
  have hstops : ∀ calls m, During opening calls m → ∀ paren,
      m.Stops session.setting (.overflow paren) ↔
        ∃ more m', During m more m' ∧ m'.Attempts paren ∧ m'.state.depth = limit := by
    intro calls m hm paren
    obtain ⟨hcalls, hle⟩ := hrest.during hm
    rw [← hrest.maxDepth]
    refine Moment.overflow_iff ?_
    rw [hcalls, hrest.maxDepth]
    exact hle
  refine ⟨⟨effectiveDepth_pos wanted, effectiveDepth_le wanted⟩,
    ⟨hrest.depth, (hrest.run bound scope stmts).depth⟩, ?_, ?_⟩
  · intro calls m hm
    obtain ⟨hcalls, hle⟩ := hrest.during hm
    exact ⟨hcalls, hle, (Moment.balanced _ m).trans hcalls, hstops calls m hm⟩
  · intro paren
    rw [run_overflow_iff]
    exact hstops 0 opening (.now opening) paren

/-- A text with a function that calls itself. -/
def descending : List Char :=
  "fun f() \x7b\n f(); \x7d f();".toList

/-- With two calls at most, the call on the second line is the one too many, and comes when two are
active. Then none is. -/
theorem run_depth_descending :
    let session := start 2 false (fun _ => some 0)
    let stmts := (Reading.ofSource descending).statements
    let paren : Token := ⟨.rightParen, ")", .nil, 2⟩
    Relation.ReflTransGen Move session session ∧
      (session.run 3 globals stmts).1
        = .finished (some (.runtime paren .stackOverflow "Stack overflow.")) ∧
      (session.run 3 globals stmts).2.state.depth = 0 ∧
      ∃ m, Moment.During session.setting (session.opening 3 globals stmts) 2 m ∧
        m.Attempts paren ∧ m.state.depth = 2 := by
  intro session stmts paren
  obtain ⟨-, ⟨-, hafter⟩, hduring, hoverflow⟩ :=
    run_depth (.refl : Relation.ReflTransGen Move session session) 3 globals stmts
  have hrun : (session.run 3 globals stmts).1
      = .finished (some (.runtime paren .stackOverflow "Stack overflow.")) := by
    decide +kernel
  obtain ⟨calls, m, hm, hattempt, hdepth⟩ := (hoverflow paren).1 hrun
  have hlimit : m.state.depth = 2 := hdepth
  have hcalls : calls = 2 := (hduring calls m hm).1.symm.trans hlimit
  exact ⟨.refl, hrun, hafter, m, hcalls ▸ hm, hattempt, hlimit⟩

end Session

end LoxLang
