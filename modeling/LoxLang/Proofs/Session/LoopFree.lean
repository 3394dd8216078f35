import LoxLang.Proofs.Eval.Approx
import LoxLang.Proofs.Eval.Upkeep
import LoxLang.Proofs.Session.Safe

set_option autoImplicit false

/-! # Without loops every run ends

Evaluation goes on for as long as a loop turns or functions call each other. The limit on active calls
puts an end to the second: in a program without loops, started where no function has one, each call
leads to trees that are smaller, or to one more active call, of which there can be so many only. So the
bound is never reached once it covers the calls that may still become active, and from there on the run
does not depend on it (`Session.run_loopFree`). -/

namespace LoxLang

mutual

/-- Whether there is a loop in a statement, the bodies of functions included. -/
def Stmt.hasLoop : Stmt → Bool
  | .block body => Stmt.anyHasLoop body
  | .function _ _ body => Stmt.anyHasLoop body
  | .branch _ thenDo none => thenDo.hasLoop
  | .branch _ thenDo (some elseDo) => thenDo.hasLoop || elseDo.hasLoop
  | .loop _ _ => true
  | _ => false

/-- Whether there is a loop in one of the statements. -/
def Stmt.anyHasLoop : List Stmt → Bool
  | [] => false
  | s :: more => s.hasLoop || Stmt.anyHasLoop more

end

/-- A value that, if it is a function, has no loop. -/
def Value.LoopFree (value : Value) : Prop :=
  ∀ i f, value = .closure i f → Stmt.anyHasLoop f.body = false

/-- No function in the store has a loop. -/
def Store.LoopFree (store : Store) : Prop :=
  ∀ (scope : Nat) (here : Scope) (name : String) (value : Value),
    store.scopes[scope]? = some here → here.get? name = some value → value.LoopFree

/-- A native function that always answers and does not bring in loops: given functions without, it gives
one without. -/
structure Native.LoopFree (native : Native) : Prop where
  answers : ∀ n args, native.run n args ≠ .pending
  values : ∀ n args, (∀ arg ∈ args, arg.LoopFree) →
    ∀ value, native.run n args = .value value → value.LoopFree

/-- Trees and functions without loops, which do not reach the bound. -/
def loopFreedom (setting : Setting) : Upkeep where
  setting := setting
  closure := fun _ f => Stmt.anyHasLoop f.body = false
  expr := fun _ _ _ => True
  stmt := fun _ _ s => s.hasLoop = false
  stmts := fun _ _ ss => Stmt.anyHasLoop ss = false
  stop := fun stop => stop ≠ .exhausted

theorem loopFreedom_branch {s : Stmt} (h : s.hasLoop = false) :
    ∀ s' ∈ s.branches, s'.hasLoop = false := by
  intro s' hs'
  cases s with
  | branch condition thenDo elseDo =>
      cases elseDo with
      | none =>
          have hs'' : s' = thenDo := by simpa [Stmt.branches] using hs'
          rw [Stmt.hasLoop] at h
          rw [hs'', h]
      | some elseDo =>
          have hs'' : s' = thenDo ∨ s' = elseDo := by simpa [Stmt.branches] using hs'
          rw [Stmt.hasLoop, Bool.or_eq_false_iff] at h
          rcases hs'' with rfl | rfl
          · exact h.1
          · exact h.2
  | loop condition body => cases h
  | _ => cases hs'

theorem loopFreedom_lawful {setting : Setting} (h : ∀ native ∈ setting.natives, native.LoopFree) :
    (loopFreedom setting).Lawful where
  closureLater := fun _ hf => hf
  exprLater := fun _ _ => trivial
  stmtLater := fun _ hs => hs
  part := fun _ _ _ => trivial
  name := fun _ _ => Stop.noConfusion
  assign := fun _ _ => Stop.noConfusion
  exprIn := fun _ _ _ => trivial
  branch := loopFreedom_branch
  block := fun hs => hs
  function := fun hs => hs
  loop := fun hs => Bool.noConfusion hs
  first := fun hss => (Bool.or_eq_false_iff.mp hss).1
  rest := fun hss _ _ => (Bool.or_eq_false_iff.mp hss).2
  enter := fun hf _ => hf
  native := fun native hnative _ n args value hargs => (h native hnative).values n args hargs value
  pending := fun native hnative n args hreply => absurd hreply ((h native hnative).answers n args)
  others := fun _ hstop _ => hstop

namespace Session

variable {session : Session} {scope : Nat} {stmts : List Stmt}

/-- A run without loops does not reach a bound that covers the calls that may still become active. -/
theorem execAll_loopFree (hstore : session.state.store.LoopFree)
    (hnatives : ∀ native ∈ session.setting.natives, native.LoopFree)
    (hstmts : Stmt.anyHasLoop stmts = false) {bound : Nat}
    (hbound : session.setting.maxDepth ≤ session.state.depth + bound) (scope : Nat) :
    ∀ stop t, Eval.execAll session.setting bound scope stmts session.state = .error stop t →
      stop ≠ .exhausted := by
  have hready : (loopFreedom session.setting).Ready session.state.depth session.state :=
    ⟨rfl, hstore⟩
  have hstmts' : (loopFreedom session.setting).stmts session.state.store scope stmts := hstmts
  have hends := Upkeep.execAll_ends (loopFreedom_lawful hnatives) (Or.inl hbound) hready hstmts'
  intro stop t hstop
  change Upkeep.Ends _ _ _ _ (Eval.execAll session.setting bound scope stmts session.state) at hends
  rw [hstop] at hends
  exact hends.2

/-- A run that does not reach its bound is the same with any greater one. -/
theorem run_of_le {bound greater : Nat} (hle : bound ≤ greater)
    (h : (session.run bound scope stmts).1 ≠ .exhausted) :
    session.run greater scope stmts = session.run bound scope stmts := by
  have happrox := Eval.execAll_approx (.refl (· = .exhausted) session.setting)
    (Or.inr ⟨hle, rfl⟩) scope stmts
  have heq := happrox.eq (s := session.state) fun stop t hstop hexhausted => by
    refine h ?_
    rw [run, hstop, hexhausted]
  rw [run, run, heq]

theorem run_ne_exhausted (hstore : session.state.store.LoopFree)
    (hnatives : ∀ native ∈ session.setting.natives, native.LoopFree)
    (hstmts : Stmt.anyHasLoop stmts = false) {bound : Nat}
    (hbound : session.setting.maxDepth ≤ session.state.depth + bound) :
    (session.run bound scope stmts).1 ≠ .exhausted := by
  have hnever := execAll_loopFree hstore hnatives hstmts hbound scope
  unfold run
  cases hrun : Eval.execAll session.setting bound scope stmts session.state with
  | ok flow t => simp
  | error stop t =>
      have hstop : stop ≠ .exhausted := hnever stop t hrun
      cases stop with
      | exhausted => exact absurd rfl hstop
      | _ => simp

/-- Where no function has a loop, statements without loops come to an end, in any scope and whatever
number of calls may be active: there is one way in which they end, with every bound that covers the
calls that may still become active. Read from a source text, they end normally or with a failure. -/
theorem run_loopFree (hstore : session.state.store.LoopFree)
    (hnatives : ∀ native ∈ session.setting.natives, native.LoopFree)
    (hstmts : Stmt.anyHasLoop stmts = false) (scope : Nat) :
    ∃ finish after, finish ≠ .exhausted ∧
      (∀ bound, session.setting.maxDepth ≤ session.state.depth + bound →
        session.run bound scope stmts = (finish, after)) ∧
      ∀ source, session.Reached → stmts = (Reading.ofSource source).statements →
        ∃ failure, finish = .finished failure := by
  -- The least bound that covers the calls gives the answer, and all others agree with it.
  let least := session.setting.maxDepth - session.state.depth
  have hleast : (session.run least scope stmts).1 ≠ .exhausted :=
    run_ne_exhausted hstore hnatives hstmts (by omega)
  refine ⟨_, _, hleast, fun bound hbound => run_of_le (by omega) hleast, ?_⟩
  intro source hreached hsource
  have hformed := Reading.statements_formed source
  rw [← hsource] at hformed
  obtain ⟨⟨hbreakdown, hdefect⟩, -⟩ := sound_run hreached.sound least scope hformed
  cases hfinish : (session.run least scope stmts).1 with
  | finished failure => exact ⟨failure, rfl⟩
  | defect defect => exact absurd hfinish (hdefect defect)
  | breakdown => exact absurd hfinish hbreakdown
  | exhausted => exact absurd hfinish hleast

/-- A new session has no loops, and its clock always answers if it can be read at any time. -/
theorem start_loopFree (wantedDepth : Int) (echo : Bool) (times : Nat → Float) :
    let session := start wantedDepth echo fun n => some (times n)
    session.state.store.LoopFree ∧ ∀ native ∈ session.setting.natives, native.LoopFree := by
  intro session
  constructor
  · intro scope here name value hhere hvalue i f hclosure
    rw [start_value hhere hvalue] at hclosure
    cases hclosure
  · intro native hnative
    have hclock : native = clock fun n => some (times n) := Array.mem_singleton.mp hnative
    rw [hclock]
    refine ⟨fun n args => NativeReply.noConfusion, fun n args _ value hvalue i f hclosure => ?_⟩
    rw [hclosure] at hvalue
    cases hvalue

/-- A text with two functions that call each other, and a call of one. -/
def recursing : List Char :=
  "fun even(n) \x7b return odd(n); \x7d fun odd(n) \x7b return even(n); \x7d even(0);".toList

theorem run_loopFree_recursing :
    let session := start 0 false (fun _ => some 0)
    let stmts := (Reading.ofSource recursing).statements
    session.state.store.LoopFree ∧ (∀ native ∈ session.setting.natives, native.LoopFree) ∧
      Stmt.anyHasLoop stmts = false ∧
      ∃ failure after, ∀ bound, 512 ≤ bound →
        session.run bound globals stmts = (.finished failure, after) := by
  intro session stmts
  obtain ⟨hstore, hnatives⟩ := start_loopFree 0 false fun _ => 0
  have hstmts : Stmt.anyHasLoop stmts = false := by decide +kernel
  refine ⟨hstore, hnatives, hstmts, ?_⟩
  obtain ⟨finish, after, -, hrun, hread⟩ := run_loopFree hstore hnatives hstmts globals
  obtain ⟨failure, rfl⟩ := hread recursing (.start 0 false (fun _ => some 0)) rfl
  refine ⟨failure, after, fun bound hbound => hrun bound ?_⟩
  have hdepth : (start 0 false (fun _ => some 0)).setting.maxDepth = 512 := rfl
  rw [hdepth]
  omega

end Session

end LoxLang
