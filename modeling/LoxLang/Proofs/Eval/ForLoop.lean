import LoxLang.Proofs.Eval.Linked
import LoxLang.Proofs.Parse.Shape

set_option autoImplicit false

/-! # What a `for` loop means

Trees have no `for` loops; the one that is read for such a loop is a `while` loop with blocks around
its parts (`ForClauses.loop`). Here a `for` loop is given a meaning of its own (`Eval.forLoop`): one
scope for the whole loop, in which the initial statement is executed once, and then in each turn the
condition, the body and the increment.

The two make different scopes. The tree has no scope around the loop if there is no initial statement,
and it makes one around the body and the increment in every turn. All of these bind nothing, as long as
the body declares nothing in its own scope, so the two end alike (`Links.forLoop_runs`). -/

namespace LoxLang

open Parse (ForClauses)

namespace Eval

/-- Does something with what may be absent. -/
def whenPresent {α β : Type} (o : Option α) (x : α → Eval β) : Eval Unit :=
  match o with
  | none => return ()
  | some a => do
    let _ ← x a

/-- The turns of a `for` loop, so many at most. A turn in which the body returns is the last one, and
its increment is left out. -/
def forTurns (test : Eval Value) (body : Eval Flow) (increment : Eval Unit) : Nat → Eval Flow
  | 0 => throw .exhausted
  | turns + 1 => do
    let value ← test
    if value.isTruthy then
      match ← body with
      | .normal =>
        increment
        forTurns test body increment turns
      | .returning result => return .returning result
    else
      return .normal

/-- The condition of a `for` loop; an absent one counts as true. -/
def forTest (setting : Setting) (bound scope : Nat) : Option Expr → Eval Value
  | none => return .bool true
  | some condition => eval setting bound scope condition

/-- The meaning of a `for` loop. All of it happens in one new scope. -/
def forLoop (setting : Setting) (bound scope : Nat) (clauses : ForClauses) (body : Stmt) :
    Eval Flow := do
  let inner ← newScope scope
  whenPresent clauses.initial (exec setting bound inner)
  forTurns (forTest setting bound inner clauses.condition) (exec setting bound inner body)
    (whenPresent clauses.increment (eval setting bound inner)) bound

/-- The body of a loop and what follows it in the same turn. -/
def turn (body : Eval Flow) (increment : Eval Unit) : Eval Flow := do
  match ← body with
  | .normal =>
    increment
    return .normal
  | .returning result => return .returning result

theorem forTurns_eq (test : Eval Value) (body : Eval Flow) (increment : Eval Unit) (turns : Nat) :
    forTurns test body increment turns = repeatWhile test (turn body increment) turns := by
  induction turns with
  | zero => rfl
  | succ turns ih =>
      rw [forTurns, repeatWhile]
      refine bind_congr fun value => ?_
      by_cases hvalue : value.isTruthy = true
      · rw [if_pos hvalue, if_pos hvalue, turn, bind_assoc]
        refine bind_congr fun flow => ?_
        cases flow with
        | normal =>
            simp only [bind_assoc, pure_bind]
            exact bind_congr fun _ => ih
        | returning result => rfl
      · rw [if_neg hvalue, if_neg hvalue]

theorem turn_pure (body : Eval Flow) : turn body (pure ()) = body := by
  have hflow : ∀ flow : Flow, turn (pure flow) (pure ()) = pure flow := by
    intro flow
    cases flow with
    | normal => rfl
    | returning result => rfl
  calc turn body (pure ())
      = body >>= fun flow => turn (pure flow) (pure ()) := rfl
    _ = body >>= pure := bind_congr hflow
    _ = body := bind_pure body

theorem execAllWith_singleton (setting : Setting) (inv : Invoke) (turns scope : Nat) (s : Stmt) :
    execAllWith setting inv turns scope [s] = execWith setting inv turns scope s := by
  rw [execAllWith]
  refine Eq.trans (bind_congr fun flow => ?_) (bind_pure _)
  cases flow with
  | normal => rw [execAllWith]
  | returning result => rfl

end Eval

open Eval

namespace Parse.ForClauses

/-- The condition of the `while` loop. -/
def test (clauses : ForClauses) : Expr :=
  clauses.condition.getD (.literal (.bool true))

/-- The body of the `while` loop. -/
def turn (clauses : ForClauses) (body : Stmt) : Stmt :=
  match clauses.increment with
  | none => body
  | some increment => .block [body, .expression increment]

/-- Without an initial statement there is no block around the loop. -/
theorem loop_none {clauses : ForClauses} (h : clauses.initial = none) (body : Stmt) :
    clauses.loop body = .loop clauses.test (clauses.turn body) := by
  unfold loop
  rw [h]
  rfl

theorem loop_some {clauses : ForClauses} {first : Stmt} (h : clauses.initial = some first)
    (body : Stmt) :
    clauses.loop body = .block [first, .loop clauses.test (clauses.turn body)] := by
  unfold loop
  rw [h]
  rfl

theorem inside_loop (clauses : ForClauses) (body : Stmt) :
    (Stmt.loop clauses.test (clauses.turn body)).Inside [clauses.loop body] := by
  cases hfirst : clauses.initial with
  | none =>
      rw [loop_none hfirst]
      exact .here (List.mem_singleton_self _)
  | some first =>
      rw [loop_some hfirst]
      refine .deeper (List.mem_singleton_self _) (.here ?_)
      exact List.mem_cons_of_mem _ (List.mem_singleton_self _)

end Parse.ForClauses

section
variable {first : Stmt} (h : first.Begins) (setting : Setting) (bound scope : Nat)

include h

/-- What a loop begins with does not return. -/
theorem Stmt.Begins.normal :
    exec setting bound scope first = exec setting bound scope first >>= fun _ => pure .normal := by
  cases h with
  | declare name initial => simp [exec, execWith]
  | expression value => simp [exec, execWith]

/-- So whatever comes behind it is executed, too. -/
theorem Stmt.Begins.next (s : Stmt) :
    execAll setting bound scope [first, s]
      = exec setting bound scope first >>= fun _ => exec setting bound scope s := by
  rw [execAll, execAllWith, ← exec, h.normal setting bound scope, bind_assoc, bind_assoc]
  refine bind_congr fun _ => ?_
  rw [pure_bind, pure_bind, execAllWith_singleton]
  rfl

end

namespace Links

section
variable {W : Links} {α β : Type} {good : Links → α → β → Prop} {n m : Nat}

/-- A scope that the left side makes and the right one does not. -/
theorem runs_newLeft (hsees : W.Sees n m) {f : Nat → Eval α} {y : Eval β}
    (h : ∀ V inner, W.Grows V → V.Sees inner m → V.Runs good (f inner) y) :
    W.Runs good (newScope n >>= f) y := by
  intro s t hst
  have hn : n < s.store.scopes.size := (hst.store.exist hsees).1
  have hgrows := W.grows_addLeft s.store.scopes.size n
  have hinner : (W.addLeft s.store.scopes.size n).Sees s.store.scopes.size m :=
    .left (Or.inr ⟨rfl, rfl⟩) (hsees.grows hgrows)
  have hst' : (W.addLeft s.store.scopes.size n).StateRel
      { s with store := (s.store.newScope (some n)).2 } t :=
    ⟨hst.store.newLeft hn, hst.depth, hst.output, hst.nativeCalls⟩
  exact (h _ _ hgrows hinner _ t hst').earlier hgrows

/-- A scope that the right side makes and the left one does not. -/
theorem runs_newRight (hsees : W.Sees n m) {x : Eval α} {g : Nat → Eval β}
    (h : ∀ V inner, W.Grows V → V.Sees n inner → V.Runs good x (g inner)) :
    W.Runs good x (newScope m >>= g) := by
  intro s t hst
  have hm : m < t.store.scopes.size := (hst.store.exist hsees).2
  have hgrows := W.grows_addRight t.store.scopes.size m
  have hinner : (W.addRight t.store.scopes.size m).Sees n t.store.scopes.size :=
    .right (Or.inr ⟨rfl, rfl⟩) (hsees.grows hgrows)
  have hst' : (W.addRight t.store.scopes.size m).StateRel s
      { t with store := (t.store.newScope (some m)).2 } :=
    ⟨hst.store.newRight hm, hst.depth, hst.output, hst.nativeCalls⟩
  exact (h _ _ hgrows hinner s _ hst').earlier hgrows

end

section
variable {setting : Setting} (hnatives : ∀ native ∈ setting.natives, native.Oblivious)
  (hquiet : setting.echo = false) (bound : Nat) {W : Links} {n m : Nat} {body : Stmt}

include hnatives hquiet

/-- Without an echo, an expression statement is no more than its expression. -/
theorem exec_expression_runs (hsees : W.Sees n m) (e : Expr) :
    W.Runs FlowRel (exec setting bound n (.expression e))
      (do whenPresent (some e) (eval setting bound m); return .normal) := by
  rw [exec, execWith, whenPresent, bind_assoc]
  refine (eval_runs hnatives bound hsees e).bind fun V v w _ hv => ?_
  have hecho : echo setting e v = pure () := by
    unfold echo
    rw [hquiet]
    rfl
  rw [hecho]
  exact runs_pure .normal

/-- One turn: the block around the body and the increment is a scope of the left side only. -/
theorem turn_runs (hsees : W.Sees n m) (hbody : body.gains = []) (e : Expr) :
    W.Runs FlowRel (exec setting bound n (.block [body, .expression e]))
      (turn (exec setting bound m body) (whenPresent (some e) (eval setting bound m))) := by
  rw [exec, execWith]
  refine runs_newLeft hsees fun V inner hWV hinner => ?_
  rw [execAllWith]
  have hrun : V.Runs FlowRel (exec setting bound inner body) (exec setting bound m body) :=
    exec_runs hnatives bound body ⟨hinner, Or.inl hbody⟩
  refine hrun.bind fun U flow flow' hVU hflow => ?_
  cases hflow with
  | normal =>
      rw [execAllWith_singleton]
      exact exec_expression_runs hnatives hquiet bound (hinner.grows hVU) e
  | returning hv => exact runs_pure (.returning hv)

/-- The turns of a loop, in scopes that see the same. -/
theorem forTurns_runs (hsees : W.Sees n m) (hbody : body.gains = []) (clauses : ForClauses) :
    W.Runs FlowRel (exec setting bound n (.loop clauses.test (clauses.turn body)))
      (forTurns (forTest setting bound m clauses.condition) (exec setting bound m body)
        (whenPresent clauses.increment (eval setting bound m)) bound) := by
  rw [exec, execWith, forTurns_eq]
  refine repeatWhile_runs (fun V hWV => ?_) (fun V hWV => ?_) bound
  · unfold ForClauses.test
    cases clauses.condition with
    | none => exact eval_runs hnatives bound (hsees.grows hWV) (.literal (.bool true))
    | some condition => exact eval_runs hnatives bound (hsees.grows hWV) condition
  · unfold ForClauses.turn
    cases clauses.increment with
    | none =>
        rw [whenPresent, turn_pure]
        exact exec_runs hnatives bound body ⟨hsees.grows hWV, Or.inl hbody⟩
    | some increment => exact turn_runs hnatives hquiet bound (hsees.grows hWV) hbody increment

/-- A `for` loop and the tree that is read for it end alike. -/
theorem forLoop_runs (hsees : W.Sees n m) (hbody : body.gains = []) (clauses : ForClauses)
    (hinitial : ∀ s ∈ clauses.initial, s.Begins) :
    W.Runs FlowRel (exec setting bound n (clauses.loop body))
      (forLoop setting bound m clauses body) := by
  unfold forLoop
  cases hfirst : clauses.initial with
  | none =>
      rw [ForClauses.loop_none hfirst]
      -- The tree turns in the scope that is there, the loop in a new one inside it.
      refine runs_newRight hsees fun V inner hWV hinner => ?_
      exact forTurns_runs hnatives hquiet bound hinner hbody clauses
  | some first =>
      rw [ForClauses.loop_some hfirst, exec, execWith]
      -- Both make a scope, in which the initial statement may declare a variable.
      refine (runs_newScope hsees).bind fun V inner inner' _ htwin => ?_
      rw [← execAll, (hinitial first hfirst).next setting bound inner, whenPresent, bind_assoc]
      have hrun := exec_runs hnatives bound first (suits_twin htwin)
      refine hrun.bind fun U _ _ hVU _ => ?_
      exact forTurns_runs hnatives hquiet bound (.twin (hVU.twin htwin)) hbody clauses

end

end Links

end LoxLang
