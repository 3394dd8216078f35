import LoxLang.Proofs.Eval.Plan

set_option autoImplicit false

/-! # The moments of a run

A `Moment` is a task that is begun in some state. In the course of it other moments come about, down
to the smallest parts of the trees, and so do calls, each of which is active from the moment when what
is called begins until that has come to its end (`Moment.During`).

Three things are said about all moments. They leave as many calls active as they found
(`Moment.balanced`). The number that the state holds is the number of calls that are active, and it
stays within the limit (`Moment.During.depth`). And a moment fails for a call too many exactly if in
the course of it a call is attempted when as many are active as may be (`Moment.overflow_iff`). -/

namespace LoxLang

open Eval

/-- A task that is begun in some state. -/
structure Moment where
  {α : Type}
  bound : Nat
  task : Task α
  state : State

/-- The tasks that a plan comes to when it is carried out from some state. -/
inductive Plan.Enters (setting : Setting) {α : Type} : Plan α → State → Moment → Prop
  | here {β : Type} {n : Nat} {part : Task β} {more : β → Plan α} {s : State} :
    Plan.Enters setting (.sub n part more) s ⟨n, part, s⟩
  | afterOp {β : Type} {x : Eval β} {more : β → Plan α} {s t : State} {b : β} {m : Moment} :
    x s = .ok b t → Plan.Enters setting (more b) t m → Plan.Enters setting (.op x more) s m
  | afterSub {β : Type} {n : Nat} {part : Task β} {more : β → Plan α} {s t : State} {b : β}
    {m : Moment} :
    part.run setting n s = .ok b t → Plan.Enters setting (more b) t m →
    Plan.Enters setting (.sub n part more) s m

namespace Moment

/-- What begins in the course of a moment, and how many calls become active with it: a task of its
plan, or what is done while the call is active that it attempts. -/
inductive Enters (setting : Setting) : Moment → Nat → Moment → Prop
  | part {α : Type} {bound : Nat} {task : Task α} {s : State} {m : Moment} :
    (task.plan setting bound).Enters setting s m → Enters setting ⟨bound, task, s⟩ 0 m
  | call {bound : Nat} {paren : Token} {callee : Callable} {args : List Value} {s : State} :
    (args.length : Int) = callee.arity → s.depth < setting.maxDepth →
    Enters setting ⟨bound, .call paren callee args, s⟩ 1
      ⟨bound, .active callee args, { s with depth := s.depth + 1 }⟩

/-- The moments in the course of a moment, and how many calls have become active that are still so. -/
inductive During (setting : Setting) : Moment → Nat → Moment → Prop
  | now (m : Moment) : During setting m 0 m
  | inside {m m' m'' : Moment} {calls more : Nat} :
    Enters setting m calls m' → During setting m' more m'' →
    During setting m (calls + more) m''

/-- The state in which a moment comes to its end, whichever way. -/
def final (setting : Setting) (m : Moment) : State :=
  Eval.final (m.task.run setting m.bound m.state)

/-- The moment ends by stopping in some way. -/
def Stops (setting : Setting) (m : Moment) (stop : Stop) : Prop :=
  ∃ t, m.task.run setting m.bound m.state = .error stop t

end Moment

/-- The attempt of a call makes it active if the number of arguments is right. -/
theorem Task.run_call (setting : Setting) (bound : Nat) (paren : Token) (callee : Callable)
    (args : List Value) :
    (Task.call paren callee args).run setting bound =
      if (args.length : Int) = callee.arity then
        Eval.active setting paren ((Task.active callee args).run setting bound)
      else refuse (.wrongArity callee.arity args.length) paren := by
  cases callee with
  | closure function => rfl
  | native function => rfl

theorem Task.active_below (bound : Nat) (paren : Token) (callee : Callable) (args : List Value) :
    (Task.active callee args).Below bound bound (.call paren callee args) :=
  Or.inr ⟨rfl, Or.inr ⟨rfl, Nat.zero_lt_one⟩⟩

/-- A task is the attempt of a call, or it has a plan that fits. -/
theorem Task.cases_call {P : (α : Type) → Task α → Prop}
    (call : ∀ paren callee args, P Value (.call paren callee args))
    (planned : ∀ {α : Type} (task : Task α),
      (∀ setting bound, (task.plan setting bound).Fits bound task) → P α task)
    {α : Type} (task : Task α) : P α task := by
  cases hcall : task.isCall with
  | false => exact planned task fun setting bound => task.plan_fits setting bound hcall
  | true =>
      cases task with
      | call paren callee args => exact call paren callee args
      | _ => cases hcall

/-! ## Balance -/

section
variable {setting : Setting} {α β : Type} {bound : Nat} {task : Task β}

theorem Plan.Fits.balanced {p : Plan α} (hp : p.Fits bound task)
    (hsub : ∀ {γ : Type} (n : Nat) (part : Task γ), part.Below n bound task →
      Balanced (part.run setting n)) : Balanced (p.run setting) := by
  induction p with
  | done x => exact Quiet.balanced hp
  | op x more ih => exact hp.1.balanced.bind fun b => ih b (hp.2 b)
  | sub n part more ih => exact (hsub n part hp.1).bind fun b => ih b (hp.2 b)

end

theorem Task.balanced (setting : Setting) {α : Type} (bound : Nat) (task : Task α) :
    Balanced (task.run setting bound) := by
  refine Task.below_induction (P := fun n part => Balanced (part.run setting n)) ?_ bound task
  intro α bound task ih
  cases task using Task.cases_call with
  | call paren callee args =>
      rw [Task.run_call]
      split
      case isTrue =>
          exact balanced_active setting paren (ih _ _ (Task.active_below bound paren callee args))
      case isFalse => exact fun _ => rfl
  | planned task hfits =>
      rw [← task.run_plan]
      exact (hfits setting bound).balanced ih

/-- However a moment ends, it leaves as many calls active as there were when it began. -/
theorem Moment.balanced (setting : Setting) (m : Moment) :
    (m.final setting).depth = m.state.depth :=
  m.task.balanced setting m.bound m.state

/-! ## The number of active calls -/

section
variable {setting : Setting} {α β : Type} {bound : Nat} {task : Task β}

/-- As long as a plan is carried out, the number of active calls is the same between its tasks. -/
theorem Plan.Enters.depth {p : Plan α} {s : State} {m : Moment} (h : p.Enters setting s m)
    (hp : p.Fits bound task) : m.state.depth = s.depth := by
  induction h with
  | here => rfl
  | @afterOp β x more s t b m hx _ ih =>
      have hs : (Eval.final (x s)).depth = s.depth := hp.1.balanced s
      rw [hx] at hs
      exact (ih (hp.2 b)).trans hs
  | @afterSub β n part more s t b m hrun _ ih =>
      have hs : (Eval.final (part.run setting n s)).depth = s.depth := part.balanced setting n s
      rw [hrun] at hs
      exact (ih (hp.2 b)).trans hs

end

namespace Moment

variable {setting : Setting} {m m' : Moment} {calls : Nat}

theorem Enters.depth (h : Enters setting m calls m') :
    m'.state.depth = m.state.depth + calls ∧
      (m.state.depth ≤ setting.maxDepth → m'.state.depth ≤ setting.maxDepth) := by
  cases h with
  | @part α bound task s m hm =>
      have hdepth : m'.state.depth = s.depth := by
        cases task using Task.cases_call with
        | call paren callee args => cases hm
        | planned task hfits => exact hm.depth (hfits setting bound)
      exact ⟨hdepth, fun hle => hdepth ▸ hle⟩
  | call harity hlimit => exact ⟨rfl, fun _ => hlimit⟩

/-- The state counts the active calls, and there are never more than may be. -/
theorem During.depth (h : During setting m calls m') (hm : m.state.depth ≤ setting.maxDepth) :
    m'.state.depth = m.state.depth + calls ∧ m'.state.depth ≤ setting.maxDepth := by
  induction h with
  | now m => exact ⟨rfl, hm⟩
  | @inside m m' m'' calls more henters _ ih =>
      obtain ⟨hcalls, hle⟩ := henters.depth
      obtain ⟨hmore, hlimit⟩ := ih (hle hm)
      exact ⟨by omega, hlimit⟩

end Moment

/-! ## One call too many -/

section
variable {setting : Setting} {α β : Type} {bound : Nat} {task : Task β}

/-- A plan stops as its tasks do. -/
theorem Plan.Enters.stops {p : Plan α} {s : State} {m : Moment} {stop : Stop}
    (h : p.Enters setting s m) (hm : m.Stops setting stop) :
    ∃ t, p.run setting s = .error stop t := by
  induction h with
  | @here β n part more s =>
      obtain ⟨t, ht⟩ := hm
      refine ⟨t, ?_⟩
      rw [Plan.run, bind_run, ht]
  | afterOp hx _ ih =>
      obtain ⟨t, ht⟩ := ih hm
      refine ⟨t, ?_⟩
      rw [Plan.run, bind_run, hx]
      exact ht
  | afterSub hrun _ ih =>
      obtain ⟨t, ht⟩ := ih hm
      refine ⟨t, ?_⟩
      rw [Plan.run, bind_run, hrun]
      exact ht

/-- The steps of a plan do not stop for a call too many, so one of its tasks does if the plan does. -/
theorem Plan.Fits.origin {p : Plan α} (hp : p.Fits bound task) {s t : State} {paren : Token}
    (h : p.run setting s = .error (.overflow paren) t) :
    ∃ m : Moment, p.Enters setting s m ∧ m.task.Below m.bound bound task ∧
      m.Stops setting (.overflow paren) := by
  induction p generalizing s with
  | done x => exact absurd h (Quiet.ne_overflow hp s t paren)
  | op x more ih =>
      rw [Plan.run, bind_run] at h
      cases hx : x s with
      | ok b s' =>
          rw [hx] at h
          obtain ⟨m, henters, hbelow, hstops⟩ := ih b (hp.2 b) h
          exact ⟨m, .afterOp hx henters, hbelow, hstops⟩
      | error stop s' =>
          rw [hx] at h
          cases h
          exact absurd hx (hp.1.ne_overflow s t paren)
  | sub n part more ih =>
      rw [Plan.run, bind_run] at h
      cases hrun : part.run setting n s with
      | ok b s' =>
          rw [hrun] at h
          obtain ⟨m, henters, hbelow, hstops⟩ := ih b (hp.2 b) h
          exact ⟨m, .afterSub hrun henters, hbelow, hstops⟩
      | error stop s' =>
          rw [hrun] at h
          cases h
          exact ⟨⟨n, part, s⟩, .here, hp.1, t, hrun⟩

end

namespace Moment

variable {setting : Setting} {m m' : Moment} {calls : Nat} {paren : Token} {stop : Stop}

/-- A call of something that can be called, with as many arguments as it takes. -/
def Attempts (paren : Token) (m : Moment) : Prop :=
  ∃ bound callee args s, m = ⟨bound, .call paren callee args, s⟩ ∧
    (args.length : Int) = callee.arity

theorem Enters.stops (h : Enters setting m calls m') (hm : m'.Stops setting stop) :
    m.Stops setting stop := by
  cases h with
  | @part α bound task s m hm' =>
      obtain ⟨t, ht⟩ := hm'.stops hm
      rw [task.run_plan] at ht
      exact ⟨t, ht⟩
  | @call bound paren callee args s harity hlimit =>
      obtain ⟨t, ht⟩ := hm
      refine ⟨{ t with depth := t.depth - 1 }, ?_⟩
      rw [Task.run_call, if_pos harity, Eval.active, if_neg (Nat.not_le_of_lt hlimit)]
      dsimp only at ht ⊢
      rw [ht]

theorem During.stops (h : During setting m calls m') (hm : m'.Stops setting stop) :
    m.Stops setting stop := by
  induction h with
  | now m => exact hm
  | inside henters _ ih => exact henters.stops (ih hm)

/-- A call that is attempted at the limit stops for a call too many. -/
theorem Attempts.stops (h : m.Attempts paren) (hlimit : m.state.depth = setting.maxDepth) :
    m.Stops setting (.overflow paren) := by
  obtain ⟨bound, callee, args, s, rfl, harity⟩ := h
  refine ⟨s, ?_⟩
  have hle : setting.maxDepth ≤ s.depth := Nat.le_of_eq hlimit.symm
  rw [Task.run_call, if_pos harity, Eval.active, if_pos hle]
  rfl

/-- A call too many is attempted in the course of every moment that stops for one. -/
theorem Stops.origin (hm : m.Stops setting (.overflow paren))
    (hdepth : m.state.depth ≤ setting.maxDepth) :
    ∃ calls m', During setting m calls m' ∧ m'.Attempts paren ∧
      m'.state.depth = setting.maxDepth := by
  obtain ⟨bound, task, state⟩ := m
  -- the state differs from one task to the next, so it belongs to what is proved about a task
  refine Task.below_induction (P := fun n part => ∀ s : State, s.depth ≤ setting.maxDepth →
    Moment.Stops setting ⟨n, part, s⟩ (.overflow paren) →
    ∃ calls m', During setting ⟨n, part, s⟩ calls m' ∧ m'.Attempts paren ∧
      m'.state.depth = setting.maxDepth) ?_ bound task state hdepth hm
  intro α bound task ih s hs hstops
  obtain ⟨t, ht⟩ := hstops
  dsimp only at ht
  cases task using Task.cases_call with
  | call at' callee args =>
      rw [Task.run_call] at ht
      by_cases harity : (args.length : Int) = callee.arity
      case neg =>
          rw [if_neg harity] at ht
          exact absurd ht (Quiet.ne_overflow (quiet_refuse (by simp [RuntimeFault.cause]) _) s t _)
      case pos =>
          rw [if_pos harity] at ht
          rcases active_stops ht with ⟨hlimit, hstop⟩ | ⟨hlimit, hbody⟩
          · rw [Stop.overflow_inj.1 hstop]
            exact ⟨0, _, .now _, ⟨bound, callee, args, s, rfl, harity⟩, Nat.le_antisymm hs hlimit⟩
          · obtain ⟨calls, m', hduring, hattempt⟩ := ih _ _
              (Task.active_below bound at' callee args) { s with depth := s.depth + 1 } hlimit hbody
            exact ⟨_, m', .inside (.call harity hlimit) hduring, hattempt⟩
  | planned task hfits =>
      rw [← task.run_plan] at ht
      obtain ⟨m, henters, hbelow, hstops⟩ := (hfits setting bound).origin ht
      have hdepth := (Enters.part henters).depth.2 hs
      obtain ⟨calls, m', hduring, hattempt⟩ := ih _ _ hbelow _ hdepth hstops
      exact ⟨_, m', .inside (.part henters) hduring, hattempt⟩

/-- A moment stops for a call too many exactly if one is attempted in the course of it. -/
theorem overflow_iff (hdepth : m.state.depth ≤ setting.maxDepth) :
    m.Stops setting (.overflow paren) ↔
      ∃ calls m', During setting m calls m' ∧ m'.Attempts paren ∧
        m'.state.depth = setting.maxDepth :=
  ⟨fun hm => hm.origin hdepth, fun ⟨_, _, hduring, hattempt, hlimit⟩ =>
    hduring.stops (hattempt.stops hlimit)⟩

end Moment

end LoxLang
