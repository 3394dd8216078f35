import LoxLang.Eval
import LoxLang.Proofs.Eval.Sim

set_option autoImplicit false

/-! # Limits that were not reached

Evaluation has two limits: the bound on calls and loop turns, and the number of calls that may be
active at once. Both show only when they are reached, by the way in which evaluation stops. A
computation `Approx`imates another one if it does the same from every state, unless it stops in such a
way. Evaluation with lower limits approximates evaluation with higher ones (`execAll_approx`), so a run
that no limit has stopped is the run with any higher limits, down to the state that it leaves. -/

namespace LoxLang

/-- The one computation does what the other does, or it escapes. -/
def Eval.Approx {α : Type} (escape : Stop → Prop) (x y : Eval α) : Prop :=
  ∀ s, x s = y s ∨ ∃ stop t, x s = .error stop t ∧ escape stop

/-- Settings that differ in how many calls may be active at most. -/
structure Setting.Below (escape : Stop → Prop) (low high : Setting) : Prop where
  natives : high.natives = low.natives
  echo : high.echo = low.echo
  depth : low.maxDepth ≤ high.maxDepth
  overflow : low.maxDepth = high.maxDepth ∨
    ∀ token, escape (.failure (RuntimeFault.stackOverflow.located token))

theorem Setting.Below.refl (escape : Stop → Prop) (setting : Setting) :
    setting.Below escape setting :=
  ⟨rfl, rfl, Nat.le_refl _, Or.inl rfl⟩

namespace Eval

variable {α β : Type} {escape : Stop → Prop} {x y : Eval α} {f g : α → Eval β}

theorem Approx.refl (x : Eval α) : Approx escape x x :=
  fun _ => Or.inl rfl

theorem Approx.bind (hx : Approx escape x y) (hf : ∀ a, Approx escape (f a) (g a)) :
    Approx escape (x >>= f) (y >>= g) := by
  intro s
  rw [bind_run, bind_run]
  rcases hx s with heq | ⟨stop, t, hstop, hescape⟩
  · rw [← heq]
    cases x s with
    | ok a t => exact hf a t
    | error stop t => exact Or.inl rfl
  · rw [hstop]
    exact Or.inr ⟨stop, t, rfl, hescape⟩

theorem approx_ite {p : Prop} [Decidable p] {x' y' : Eval α} (hthen : Approx escape x y)
    (helse : Approx escape x' y') :
    Approx escape (if p then x else x') (if p then y else y') := by
  by_cases h : p
  · rw [if_pos h, if_pos h]
    exact hthen
  · rw [if_neg h, if_neg h]
    exact helse

/-- What did not escape is what the other computation does. -/
theorem Approx.eq (h : Approx escape x y) {s : State}
    (hs : ∀ stop t, x s = .error stop t → ¬ escape stop) : y s = x s := by
  rcases h s with heq | ⟨stop, t, hstop, hescape⟩
  · exact heq.symm
  · exact absurd hescape (hs stop t hstop)

/-! ## Calls -/

variable {low high : Setting} {inv inv' : Invoke} {scope n m : Nat}

/-- Meanings of calls, the one of which approximates the other. -/
def ApproxInvoke (escape : Stop → Prop) (inv inv' : Invoke) : Prop :=
  ∀ function args, Approx escape (inv function args) (inv' function args)

theorem approx_active (h : low.Below escape high) (paren : Token) (hxy : Approx escape x y) :
    Approx escape (active low paren x) (active high paren y) := by
  intro s
  unfold active
  by_cases hlow : low.maxDepth ≤ s.depth
  · rw [if_pos hlow]
    rcases h.overflow with heq | hescape
    · rw [if_pos (heq ▸ hlow)]
      exact Or.inl rfl
    · exact Or.inr ⟨_, s, rfl, hescape paren⟩
  · have hhigh : ¬ high.maxDepth ≤ s.depth := fun hle => hlow (Nat.le_trans h.depth hle)
    rw [if_neg hlow, if_neg hhigh]
    rcases hxy { s with depth := s.depth + 1 } with heq | ⟨stop, t, hstop, hescape⟩
    · rw [heq]
      exact Or.inl rfl
    · rw [hstop]
      exact Or.inr ⟨stop, _, rfl, hescape⟩

theorem callable?_below (h : low.Below escape high) (value : Value) :
    callable? high value = callable? low value := by
  cases value with
  | native index =>
      dsimp only [callable?]
      rw [h.natives]
  | _ => rfl

theorem callWith_approx (h : low.Below escape high) (hinv : ApproxInvoke escape inv inv')
    (paren : Token) (callee : Callable) (args : List Value) :
    Approx escape (callWith low inv paren callee args) (callWith high inv' paren callee args) := by
  unfold callWith
  refine approx_ite ?_ (.refl _)
  cases callee with
  | closure function => exact approx_active h paren (hinv function args)
  | native function => exact approx_active h paren (.refl _)

/-! ## Expressions -/

mutual

theorem evalWith_approx (h : low.Below escape high) (hinv : ApproxInvoke escape inv inv') :
    ∀ e : Expr, Approx escape (evalWith low inv scope e) (evalWith high inv' scope e)
  | .missing => by
      rw [evalWith, evalWith]
      exact .refl _
  | .assign name value => by
      rw [evalWith, evalWith]
      exact (evalWith_approx h hinv value).bind fun v => .refl _
  | .binary left op right => by
      rw [evalWith, evalWith]
      refine (evalWith_approx h hinv left).bind fun l => ?_
      exact (evalWith_approx h hinv right).bind fun r => .refl _
  | .call callee paren args => by
      rw [evalWith, evalWith]
      refine (evalWith_approx h hinv callee).bind fun f => ?_
      rw [callable?_below h]
      cases callable? low f with
      | none => exact .refl _
      | some target =>
          refine (evalAllWith_approx h hinv args).bind fun values => ?_
          exact callWith_approx h hinv paren target values
  | .group inner => by
      rw [evalWith, evalWith]
      exact evalWith_approx h hinv inner
  | .literal value => by
      rw [evalWith, evalWith]
      exact .refl _
  | .logical left op right => by
      rw [evalWith, evalWith]
      refine (evalWith_approx h hinv left).bind fun l => ?_
      have hright := evalWith_approx h hinv right
      split
      case h_1 => exact approx_ite (.refl _) hright
      case h_2 => exact approx_ite hright (.refl _)
      case h_3 => exact .refl _
  | .unary op right => by
      rw [evalWith, evalWith]
      exact (evalWith_approx h hinv right).bind fun r => .refl _
  | .name name => by
      rw [evalWith, evalWith]
      exact .refl _

theorem evalAllWith_approx (h : low.Below escape high) (hinv : ApproxInvoke escape inv inv') :
    ∀ es : List Expr, Approx escape (evalAllWith low inv scope es) (evalAllWith high inv' scope es)
  | [] => by
      rw [evalAllWith, evalAllWith]
      exact .refl _
  | e :: more => by
      rw [evalAllWith, evalAllWith]
      refine (evalWith_approx h hinv e).bind fun v => ?_
      exact (evalAllWith_approx h hinv more).bind fun vs => .refl _

end

theorem evalOptional_approx (h : low.Below escape high) (hinv : ApproxInvoke escape inv inv')
    (e : Option Expr) :
    Approx escape (evalOptional low inv scope e) (evalOptional high inv' scope e) := by
  cases e with
  | none => exact .refl _
  | some e => exact evalWith_approx h hinv e

/-! ## Statements -/

/-- Bounds, the first of which is the same as the second, or lower and escaped from when reached. -/
def ApproxBound (escape : Stop → Prop) (n m : Nat) : Prop :=
  n = m ∨ n ≤ m ∧ escape .exhausted

theorem ApproxBound.pred (h : ApproxBound escape (n + 1) m) :
    ∃ k, m = k + 1 ∧ ApproxBound escape n k := by
  rcases h with h | ⟨h, hescape⟩
  · exact ⟨n, h.symm, Or.inl rfl⟩
  · exact ⟨m - 1, by omega, Or.inr ⟨by omega, hescape⟩⟩

/-- At the bound there is nothing that could differ. -/
theorem ApproxBound.zero (h : ApproxBound escape 0 m) (hy : m = 0 → y = throw .exhausted) :
    Approx escape (throw .exhausted : Eval α) y := by
  rcases h with h | ⟨-, hescape⟩
  · rw [hy h.symm]
    exact .refl _
  · exact fun s => Or.inr ⟨.exhausted, s, rfl, hescape⟩

theorem repeatWhile_approx {test test' : Eval Value} {body body' : Eval Flow}
    (hb : ApproxBound escape n m) (htest : Approx escape test test')
    (hbody : Approx escape body body') :
    Approx escape (repeatWhile test body n) (repeatWhile test' body' m) := by
  induction n generalizing m with
  | zero =>
      refine hb.zero fun hm => ?_
      rw [hm, repeatWhile]
  | succ n ih =>
      obtain ⟨k, rfl, hk⟩ := hb.pred
      rw [repeatWhile, repeatWhile]
      refine htest.bind fun v => approx_ite ?_ (.refl _)
      refine hbody.bind fun flow => ?_
      cases flow with
      | normal => exact ih hk
      | returning value => exact .refl _

theorem echo_below (h : low.Below escape high) (e : Expr) (value : Value) :
    echo high e value = echo low e value := by
  unfold echo
  rw [h.echo]

mutual

theorem execWith_approx (h : low.Below escape high) (hinv : ApproxInvoke escape inv inv')
    (hb : ApproxBound escape n m) :
    ∀ {scope : Nat} (stmt : Stmt),
      Approx escape (execWith low inv n scope stmt) (execWith high inv' m scope stmt)
  | _, .missing => by
      rw [execWith, execWith]
      exact .refl _
  | _, .block body => by
      rw [execWith, execWith]
      exact (Approx.refl _).bind fun inner => execAllWith_approx h hinv hb body
  | _, .expression value => by
      rw [execWith, execWith]
      refine (evalWith_approx h hinv value).bind fun v => ?_
      rw [echo_below h]
      exact .refl _
  | _, .function name params body => by
      rw [execWith, execWith]
      exact .refl _
  | _, .branch condition thenDo none => by
      rw [execWith, execWith]
      refine (evalWith_approx h hinv condition).bind fun test => ?_
      exact approx_ite (execWith_approx h hinv hb thenDo) (.refl _)
  | _, .branch condition thenDo (some elseDo) => by
      rw [execWith, execWith]
      refine (evalWith_approx h hinv condition).bind fun test => ?_
      exact approx_ite (execWith_approx h hinv hb thenDo) (execWith_approx h hinv hb elseDo)
  | _, .print value => by
      rw [execWith, execWith]
      exact (evalWith_approx h hinv value).bind fun v => .refl _
  | _, .ret _ value => by
      rw [execWith, execWith]
      exact (evalOptional_approx h hinv value).bind fun v => .refl _
  | _, .declare name initial => by
      rw [execWith, execWith]
      exact (evalOptional_approx h hinv initial).bind fun v => .refl _
  | _, .loop condition body => by
      rw [execWith, execWith]
      exact repeatWhile_approx hb (evalWith_approx h hinv condition)
        (execWith_approx h hinv hb body)

theorem execAllWith_approx (h : low.Below escape high) (hinv : ApproxInvoke escape inv inv')
    (hb : ApproxBound escape n m) :
    ∀ {scope : Nat} (stmts : List Stmt),
      Approx escape (execAllWith low inv n scope stmts) (execAllWith high inv' m scope stmts)
  | _, [] => by
      rw [execAllWith, execAllWith]
      exact .refl _
  | _, stmt :: more => by
      rw [execAllWith, execAllWith]
      refine (execWith_approx h hinv hb stmt).bind fun flow => ?_
      cases flow with
      | normal => exact execAllWith_approx h hinv hb more
      | returning value => exact .refl _

end

/-! ## The knot -/

theorem invoke_approx (h : low.Below escape high) (hb : ApproxBound escape n m) :
    ApproxInvoke escape (invoke low n) (invoke high m) := by
  induction n generalizing m with
  | zero =>
      intro function args
      refine hb.zero fun hm => ?_
      rw [hm, invoke]
  | succ n ih =>
      obtain ⟨k, rfl, hk⟩ := hb.pred
      intro function args
      rw [invoke, invoke]
      refine (Approx.refl _).bind fun scope => (Approx.refl _).bind fun _ => ?_
      exact (execAllWith_approx h (ih hk) hk function.body).bind fun flow => .refl _

theorem execAll_approx (h : low.Below escape high) (hb : ApproxBound escape n m) (scope : Nat)
    (stmts : List Stmt) :
    Approx escape (execAll low n scope stmts) (execAll high m scope stmts) :=
  execAllWith_approx h (invoke_approx h hb) hb stmts

end Eval

end LoxLang
