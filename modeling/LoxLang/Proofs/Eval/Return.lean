import LoxLang.Proofs.Eval.Sim
import LoxLang.Proofs.Grammar

set_option autoImplicit false

/-! # Returning

The grammar allows `return` in the bodies of functions only. So the statements of a program have no
`return` outside of functions, and none of them ends by returning: a run of a program goes on to its
last statement unless one of them stops it. -/

namespace LoxLang

mutual

/-- Whether a statement has a `return` that does not belong to a function declared in it. -/
def Stmt.mayReturn : Stmt → Bool
  | .block body => Stmt.anyMayReturn body
  | .branch _ thenDo none => thenDo.mayReturn
  | .branch _ thenDo (some elseDo) => thenDo.mayReturn || elseDo.mayReturn
  | .ret _ _ => true
  | .loop _ body => body.mayReturn
  | _ => false

/-- Whether one of the statements may return. -/
def Stmt.anyMayReturn : List Stmt → Bool
  | [] => false
  | s :: more => s.mayReturn || Stmt.anyMayReturn more

end

/-! ## Statements of the grammar -/

namespace Grammar

variable {rule : Dangling}

theorem ForInitial.mayReturn {ts : List Token} {s : Stmt} (h : ForInitial ts (some s)) :
    s.mayReturn = false := by
  cases h with
  | varDecl h =>
      obtain ⟨-, -, -, -⟩ := h
      rfl
  | exprStmt h =>
      obtain ⟨-, -⟩ := h
      rfl

theorem forTree_mayReturn {ts : List Token} {initial : Option Stmt}
    {test increment : Option Expr} {body : Stmt} (hinitial : ForInitial ts initial)
    (hbody : body.mayReturn = false) :
    (forTree initial test increment body).mayReturn = false := by
  cases initial with
  | none => cases increment <;> simp [forTree, Stmt.mayReturn, Stmt.anyMayReturn, hbody]
  | some s =>
      have hs := hinitial.mayReturn
      cases increment <;> simp [forTree, Stmt.mayReturn, Stmt.anyMayReturn, hbody, hs]

mutual

theorem Declaration.mayReturn {inFunction : Bool} {ts : List Token} {s : Stmt}
    (h : Declaration rule inFunction ts s) (hout : inFunction = false) : s.mayReturn = false := by
  match h with
  | .functionNone _ _ _ _ _ _ => rfl
  | .function _ _ _ _ _ _ _ _ => rfl
  | .varDecl h =>
      obtain ⟨-, -, -, -⟩ := h
      rfl
  | .statement h => exact h.mayReturn hout

theorem Statement.mayReturn {inFunction isOpen : Bool} {ts : List Token} {s : Stmt}
    (h : Statement rule inFunction isOpen ts s) (hout : inFunction = false) :
    s.mayReturn = false := by
  match h with
  | .block _ hbody =>
      rw [Stmt.mayReturn]
      exact hbody.mayReturn hout
  | .expression h =>
      obtain ⟨-, -⟩ := h
      rfl
  | .forLoop _ _ hinitial _ _ _ _ hbody => exact forTree_mayReturn hinitial (hbody.mayReturn hout)
  | .ifThen _ _ _ _ hthen =>
      rw [Stmt.mayReturn]
      exact hthen.mayReturn hout
  | .ifElse _ _ _ _ hthen _ _ helse =>
      rw [Stmt.mayReturn, hthen.mayReturn hout, helse.mayReturn hout]
      rfl
  | .print _ _ _ => rfl
  | .ret _ _ _ => cases hout
  | .whileLoop _ _ _ _ hbody =>
      rw [Stmt.mayReturn]
      exact hbody.mayReturn hout

theorem Body.mayReturn {inFunction : Bool} {ts : List Token} {body : List Stmt}
    (h : Body rule inFunction ts body) (hout : inFunction = false) :
    Stmt.anyMayReturn body = false := by
  match h with
  | .close _ => rfl
  | .more h hbody =>
      rw [Stmt.anyMayReturn, h.mayReturn hout, hbody.mayReturn hout]
      rfl

end

/-- No statement of a program returns from it. -/
theorem Program.mayReturn {ts : List Token} {program : List Stmt} (h : Program rule ts program) :
    Stmt.anyMayReturn program = false := by
  induction h with
  | empty => rfl
  | more h _ ih =>
      rw [Stmt.anyMayReturn, h.mayReturn rfl, ih]
      rfl

end Grammar

/-! ## Execution -/

namespace Eval

/-- A computation that, if it ends, does not end by returning. -/
def Proceeds (x : Eval Flow) : Prop :=
  ∀ s flow s', x s = .ok flow s' → flow = .normal

theorem proceeds_normal : Proceeds (pure .normal) := by
  intro s flow s' h
  cases h
  rfl

theorem proceeds_throw (stop : Stop) : Proceeds (throw stop) := by
  intro s flow s' h
  cases h

theorem proceeds_bind {α : Type} {x : Eval α} {f : α → Eval Flow} (h : ∀ a, Proceeds (f a)) :
    Proceeds (x >>= f) := by
  intro s flow s' hrun
  rw [bind_run] at hrun
  cases hx : x s with
  | ok a after =>
      rw [hx] at hrun
      exact h a after flow s' hrun
  | error stop after =>
      rw [hx] at hrun
      cases hrun

theorem proceeds_ite {c : Prop} [Decidable c] {x y : Eval Flow} (hx : Proceeds x)
    (hy : Proceeds y) : Proceeds (if c then x else y) := by
  by_cases hc : c
  · rw [if_pos hc]
    exact hx
  · rw [if_neg hc]
    exact hy

/-- After statements that do not return, the next ones are executed. -/
theorem Proceeds.andThen {x : Eval Flow} {f : Flow → Eval Flow} (hx : Proceeds x)
    (hf : Proceeds (f .normal)) : Proceeds (x >>= f) := by
  intro s flow s' hrun
  rw [bind_run] at hrun
  cases hxs : x s with
  | ok a after =>
      rw [hxs] at hrun
      obtain rfl := hx s a after hxs
      exact hf after flow s' hrun
  | error stop after =>
      rw [hxs] at hrun
      cases hrun

theorem repeatWhile_proceeds {test : Eval Value} {body : Eval Flow} (h : Proceeds body) (n : Nat) :
    Proceeds (repeatWhile test body n) := by
  induction n with
  | zero => exact proceeds_throw _
  | succ n ih =>
      rw [repeatWhile]
      exact proceeds_bind fun v => proceeds_ite (h.andThen ih) proceeds_normal

section
variable {setting : Setting} {inv : Invoke} {n : Nat}

mutual

theorem execWith_proceeds {scope : Nat} :
    ∀ {s : Stmt}, s.mayReturn = false → Proceeds (execWith setting inv n scope s)
  | .missing, _ => by
      rw [execWith]
      exact proceeds_throw _
  | .block body, h => by
      rw [Stmt.mayReturn] at h
      rw [execWith]
      exact proceeds_bind fun inner => execAllWith_proceeds h
  | .expression _, _ => by
      rw [execWith]
      exact proceeds_bind fun _ => proceeds_bind fun _ => proceeds_normal
  | .function _ _ _, _ => by
      rw [execWith]
      exact proceeds_bind fun _ => proceeds_bind fun _ => proceeds_normal
  | .branch _ thenDo none, h => by
      rw [Stmt.mayReturn] at h
      rw [execWith]
      exact proceeds_bind fun v => proceeds_ite (execWith_proceeds h) proceeds_normal
  | .branch _ thenDo (some elseDo), h => by
      rw [Stmt.mayReturn, Bool.or_eq_false_iff] at h
      rw [execWith]
      exact proceeds_bind fun v => proceeds_ite (execWith_proceeds h.1) (execWith_proceeds h.2)
  | .print _, _ => by
      rw [execWith]
      exact proceeds_bind fun _ => proceeds_bind fun _ => proceeds_normal
  | .ret _ _, h => by
      rw [Stmt.mayReturn] at h
      cases h
  | .declare _ _, _ => by
      rw [execWith]
      exact proceeds_bind fun _ => proceeds_bind fun _ => proceeds_normal
  | .loop _ body, h => by
      rw [Stmt.mayReturn] at h
      rw [execWith]
      exact repeatWhile_proceeds (execWith_proceeds h) n

theorem execAllWith_proceeds {scope : Nat} :
    ∀ {ss : List Stmt}, Stmt.anyMayReturn ss = false →
      Proceeds (execAllWith setting inv n scope ss)
  | [], _ => by
      rw [execAllWith]
      exact proceeds_normal
  | s :: ss, h => by
      rw [Stmt.anyMayReturn, Bool.or_eq_false_iff] at h
      rw [execAllWith]
      exact (execWith_proceeds h.1).andThen (execAllWith_proceeds h.2)

end

/-- Statements one after the other, the first of which do not return. -/
theorem execAllWith_append {scope : Nat} (ss ss' : List Stmt) (h : Stmt.anyMayReturn ss = false) :
    execAllWith setting inv n scope (ss ++ ss') =
      execAllWith setting inv n scope ss >>= fun _ => execAllWith setting inv n scope ss' := by
  induction ss with
  | nil =>
      rw [execAllWith]
      rfl
  | cons s ss ih =>
      rw [Stmt.anyMayReturn, Bool.or_eq_false_iff] at h
      funext state
      rw [List.cons_append, execAllWith, execAllWith, ih h.2, bind_run, bind_run, bind_run]
      -- Either `s` stops everything, or it ends in the normal way and the rest goes on from there.
      cases hs : execWith setting inv n scope s state with
      | ok flow after =>
          obtain rfl := execWith_proceeds h.1 state flow after hs
          exact bind_run _ _ after
      | error stop after => rfl

end

end Eval

end LoxLang
