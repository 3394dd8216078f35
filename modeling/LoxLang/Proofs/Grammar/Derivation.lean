import LoxLang.Proofs.Grammar
import LoxLang.Proofs.Tree.Like

set_option autoImplicit false

/-! # Facts about derivations -/

namespace LoxLang.Grammar

/-! ## Expressions -/

/-- A phrase that reads as a name is that name. -/
theorem Phrase.eq_of_name {r : Rank} {ts : List Token} {e : Expr} (h : Phrase r ts e) {t : Token}
    (he : e = .name t) : ts = [t] ∧ t.kind = .identifier := by
  match h with
  | .operand h => exact h.eq_of_name he
  | .operator (r := r) _ _ _ => cases r <;> simp [Rank.join] at he
  | .name ht =>
      cases he
      exact ⟨rfl, ht⟩
  | .assign _ _ _ => simp at he
  | .unary _ _ => simp at he
  | .callNone _ _ _ => simp at he
  | .call _ _ _ _ _ => simp at he
  | .constant _ => simp at he
  | .trueWord _ => simp at he
  | .falseWord _ => simp at he
  | .nilWord _ => simp at he
  | .group _ _ _ => simp at he

/-- The kinds that a call or a part of one can start with. -/
def startsOperand (kind : Kind) : Bool :=
  [Kind.number, .string, .identifier, .kwTrue, .kwFalse, .kwNil, .leftParen].contains kind

/-- The kinds that an expression can start with. -/
def startsExpression (kind : Kind) : Bool :=
  startsOperand kind || kind == .bang || kind == .minus

/-- An expression has a first token; only above the ranks of calls can it be a prefix operator. -/
theorem Phrase.first {r : Rank} {ts : List Token} {e : Expr} (h : Phrase r ts e) :
    ∃ t more, ts = t :: more ∧ startsExpression t.kind = true ∧
      (r = .call ∨ r = .primary → startsOperand t.kind = true) := by
  have plain {t : Token} (ht : startsOperand t.kind = true) : startsExpression t.kind = true := by
    simp [startsExpression, ht]
  have one {t : Token} (ht : startsOperand t.kind = true) : ∃ u more, [t] = u :: more ∧
      startsExpression u.kind = true ∧ (r = .call ∨ r = .primary → startsOperand u.kind = true) :=
    ⟨t, [], rfl, plain ht, fun _ => ht⟩
  match h with
  | .operand (r := r) h =>
      obtain ⟨t, more, rfl, hfirst, hcall⟩ := h.first
      refine ⟨t, more, rfl, hfirst, fun hr => hcall ?_⟩
      rcases hr with rfl | rfl <;> simp [Rank.tighter]
  | .assign hn _ _ =>
      have ht : startsOperand .identifier = true := rfl
      exact ⟨_, _, rfl, plain (hn ▸ ht), fun _ => hn ▸ ht⟩
  | .operator (r := r) h hop _ =>
      obtain ⟨t, more, rfl, hfirst, hcall⟩ := h.first
      exact ⟨t, _, rfl, hfirst, hcall⟩
  | .unary hop _ =>
      refine ⟨_, _, rfl, ?_, by simp⟩
      rcases hop with h | h <;> simp [startsExpression, h]
  | .callNone h _ _ =>
      obtain ⟨t, more, rfl, hfirst, hcall⟩ := h.first
      exact ⟨t, _, rfl, hfirst, hcall⟩
  | .call h _ _ _ _ =>
      obtain ⟨t, more, rfl, hfirst, hcall⟩ := h.first
      exact ⟨t, _, rfl, hfirst, hcall⟩
  | .constant hk =>
      refine one ?_
      rcases hk with h | h <;> rw [h] <;> rfl
  | .name hk => exact one (by rw [hk]; rfl)
  | .trueWord hk => exact one (by rw [hk]; rfl)
  | .falseWord hk => exact one (by rw [hk]; rfl)
  | .nilWord hk => exact one (by rw [hk]; rfl)
  | .group hk _ _ =>
      have ht : startsOperand .leftParen = true := rfl
      exact ⟨_, _, rfl, plain (hk ▸ ht), fun _ => hk ▸ ht⟩

theorem Arguments.first {ts : List Token} {es : List Expr} (h : Arguments ts es) :
    ∃ t more, ts = t :: more ∧ startsExpression t.kind = true := by
  cases h with
  | last h =>
      obtain ⟨t, more, rfl, hfirst, -⟩ := h.first
      exact ⟨t, more, rfl, hfirst⟩
  | more h _ _ =>
      obtain ⟨t, more, rfl, hfirst, -⟩ := h.first
      exact ⟨t, _, rfl, hfirst⟩

/-! ## Statements -/

/-- The kinds that a declaration can start with. -/
def startsDeclaration (kind : Kind) : Bool :=
  startsExpression kind || [Kind.kwFun, .kwVar, .kwFor, .kwIf, .kwPrint, .kwReturn, .kwWhile,
    .leftBrace].contains kind

theorem ExprStmt.first {ts : List Token} {s : Stmt} (h : ExprStmt ts s) :
    ∃ t more, ts = t :: more ∧ startsExpression t.kind = true := by
  obtain ⟨hphrase, -⟩ := h
  obtain ⟨t, more, rfl, hfirst, -⟩ := hphrase.first
  exact ⟨t, _, rfl, hfirst⟩

theorem VarDecl.first {ts : List Token} {s : Stmt} (h : VarDecl ts s) :
    ∃ t more, ts = t :: more ∧ t.kind = .kwVar := by
  obtain ⟨hk, -, -, -⟩ := h
  exact ⟨_, _, rfl, hk⟩

theorem Statement.first {rule : Dangling} {inFunction isOpen : Bool} {ts : List Token} {s : Stmt}
    (h : Statement rule inFunction isOpen ts s) :
    ∃ t more, ts = t :: more ∧ startsDeclaration t.kind = true ∧ t.kind ≠ .kwFun ∧
      t.kind ≠ .kwVar := by
  cases h with
  | expression h =>
      obtain ⟨t, more, rfl, hfirst⟩ := h.first
      refine ⟨t, more, rfl, by simp [startsDeclaration, hfirst], ?_, ?_⟩ <;>
        (intro hk; rw [hk] at hfirst; simp [startsExpression, startsOperand] at hfirst)
  | block hk => exact ⟨_, _, rfl, by rw [hk]; rfl, by simp [hk], by simp [hk]⟩
  | forLoop hk => exact ⟨_, _, rfl, by rw [hk]; rfl, by simp [hk], by simp [hk]⟩
  | ifThen hk => exact ⟨_, _, rfl, by rw [hk]; rfl, by simp [hk], by simp [hk]⟩
  | ifElse hk => exact ⟨_, _, rfl, by rw [hk]; rfl, by simp [hk], by simp [hk]⟩
  | print hk => exact ⟨_, _, rfl, by rw [hk]; rfl, by simp [hk], by simp [hk]⟩
  | ret hk => exact ⟨_, _, rfl, by rw [hk]; rfl, by simp [hk], by simp [hk]⟩
  | whileLoop hk => exact ⟨_, _, rfl, by rw [hk]; rfl, by simp [hk], by simp [hk]⟩

theorem Declaration.first {rule : Dangling} {inFunction : Bool} {ts : List Token} {s : Stmt}
    (h : Declaration rule inFunction ts s) :
    ∃ t more, ts = t :: more ∧ startsDeclaration t.kind = true := by
  cases h with
  | functionNone hk => exact ⟨_, _, rfl, by rw [hk]; rfl⟩
  | function hk => exact ⟨_, _, rfl, by rw [hk]; rfl⟩
  | varDecl h =>
      obtain ⟨t, more, rfl, hk⟩ := h.first
      exact ⟨t, more, rfl, by rw [hk]; rfl⟩
  | statement h =>
      obtain ⟨t, more, rfl, hfirst, -⟩ := h.first
      exact ⟨t, more, rfl, hfirst⟩

theorem Body.first {rule : Dangling} {inFunction : Bool} {ts : List Token} {body : List Stmt}
    (h : Body rule inFunction ts body) : ∃ t more, ts = t :: more ∧ t.kind ≠ .kwElse := by
  cases h with
  | close hk => exact ⟨_, _, rfl, by simp [hk]⟩
  | more h _ =>
      obtain ⟨t, more, rfl, hfirst⟩ := h.first
      refine ⟨t, _, rfl, fun hk => ?_⟩
      simp [hk, startsDeclaration, startsExpression, startsOperand] at hfirst

/-- Loops made of parts that are alike are alike. -/
theorem forTree_like {R : Likeness} {initial initial' : Option Stmt}
    {test test' increment increment' : Option Expr} {body body' : Stmt}
    (hinitial : Option.Rel (Stmt.Like R) initial initial')
    (htest : Option.Rel (Expr.Like R) test test')
    (hincrement : Option.Rel (Expr.Like R) increment increment') (hbody : body.Like R body') :
    (forTree initial test increment body).Like R (forTree initial' test' increment' body') := by
  have hcondition : (test.getD (.literal (.bool true))).Like R
      (test'.getD (.literal (.bool true))) := by
    cases htest with
    | none => exact .literal
    | some h => exact h
  cases hincrement with
  | none =>
      have hloop := Stmt.Like.loop hcondition hbody
      cases hinitial with
      | none => exact hloop
      | some hs => exact .block (.cons hs (.cons hloop .nil))
  | some he =>
      have hloop := Stmt.Like.loop hcondition (.block (.cons hbody (.cons (.expression he) .nil)))
      cases hinitial with
      | none => exact hloop
      | some hs => exact .block (.cons hs (.cons hloop .nil))

/-! ## The nearest `if`

A derivation in which an `else` belongs to an outer `if` can be rearranged so that it belongs to the
nearest one that is open: the statement before the `else` ends in an `if` without one, and that `if`
takes the `else`. The tokens stay the same, the tree changes. -/

/-- An open statement takes an `else`. -/
theorem Statement.takeElse {inFunction isOpen elseOpen : Bool} {ts us : List Token}
    {s elseDo : Stmt} {word : Token} (h : Statement .nearest inFunction isOpen ts s)
    (hopen : isOpen = true) (hword : word.kind = .kwElse)
    (helse : Statement .nearest inFunction elseOpen us elseDo) :
    ∃ isOpen' s', Statement .nearest inFunction isOpen' (ts ++ word :: us) s' := by
  match h with
  | .block _ _ => simp at hopen
  | .expression _ => simp at hopen
  | .print _ _ _ => simp at hopen
  | .ret _ _ _ => simp at hopen
  | .forLoop hk h₁ hi hc h₂ hn h₃ hbody =>
      obtain ⟨o, s', hs'⟩ := hbody.takeElse hopen hword helse
      exact ⟨o, _, by simpa using Statement.forLoop hk h₁ hi hc h₂ hn h₃ hs'⟩
  | .whileLoop hk h₁ htest h₂ hbody =>
      obtain ⟨o, s', hs'⟩ := hbody.takeElse hopen hword helse
      exact ⟨o, _, by simpa using Statement.whileLoop hk h₁ htest h₂ hs'⟩
  | .ifElse hk h₁ htest h₂ hthen hclosed hword' helse' =>
      obtain ⟨o, s', hs'⟩ := helse'.takeElse hopen hword helse
      exact ⟨o, _, by simpa using Statement.ifElse hk h₁ htest h₂ hthen hclosed hword' hs'⟩
  | @Statement.ifThen _ _ thenOpen _ _ _ _ _ _ _ hk h₁ htest h₂ hthen =>
      by_cases hthenOpen : thenOpen = true
      · -- the `else` goes to an `if` inside, and this one stays without
        obtain ⟨o, s', hs'⟩ := hthen.takeElse hthenOpen hword helse
        exact ⟨true, _, by simpa using Statement.ifThen hk h₁ htest h₂ hs'⟩
      · have hclosed : thenOpen = false := by simpa using hthenOpen
        exact ⟨elseOpen, _, by
          simpa using Statement.ifElse hk h₁ htest h₂ hthen (fun _ => hclosed) hword helse⟩

mutual

/-- What is a declaration in one reading of `else` is one in the other. -/
theorem Declaration.toNearest {rule : Dangling} {inFunction : Bool} {ts : List Token} {s : Stmt}
    (h : Declaration rule inFunction ts s) : ∃ s', Declaration .nearest inFunction ts s' := by
  match h with
  | .functionNone hk h₁ h₂ h₃ h₄ hbody =>
      obtain ⟨body', hbody'⟩ := hbody.toNearest
      exact ⟨_, .functionNone hk h₁ h₂ h₃ h₄ hbody'⟩
  | .function hk h₁ h₂ hp hle h₃ h₄ hbody =>
      obtain ⟨body', hbody'⟩ := hbody.toNearest
      exact ⟨_, .function hk h₁ h₂ hp hle h₃ h₄ hbody'⟩
  | .varDecl h => exact ⟨_, .varDecl h⟩
  | .statement h =>
      obtain ⟨o, s', hs'⟩ := h.toNearest
      exact ⟨s', .statement hs'⟩

theorem Statement.toNearest {rule : Dangling} {inFunction isOpen : Bool} {ts : List Token}
    {s : Stmt} (h : Statement rule inFunction isOpen ts s) :
    ∃ isOpen' s', Statement .nearest inFunction isOpen' ts s' := by
  match h with
  | .block hk hbody =>
      obtain ⟨body', hbody'⟩ := hbody.toNearest
      exact ⟨_, _, .block hk hbody'⟩
  | .expression h => exact ⟨_, _, .expression h⟩
  | .forLoop hk h₁ hi hc h₂ hn h₃ hbody =>
      obtain ⟨o, s', hs'⟩ := hbody.toNearest
      exact ⟨_, _, .forLoop hk h₁ hi hc h₂ hn h₃ hs'⟩
  | .ifThen hk h₁ htest h₂ hthen =>
      obtain ⟨o, s', hs'⟩ := hthen.toNearest
      exact ⟨_, _, .ifThen hk h₁ htest h₂ hs'⟩
  | .ifElse hk h₁ htest h₂ hthen _ hword helse =>
      obtain ⟨thenOpen, s₁, hs₁⟩ := hthen.toNearest
      obtain ⟨elseOpen, s₂, hs₂⟩ := helse.toNearest
      by_cases hopen : thenOpen = true
      · -- rearranged, the statement before the `else` is open and takes it from this `if`
        obtain ⟨o, s', hs'⟩ := hs₁.takeElse hopen hword hs₂
        exact ⟨_, _, .ifThen hk h₁ htest h₂ hs'⟩
      · have hclosed : thenOpen = false := by simpa using hopen
        exact ⟨_, _, .ifElse hk h₁ htest h₂ hs₁ (fun _ => hclosed) hword hs₂⟩
  | .print hk he h₁ => exact ⟨_, _, .print hk he h₁⟩
  | .ret hk hv h₁ => exact ⟨_, _, .ret hk hv h₁⟩
  | .whileLoop hk h₁ htest h₂ hbody =>
      obtain ⟨o, s', hs'⟩ := hbody.toNearest
      exact ⟨_, _, .whileLoop hk h₁ htest h₂ hs'⟩

theorem Body.toNearest {rule : Dangling} {inFunction : Bool} {ts : List Token} {body : List Stmt}
    (h : Body rule inFunction ts body) : ∃ body', Body .nearest inFunction ts body' := by
  match h with
  | .close hk => exact ⟨_, .close hk⟩
  | .more hdecl hbody =>
      obtain ⟨s', hs'⟩ := hdecl.toNearest
      obtain ⟨body', hbody'⟩ := hbody.toNearest
      exact ⟨_, .more hs' hbody'⟩

end

/-- A program in any reading of `else` is a program in which every `else` belongs to the nearest
`if`. -/
theorem Program.toNearest {rule : Dangling} {ts : List Token} {program : List Stmt}
    (h : Program rule ts program) : ∃ program', Program .nearest ts program' := by
  induction h with
  | empty => exact ⟨_, .empty⟩
  | more hdecl _ ih =>
      obtain ⟨s', hs'⟩ := hdecl.toNearest
      obtain ⟨program', hprogram'⟩ := ih
      exact ⟨_, .more hs' hprogram'⟩

mutual

theorem Declaration.toAny {rule : Dangling} {inFunction : Bool} {ts : List Token} {s : Stmt}
    (h : Declaration rule inFunction ts s) : Declaration .any inFunction ts s := by
  match h with
  | .functionNone hk h₁ h₂ h₃ h₄ hbody => exact .functionNone hk h₁ h₂ h₃ h₄ hbody.toAny
  | .function hk h₁ h₂ hp hle h₃ h₄ hbody => exact .function hk h₁ h₂ hp hle h₃ h₄ hbody.toAny
  | .varDecl h => exact .varDecl h
  | .statement h => exact .statement h.toAny

theorem Statement.toAny {rule : Dangling} {inFunction isOpen : Bool} {ts : List Token}
    {s : Stmt} (h : Statement rule inFunction isOpen ts s) :
    Statement .any inFunction isOpen ts s := by
  match h with
  | .block hk hbody => exact .block hk hbody.toAny
  | .expression h => exact .expression h
  | .forLoop hk h₁ hi hc h₂ hn h₃ hbody => exact .forLoop hk h₁ hi hc h₂ hn h₃ hbody.toAny
  | .ifThen hk h₁ htest h₂ hthen => exact .ifThen hk h₁ htest h₂ hthen.toAny
  | .ifElse hk h₁ htest h₂ hthen _ hword helse =>
      exact .ifElse hk h₁ htest h₂ hthen.toAny (fun h => nomatch h) hword helse.toAny
  | .print hk he h₁ => exact .print hk he h₁
  | .ret hk hv h₁ => exact .ret hk hv h₁
  | .whileLoop hk h₁ htest h₂ hbody => exact .whileLoop hk h₁ htest h₂ hbody.toAny

theorem Body.toAny {rule : Dangling} {inFunction : Bool} {ts : List Token} {body : List Stmt}
    (h : Body rule inFunction ts body) : Body .any inFunction ts body := by
  match h with
  | .close hk => exact .close hk
  | .more hdecl hbody => exact .more hdecl.toAny hbody.toAny

end

theorem Program.toAny {rule : Dangling} {ts : List Token} {program : List Stmt}
    (h : Program rule ts program) : Program .any ts program := by
  induction h with
  | empty => exact .empty
  | more hdecl _ ih => exact .more hdecl.toAny ih

end LoxLang.Grammar
