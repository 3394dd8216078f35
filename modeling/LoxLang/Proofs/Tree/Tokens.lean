import LoxLang.Proofs.Tree.Like
import LoxLang.Value

set_option autoImplicit false

/-! # The tokens of a tree -/

namespace LoxLang

mutual

/-- The tokens that an expression keeps. -/
def Expr.tokens : Expr → List Token
  | .missing => []
  | .assign target value => target :: value.tokens
  | .binary left op right => left.tokens ++ op :: right.tokens
  | .call callee paren args => callee.tokens ++ paren :: Expr.allTokens args
  | .group inner => inner.tokens
  | .literal _ => []
  | .logical left op right => left.tokens ++ op :: right.tokens
  | .unary op right => op :: right.tokens
  | .name word => [word]

/-- The tokens that expressions keep. -/
def Expr.allTokens : List Expr → List Token
  | [] => []
  | e :: more => e.tokens ++ Expr.allTokens more

end

mutual

/-- The tokens that a statement keeps. -/
def Stmt.tokens : Stmt → List Token
  | .missing => []
  | .block body => Stmt.allTokens body
  | .expression value => value.tokens
  | .function name params body => name :: (params ++ Stmt.allTokens body)
  | .branch condition thenDo none => condition.tokens ++ thenDo.tokens
  | .branch condition thenDo (some elseDo) =>
    condition.tokens ++ (thenDo.tokens ++ elseDo.tokens)
  | .print value => value.tokens
  | .ret keyword value => keyword :: Expr.allTokens value.toList
  | .declare name initial => name :: Expr.allTokens initial.toList
  | .loop condition body => condition.tokens ++ body.tokens

/-- The tokens that statements keep. -/
def Stmt.allTokens : List Stmt → List Token
  | [] => []
  | s :: more => s.tokens ++ Stmt.allTokens more

end

/-- The tokens that a function keeps. -/
def Closure.tokens (f : Closure) : List Token :=
  f.name :: (f.params ++ Stmt.allTokens f.body)

/-- The tokens that a value keeps. -/
def Value.tokens : Value → List Token
  | .closure _ f => f.tokens
  | _ => []

/-! ## Tokens under a map -/

/-- Tokens that correspond to what a map makes of them, whatever part they play. -/
def Likeness.Carries (R : Likeness) (f : Token → Token) (ts : List Token) : Prop :=
  ∀ t ∈ ts, ∀ ρ, R.token ρ t (f t)

section
variable {R : Likeness} {f : Token → Token} {t : Token} {ts us : List Token}

theorem carries_cons : R.Carries f (t :: ts) ↔ (∀ ρ, R.token ρ t (f t)) ∧ R.Carries f ts :=
  List.forall_mem_cons

theorem carries_append : R.Carries f (ts ++ us) ↔ R.Carries f ts ∧ R.Carries f us :=
  List.forall_mem_append

theorem Likeness.Carries.tokens (h : R.Carries f ts) (ρ : Role) :
    List.Forall₂ (R.token ρ) ts (ts.map f) := by
  induction ts with
  | nil => exact .nil
  | cons t ts ih =>
      rw [carries_cons] at h
      exact .cons (h.1 ρ) (ih h.2)

theorem Likeness.Carries.self (h : R.Carries id ts) (ρ : Role) :
    List.Forall₂ (R.token ρ) ts ts := by
  have hmapped := h.tokens ρ
  rwa [List.map_id] at hmapped

/-! ## Trees that are alike to themselves -/

mutual

theorem Expr.like_self (hholes : R.holes) : ∀ (e : Expr), R.Carries id e.tokens → e.Like R e
  | .missing, _ => .missing hholes
  | .assign _ value, h => by
      rw [Expr.tokens, carries_cons] at h
      exact .assign (h.1 _) (value.like_self hholes h.2)
  | .binary left _ right, h => by
      rw [Expr.tokens, carries_append, carries_cons] at h
      exact .binary (left.like_self hholes h.1) (h.2.1 _) (right.like_self hholes h.2.2)
  | .call callee _ args, h => by
      rw [Expr.tokens, carries_append, carries_cons] at h
      exact .call (callee.like_self hholes h.1) (h.2.1 _) (Expr.likeAll_self hholes args h.2.2)
  | .group inner, h => by
      rw [Expr.tokens] at h
      exact .group (inner.like_self hholes h)
  | .literal _, _ => .literal
  | .logical left _ right, h => by
      rw [Expr.tokens, carries_append, carries_cons] at h
      exact .logical (left.like_self hholes h.1) (h.2.1 _) (right.like_self hholes h.2.2)
  | .unary _ right, h => by
      rw [Expr.tokens, carries_cons] at h
      exact .unary (h.1 _) (right.like_self hholes h.2)
  | .name _, h => by
      rw [Expr.tokens, carries_cons] at h
      exact .name (h.1 _)

theorem Expr.likeAll_self (hholes : R.holes) :
    ∀ (es : List Expr), R.Carries id (Expr.allTokens es) → List.Forall₂ (Expr.Like R) es es
  | [], _ => .nil
  | e :: es, h => by
      rw [Expr.allTokens, carries_append] at h
      exact .cons (e.like_self hholes h.1) (Expr.likeAll_self hholes es h.2)

end

theorem Expr.likeOption_self (hholes : R.holes) (o : Option Expr)
    (h : R.Carries id (Expr.allTokens o.toList)) :
    Option.Rel (Expr.Like R) o o := by
  cases o with
  | none => exact .none
  | some e =>
      have hlike := Expr.likeAll_self hholes [e] h
      cases hlike with
      | cons hlike _ => exact .some hlike

mutual

theorem Stmt.like_self (hholes : R.holes) : ∀ (s : Stmt), R.Carries id s.tokens → s.Like R s
  | .missing, _ => .missing hholes
  | .block body, h => by
      rw [Stmt.tokens] at h
      exact .block (Stmt.likeAll_self hholes body h)
  | .expression value, h => by
      rw [Stmt.tokens] at h
      exact .expression (value.like_self hholes h)
  | .function _ _ body, h => by
      rw [Stmt.tokens, carries_cons, carries_append] at h
      exact .function (h.1 _) (h.2.1.self _) (Stmt.likeAll_self hholes body h.2.2)
  | .branch condition thenDo none, h => by
      rw [Stmt.tokens, carries_append] at h
      exact .branch (condition.like_self hholes h.1) (thenDo.like_self hholes h.2) .none
  | .branch condition thenDo (some elseDo), h => by
      rw [Stmt.tokens, carries_append, carries_append] at h
      exact .branch (condition.like_self hholes h.1) (thenDo.like_self hholes h.2.1)
        (.some (elseDo.like_self hholes h.2.2))
  | .print value, h => by
      rw [Stmt.tokens] at h
      exact .print (value.like_self hholes h)
  | .ret _ value, h => by
      rw [Stmt.tokens, carries_cons] at h
      exact .ret (h.1 _) (Expr.likeOption_self hholes value h.2)
  | .declare _ initial, h => by
      rw [Stmt.tokens, carries_cons] at h
      exact .declare (h.1 _) (Expr.likeOption_self hholes initial h.2)
  | .loop condition body, h => by
      rw [Stmt.tokens, carries_append] at h
      exact .loop (condition.like_self hholes h.1) (body.like_self hholes h.2)

theorem Stmt.likeAll_self (hholes : R.holes) :
    ∀ (ss : List Stmt), R.Carries id (Stmt.allTokens ss) → List.Forall₂ (Stmt.Like R) ss ss
  | [], _ => .nil
  | s :: ss, h => by
      rw [Stmt.allTokens, carries_append] at h
      exact .cons (s.like_self hholes h.1) (Stmt.likeAll_self hholes ss h.2)

end

end

end LoxLang
