import LoxLang.Tree
import Mathlib.Data.List.Forall2

set_option autoImplicit false

/-! # Trees that are alike

Two trees are alike if they have the same shape and their tokens correspond, place by place. What it
means for tokens to correspond is up to a `Likeness`, and may depend on the part that a token plays
in its node. That one notion serves three ends: a tree is alike to itself exactly if its tokens have
some property, which tells well-formed trees (`Likeness.fitting`); two trees are alike if they differ
in the lines of their tokens only; and with equality for tokens, being alike is being equal. -/

namespace LoxLang

/-- The part that a token plays in the node it stands in. -/
inductive Role where
  | name | binary | logical | unary | paren | keyword
  deriving DecidableEq, Repr

/-- The kinds of tokens that fit a role. -/
def Role.fits : Role → Kind → Bool
  | .name, kind => kind == .identifier
  | .binary, kind =>
    [Kind.bangEqual, .equalEqual, .greater, .greaterEqual, .less, .lessEqual, .minus, .plus,
      .slash, .star].contains kind
  | .logical, kind => kind == .kwOr || kind == .kwAnd
  | .unary, kind => kind == .bang || kind == .minus
  | .paren, kind => kind == .rightParen
  | .keyword, kind => kind == .kwReturn

/-- Which tokens correspond, and whether nodes may be missing. -/
structure Likeness where
  token : Role → Token → Token → Prop
  holes : Prop

namespace Likeness

/-- One likeness makes no more trees alike than another. -/
structure Le (R S : Likeness) : Prop where
  token : ∀ {ρ : Role} {t u : Token}, R.token ρ t u → S.token ρ t u
  holes : R.holes → S.holes

/-- The likeness of a tree made of some tokens to itself: no node is missing, and every token is one
of them and of a kind that fits its role. -/
def fitting (ts : List Token) : Likeness where
  token := fun ρ t u => t = u ∧ t ∈ ts ∧ ρ.fits t.kind = true
  holes := False

/-- The likeness of well-formed trees, whatever their tokens, to themselves. -/
def formed : Likeness where
  token := fun ρ t u => t = u ∧ ρ.fits t.kind = true
  holes := False

theorem fitting_le_formed (ts : List Token) : (fitting ts).Le formed where
  token := fun ⟨he, _, hf⟩ => ⟨he, hf⟩
  holes := id

theorem fitting_le {ts us : List Token} (h : ∀ t ∈ ts, t ∈ us) : (fitting ts).Le (fitting us) where
  token := fun ⟨he, hm, hf⟩ => ⟨he, h _ hm, hf⟩
  holes := id

end Likeness

/-- Expressions that are alike. -/
inductive Expr.Like (R : Likeness) : Expr → Expr → Prop
  | missing : R.holes → Expr.Like R .missing .missing
  | assign {n m : Token} {v w : Expr} :
    R.token .name n m → Expr.Like R v w → Expr.Like R (.assign n v) (.assign m w)
  | binary {l l' r r' : Expr} {op op' : Token} :
    Expr.Like R l l' → R.token .binary op op' → Expr.Like R r r' →
    Expr.Like R (.binary l op r) (.binary l' op' r')
  | call {f f' : Expr} {p p' : Token} {args args' : List Expr} :
    Expr.Like R f f' → R.token .paren p p' → List.Forall₂ (Expr.Like R) args args' →
    Expr.Like R (.call f p args) (.call f' p' args')
  | group {e e' : Expr} : Expr.Like R e e' → Expr.Like R (.group e) (.group e')
  | literal {v : Literal} : Expr.Like R (.literal v) (.literal v)
  | logical {l l' r r' : Expr} {op op' : Token} :
    Expr.Like R l l' → R.token .logical op op' → Expr.Like R r r' →
    Expr.Like R (.logical l op r) (.logical l' op' r')
  | unary {op op' : Token} {e e' : Expr} :
    R.token .unary op op' → Expr.Like R e e' → Expr.Like R (.unary op e) (.unary op' e')
  | name {n m : Token} : R.token .name n m → Expr.Like R (.name n) (.name m)

/-- Statements that are alike. -/
inductive Stmt.Like (R : Likeness) : Stmt → Stmt → Prop
  | missing : R.holes → Stmt.Like R .missing .missing
  | block {body body' : List Stmt} :
    List.Forall₂ (Stmt.Like R) body body' → Stmt.Like R (.block body) (.block body')
  | expression {e e' : Expr} : e.Like R e' → Stmt.Like R (.expression e) (.expression e')
  | function {n m : Token} {ps ps' : List Token} {body body' : List Stmt} :
    R.token .name n m → List.Forall₂ (R.token .name) ps ps' →
    List.Forall₂ (Stmt.Like R) body body' → Stmt.Like R (.function n ps body) (.function m ps' body')
  | branch {e e' : Expr} {s s' : Stmt} {o o' : Option Stmt} :
    e.Like R e' → Stmt.Like R s s' → Option.Rel (Stmt.Like R) o o' →
    Stmt.Like R (.branch e s o) (.branch e' s' o')
  | print {e e' : Expr} : e.Like R e' → Stmt.Like R (.print e) (.print e')
  | ret {k k' : Token} {o o' : Option Expr} :
    R.token .keyword k k' → Option.Rel (Expr.Like R) o o' → Stmt.Like R (.ret k o) (.ret k' o')
  | declare {n m : Token} {o o' : Option Expr} :
    R.token .name n m → Option.Rel (Expr.Like R) o o' → Stmt.Like R (.declare n o) (.declare m o')
  | loop {e e' : Expr} {s s' : Stmt} :
    e.Like R e' → Stmt.Like R s s' → Stmt.Like R (.loop e s) (.loop e' s')

/-! ## Passing to a wider likeness

The relations nest through lists and options, so the inductions below go along the trees. -/

section
variable {R S : Likeness}

mutual

theorem Expr.Like.mono (hRS : R.Le S) : ∀ {e e' : Expr}, e.Like R e' → e.Like S e'
  | .missing, _, .missing h => .missing (hRS.holes h)
  | .assign _ _, _, .assign hn hv => .assign (hRS.token hn) (hv.mono hRS)
  | .binary _ _ _, _, .binary hl ho hr => .binary (hl.mono hRS) (hRS.token ho) (hr.mono hRS)
  | .call _ _ _, _, .call hf hp ha =>
    .call (hf.mono hRS) (hRS.token hp) (Expr.likeAll_mono hRS ha)
  | .group _, _, .group he => .group (he.mono hRS)
  | .literal _, _, .literal => .literal
  | .logical _ _ _, _, .logical hl ho hr => .logical (hl.mono hRS) (hRS.token ho) (hr.mono hRS)
  | .unary _ _, _, .unary ho he => .unary (hRS.token ho) (he.mono hRS)
  | .name _, _, .name hn => .name (hRS.token hn)

theorem Expr.likeAll_mono (hRS : R.Le S) :
    ∀ {es es' : List Expr}, List.Forall₂ (Expr.Like R) es es' → List.Forall₂ (Expr.Like S) es es'
  | [], _, .nil => .nil
  | _ :: _, _, .cons h hs => .cons (h.mono hRS) (Expr.likeAll_mono hRS hs)

end

theorem Expr.likeOption_mono (hRS : R.Le S) {o o' : Option Expr}
    (h : Option.Rel (Expr.Like R) o o') : Option.Rel (Expr.Like S) o o' := by
  cases h with
  | none => exact .none
  | some h => exact .some (h.mono hRS)

mutual

theorem Stmt.Like.mono (hRS : R.Le S) : ∀ {s s' : Stmt}, s.Like R s' → s.Like S s'
  | .missing, _, .missing h => .missing (hRS.holes h)
  | .block _, _, .block hb => .block (Stmt.likeAll_mono hRS hb)
  | .expression _, _, .expression he => .expression (he.mono hRS)
  | .function _ _ _, _, .function hn hp hb =>
    .function (hRS.token hn) (hp.imp fun _ _ h => hRS.token h) (Stmt.likeAll_mono hRS hb)
  | .branch _ _ _, _, .branch he hs ho =>
    .branch (he.mono hRS) (hs.mono hRS) (Stmt.likeOption_mono hRS ho)
  | .print _, _, .print he => .print (he.mono hRS)
  | .ret _ _, _, .ret hk ho => .ret (hRS.token hk) (Expr.likeOption_mono hRS ho)
  | .declare _ _, _, .declare hn ho => .declare (hRS.token hn) (Expr.likeOption_mono hRS ho)
  | .loop _ _, _, .loop he hs => .loop (he.mono hRS) (hs.mono hRS)

theorem Stmt.likeAll_mono (hRS : R.Le S) :
    ∀ {ss ss' : List Stmt}, List.Forall₂ (Stmt.Like R) ss ss' → List.Forall₂ (Stmt.Like S) ss ss'
  | [], _, .nil => .nil
  | _ :: _, _, .cons h hs => .cons (h.mono hRS) (Stmt.likeAll_mono hRS hs)

theorem Stmt.likeOption_mono (hRS : R.Le S) :
    ∀ {o o' : Option Stmt}, Option.Rel (Stmt.Like R) o o' → Option.Rel (Stmt.Like S) o o'
  | none, _, .none => .none
  | some _, _, .some h => .some (h.mono hRS)

end

end

/-! ## Trees made of more tokens -/

section
variable {ts us : List Token} (h : ∀ t ∈ ts, t ∈ us)

include h

theorem Expr.Like.within {e e' : Expr} (he : e.Like (.fitting ts) e') : e.Like (.fitting us) e' :=
  he.mono (Likeness.fitting_le h)

theorem Stmt.Like.within {s s' : Stmt} (hs : s.Like (.fitting ts) s') : s.Like (.fitting us) s' :=
  hs.mono (Likeness.fitting_le h)

end

/-! ## Trees with the same tokens -/

section
variable {R : Likeness}

mutual

/-- If only equal tokens correspond, only equal trees are alike. -/
theorem Expr.Like.eq (hR : ∀ {ρ : Role} {t u : Token}, R.token ρ t u → u = t) :
    ∀ {e e' : Expr}, e.Like R e' → e' = e
  | .missing, _, .missing _ => rfl
  | .assign _ _, _, .assign hn hv => by rw [hR hn, hv.eq hR]
  | .binary _ _ _, _, .binary hl ho hr => by rw [hl.eq hR, hR ho, hr.eq hR]
  | .call _ _ _, _, .call hf hp ha => by rw [hf.eq hR, hR hp, Expr.likeAll_eq hR ha]
  | .group _, _, .group he => by rw [he.eq hR]
  | .literal _, _, .literal => rfl
  | .logical _ _ _, _, .logical hl ho hr => by rw [hl.eq hR, hR ho, hr.eq hR]
  | .unary _ _, _, .unary ho he => by rw [hR ho, he.eq hR]
  | .name _, _, .name hn => by rw [hR hn]

theorem Expr.likeAll_eq (hR : ∀ {ρ : Role} {t u : Token}, R.token ρ t u → u = t) :
    ∀ {es es' : List Expr}, List.Forall₂ (Expr.Like R) es es' → es' = es
  | [], _, .nil => rfl
  | _ :: _, _, .cons h hs => by rw [h.eq hR, Expr.likeAll_eq hR hs]

end

theorem Expr.likeOption_eq (hR : ∀ {ρ : Role} {t u : Token}, R.token ρ t u → u = t)
    {o o' : Option Expr} (h : Option.Rel (Expr.Like R) o o') : o' = o := by
  cases h with
  | none => rfl
  | some h => rw [h.eq hR]

theorem tokens_eq (hR : ∀ {ρ : Role} {t u : Token}, R.token ρ t u → u = t) {ρ : Role}
    {ts us : List Token} (h : List.Forall₂ (R.token ρ) ts us) : us = ts := by
  induction h with
  | nil => rfl
  | cons h _ ih => rw [hR h, ih]

mutual

theorem Stmt.Like.eq (hR : ∀ {ρ : Role} {t u : Token}, R.token ρ t u → u = t) :
    ∀ {s s' : Stmt}, s.Like R s' → s' = s
  | .missing, _, .missing _ => rfl
  | .block _, _, .block hb => by rw [Stmt.likeAll_eq hR hb]
  | .expression _, _, .expression he => by rw [he.eq hR]
  | .function _ _ _, _, .function hn hp hb => by
      rw [hR hn, tokens_eq hR hp, Stmt.likeAll_eq hR hb]
  | .branch _ _ none, _, .branch he hs .none => by rw [he.eq hR, hs.eq hR]
  | .branch _ _ (some _), _, .branch he hs (.some ho) => by rw [he.eq hR, hs.eq hR, ho.eq hR]
  | .print _, _, .print he => by rw [he.eq hR]
  | .ret _ _, _, .ret hk ho => by rw [hR hk, Expr.likeOption_eq hR ho]
  | .declare _ _, _, .declare hn ho => by rw [hR hn, Expr.likeOption_eq hR ho]
  | .loop _ _, _, .loop he hs => by rw [he.eq hR, hs.eq hR]

theorem Stmt.likeAll_eq (hR : ∀ {ρ : Role} {t u : Token}, R.token ρ t u → u = t) :
    ∀ {ss ss' : List Stmt}, List.Forall₂ (Stmt.Like R) ss ss' → ss' = ss
  | [], _, .nil => rfl
  | _ :: _, _, .cons h hs => by rw [h.eq hR, Stmt.likeAll_eq hR hs]

end

end

end LoxLang
