import LoxLang.Proofs.Grammar.Derivation
import LoxLang.Proofs.Tree.Tokens

set_option autoImplicit false

/-! # Derivations with other tokens

The grammar asks for the kinds of tokens, and a tree keeps their literals; nothing depends on their
texts and lines. A map of tokens that keeps kinds and literals therefore maps derivations to
derivations, and the trees are alike (`Program.mapped`). -/

namespace LoxLang.Grammar

/-- A map of tokens that the grammar does not notice. -/
structure Unnoticed (f : Token → Token) : Prop where
  kind : ∀ t, (f t).kind = t.kind
  literal : ∀ t, (f t).literal = t.literal

variable {f : Token → Token} {R : Likeness}

theorem Unnoticed.is (hf : Unnoticed f) {t : Token} {kind : Kind} (h : t.kind = kind) :
    (f t).kind = kind := by
  rw [hf.kind, h]

/-! ## Expressions -/

theorem join_alike (r : Rank) {left left' right right' : Expr} {op op' : Token}
    (hleft : left.Like R left') (hop : ∀ ρ, R.token ρ op op') (hright : right.Like R right') :
    (r.join left op right).Like R (r.join left' op' right') := by
  cases r with
  | or => exact .logical hleft (hop _) hright
  | and => exact .logical hleft (hop _) hright
  | _ => exact .binary hleft (hop _) hright

mutual

theorem Phrase.mapped (hf : Unnoticed f) {r : Rank} {ts : List Token} {e : Expr}
    (h : Phrase r ts e) (hts : R.Carries f ts) :
    ∃ e', Phrase r (ts.map f) e' ∧ e.Like R e' := by
  match h with
  | .operand h =>
      obtain ⟨e', he', hlike⟩ := h.mapped hf hts
      exact ⟨e', .operand he', hlike⟩
  | .assign hname hequals hvalue =>
      rw [carries_cons, carries_cons] at hts
      obtain ⟨v', hv', hlike⟩ := hvalue.mapped hf hts.2.2
      exact ⟨_, .assign (hf.is hname) (hf.is hequals) hv', .assign (hts.1 _) hlike⟩
  | .operator (r := r) hleft hop hright =>
      rw [carries_append, carries_cons] at hts
      obtain ⟨l', hl', hlikel⟩ := hleft.mapped hf hts.1
      obtain ⟨r', hr', hliker⟩ := hright.mapped hf hts.2.2
      rw [List.map_append, List.map_cons]
      exact ⟨_, .operator hl' (by rwa [hf.kind]) hr', join_alike r hlikel hts.2.1 hliker⟩
  | .unary hop hright =>
      rw [carries_cons] at hts
      obtain ⟨r', hr', hlike⟩ := hright.mapped hf hts.2
      exact ⟨_, .unary (by rwa [hf.kind]) hr', .unary (hts.1 _) hlike⟩
  | .callNone hcallee hopening hclosing =>
      rw [carries_append, carries_cons, carries_cons] at hts
      obtain ⟨c', hc', hlike⟩ := hcallee.mapped hf hts.1
      rw [List.map_append]
      exact ⟨_, .callNone hc' (hf.is hopening) (hf.is hclosing), .call hlike (hts.2.2.1 _) .nil⟩
  | .call hcallee hopening hargs hle hclosing =>
      rw [carries_append, carries_cons, carries_append, carries_cons] at hts
      obtain ⟨c', hc', hlike⟩ := hcallee.mapped hf hts.1
      obtain ⟨args', hargs', hlikes⟩ := hargs.mapped hf hts.2.2.1
      have hle' : args'.length ≤ 8 := hlikes.length_eq ▸ hle
      rw [List.map_append, List.map_cons, List.map_append]
      exact ⟨_, .call hc' (hf.is hopening) hargs' hle' (hf.is hclosing),
        .call hlike (hts.2.2.2.1 _) hlikes⟩
  | .constant hk =>
      rw [← hf.literal]
      exact ⟨_, .constant (by rwa [hf.kind]), .literal⟩
  | .name hk =>
      rw [carries_cons] at hts
      exact ⟨_, .name (hf.is hk), .name (hts.1 _)⟩
  | .trueWord hk => exact ⟨_, .trueWord (hf.is hk), .literal⟩
  | .falseWord hk => exact ⟨_, .falseWord (hf.is hk), .literal⟩
  | .nilWord hk => exact ⟨_, .nilWord (hf.is hk), .literal⟩
  | .group hopening hinner hclosing =>
      rw [carries_cons, carries_append] at hts
      obtain ⟨i', hi', hlike⟩ := hinner.mapped hf hts.2.1
      rw [List.map_cons, List.map_append]
      exact ⟨_, .group (hf.is hopening) hi' (hf.is hclosing), .group hlike⟩

theorem Arguments.mapped (hf : Unnoticed f) {ts : List Token} {es : List Expr}
    (h : Arguments ts es) (hts : R.Carries f ts) :
    ∃ es', Arguments (ts.map f) es' ∧ List.Forall₂ (Expr.Like R) es es' := by
  match h with
  | .last h =>
      obtain ⟨e', he', hlike⟩ := h.mapped hf hts
      exact ⟨_, .last he', .cons hlike .nil⟩
  | .more h hcomma hargs =>
      rw [carries_append, carries_cons] at hts
      obtain ⟨e', he', hlike⟩ := h.mapped hf hts.1
      obtain ⟨es', hes', hlikes⟩ := hargs.mapped hf hts.2.2
      rw [List.map_append, List.map_cons]
      exact ⟨_, .more he' (hf.is hcomma) hes', .cons hlike hlikes⟩

end

/-! ## Parts of statements -/

section
variable (hf : Unnoticed f) {ts : List Token}

include hf

theorem Maybe.mapped {o : Option Expr} (h : Maybe (Phrase .assign) ts o) (hts : R.Carries f ts) :
    ∃ o', Maybe (Phrase .assign) (ts.map f) o' ∧ Option.Rel (Expr.Like R) o o' := by
  cases h with
  | absent => exact ⟨none, .absent, .none⟩
  | present h =>
      obtain ⟨e', he', hlike⟩ := h.mapped hf hts
      exact ⟨some e', .present he', .some hlike⟩

theorem Parameters.mapped {params : List Token} (h : Parameters ts params) (hts : R.Carries f ts) :
    Parameters (ts.map f) (params.map f) ∧ List.Forall₂ (R.token .name) params (params.map f) := by
  induction h with
  | last hname =>
      rw [carries_cons] at hts
      exact ⟨.last (hf.is hname), .cons (hts.1 _) .nil⟩
  | more hname hcomma _ ih =>
      rw [carries_cons, carries_cons] at hts
      obtain ⟨hparams, hlike⟩ := ih hts.2.2
      exact ⟨.more (hf.is hname) (hf.is hcomma) hparams, .cons (hts.1 _) hlike⟩

theorem VarDecl.mapped {s : Stmt} (h : VarDecl ts s) (hts : R.Carries f ts) :
    ∃ s', VarDecl (ts.map f) s' ∧ s.Like R s' := by
  obtain ⟨hk, hname, hinitial, hsemicolon⟩ := h
  rw [carries_cons, carries_cons, carries_append] at hts
  rw [List.map_cons, List.map_cons, List.map_append]
  cases hinitial with
  | absent =>
      exact ⟨_, .mk (hf.is hk) (hf.is hname) .absent (hf.is hsemicolon),
        .declare (hts.2.1 _) .none⟩
  | present h =>
      obtain ⟨hequals, h⟩ := h
      have hvalue := hts.2.2.1
      rw [carries_cons] at hvalue
      obtain ⟨e', he', hlike⟩ := h.mapped hf hvalue.2
      exact ⟨_, .mk (hf.is hk) (hf.is hname) (.present (.mk (hf.is hequals) he'))
        (hf.is hsemicolon), .declare (hts.2.1 _) (.some hlike)⟩

theorem ExprStmt.mapped {s : Stmt} (h : ExprStmt ts s) (hts : R.Carries f ts) :
    ∃ s', ExprStmt (ts.map f) s' ∧ s.Like R s' := by
  obtain ⟨h, hsemicolon⟩ := h
  rw [carries_append] at hts
  obtain ⟨e', he', hlike⟩ := h.mapped hf hts.1
  rw [List.map_append]
  exact ⟨_, .mk he' (hf.is hsemicolon), .expression hlike⟩

theorem ForInitial.mapped {o : Option Stmt} (h : ForInitial ts o) (hts : R.Carries f ts) :
    ∃ o', ForInitial (ts.map f) o' ∧ Option.Rel (Stmt.Like R) o o' := by
  cases h with
  | none hsemicolon => exact ⟨_, .none (hf.is hsemicolon), .none⟩
  | varDecl h =>
      obtain ⟨s', hs', hlike⟩ := h.mapped hf hts
      exact ⟨_, .varDecl hs', .some hlike⟩
  | exprStmt h =>
      obtain ⟨s', hs', hlike⟩ := h.mapped hf hts
      exact ⟨_, .exprStmt hs', .some hlike⟩

end

/-! ## Statements -/

section
variable {rule : Dangling}

mutual

theorem Declaration.mapped (hf : Unnoticed f) {inFunction : Bool} {ts : List Token} {s : Stmt}
    (h : Declaration rule inFunction ts s) (hts : R.Carries f ts) :
    ∃ s', Declaration rule inFunction (ts.map f) s' ∧ s.Like R s' := by
  match h with
  | .functionNone hk hname h₁ h₂ hbrace hbody =>
      simp only [carries_cons] at hts
      obtain ⟨body', hbody', hlike⟩ := hbody.mapped hf hts.2.2.2.2.2
      exact ⟨_, .functionNone (hf.is hk) (hf.is hname) (hf.is h₁) (hf.is h₂) (hf.is hbrace) hbody',
        .function (hts.2.1 _) .nil hlike⟩
  | .function hk hname h₁ hparams hle h₂ hbrace hbody =>
      simp only [carries_cons, carries_append] at hts
      obtain ⟨hparams', hnames⟩ := hparams.mapped hf hts.2.2.2.1
      obtain ⟨body', hbody', hlike⟩ := hbody.mapped hf hts.2.2.2.2.2.2
      have hle' := hle
      rw [hnames.length_eq] at hle'
      simp only [List.map_cons, List.map_append]
      exact ⟨_, .function (hf.is hk) (hf.is hname) (hf.is h₁) hparams' hle' (hf.is h₂)
        (hf.is hbrace) hbody', .function (hts.2.1 _) hnames hlike⟩
  | .varDecl h =>
      obtain ⟨s', hs', hlike⟩ := h.mapped hf hts
      exact ⟨s', .varDecl hs', hlike⟩
  | .statement h =>
      obtain ⟨s', hs', hlike⟩ := h.mapped hf hts
      exact ⟨s', .statement hs', hlike⟩

theorem Statement.mapped (hf : Unnoticed f) {inFunction isOpen : Bool} {ts : List Token} {s : Stmt}
    (h : Statement rule inFunction isOpen ts s) (hts : R.Carries f ts) :
    ∃ s', Statement rule inFunction isOpen (ts.map f) s' ∧ s.Like R s' := by
  match h with
  | .block hbrace hbody =>
      rw [carries_cons] at hts
      obtain ⟨body', hbody', hlike⟩ := hbody.mapped hf hts.2
      exact ⟨_, .block (hf.is hbrace) hbody', .block hlike⟩
  | .expression h =>
      obtain ⟨s', hs', hlike⟩ := h.mapped hf hts
      exact ⟨s', .expression hs', hlike⟩
  | .forLoop hk h₁ hinitial htest h₂ hincrement h₃ hbody =>
      simp only [carries_cons, carries_append] at hts
      obtain ⟨i', hi', hlikei⟩ := hinitial.mapped hf hts.2.2.1
      obtain ⟨t', ht', hliket⟩ := htest.mapped hf hts.2.2.2.1
      obtain ⟨n', hn', hliken⟩ := hincrement.mapped hf hts.2.2.2.2.2.1
      obtain ⟨b', hb', hlikeb⟩ := hbody.mapped hf hts.2.2.2.2.2.2.2
      simp only [List.map_cons, List.map_append]
      exact ⟨_, .forLoop (hf.is hk) (hf.is h₁) hi' ht' (hf.is h₂) hn' (hf.is h₃) hb',
        forTree_like hlikei hliket hliken hlikeb⟩
  | .ifThen hk h₁ htest h₂ hthen =>
      simp only [carries_cons, carries_append] at hts
      obtain ⟨e', he', hlikee⟩ := htest.mapped hf hts.2.2.1
      obtain ⟨s', hs', hlikes⟩ := hthen.mapped hf hts.2.2.2.2
      simp only [List.map_cons, List.map_append]
      exact ⟨_, .ifThen (hf.is hk) (hf.is h₁) he' (hf.is h₂) hs', .branch hlikee hlikes .none⟩
  | .ifElse hk h₁ htest h₂ hthen hclosed hword helse =>
      simp only [carries_cons, carries_append] at hts
      obtain ⟨e', he', hlikee⟩ := htest.mapped hf hts.2.2.1
      obtain ⟨s', hs', hlikes⟩ := hthen.mapped hf hts.2.2.2.2.1
      obtain ⟨o', ho', hlikeo⟩ := helse.mapped hf hts.2.2.2.2.2.2
      simp only [List.map_cons, List.map_append]
      exact ⟨_, .ifElse (hf.is hk) (hf.is h₁) he' (hf.is h₂) hs' hclosed (hf.is hword) ho',
        .branch hlikee hlikes (.some hlikeo)⟩
  | .print hk h hsemicolon =>
      simp only [carries_cons, carries_append] at hts
      obtain ⟨e', he', hlike⟩ := h.mapped hf hts.2.1
      simp only [List.map_cons, List.map_append]
      exact ⟨_, .print (hf.is hk) he' (hf.is hsemicolon), .print hlike⟩
  | .ret hk h hsemicolon =>
      simp only [carries_cons, carries_append] at hts
      obtain ⟨o', ho', hlike⟩ := h.mapped hf hts.2.1
      simp only [List.map_cons, List.map_append]
      exact ⟨_, .ret (hf.is hk) ho' (hf.is hsemicolon), .ret (hts.1 _) hlike⟩
  | .whileLoop hk h₁ htest h₂ hbody =>
      simp only [carries_cons, carries_append] at hts
      obtain ⟨e', he', hlikee⟩ := htest.mapped hf hts.2.2.1
      obtain ⟨s', hs', hlikes⟩ := hbody.mapped hf hts.2.2.2.2
      simp only [List.map_cons, List.map_append]
      exact ⟨_, .whileLoop (hf.is hk) (hf.is h₁) he' (hf.is h₂) hs', .loop hlikee hlikes⟩

theorem Body.mapped (hf : Unnoticed f) {inFunction : Bool} {ts : List Token} {body : List Stmt}
    (h : Body rule inFunction ts body) (hts : R.Carries f ts) :
    ∃ body', Body rule inFunction (ts.map f) body' ∧ List.Forall₂ (Stmt.Like R) body body' := by
  match h with
  | .close hbrace => exact ⟨_, .close (hf.is hbrace), .nil⟩
  | .more h hbody =>
      rw [carries_append] at hts
      obtain ⟨s', hs', hlike⟩ := h.mapped hf hts.1
      obtain ⟨body', hbody', hlikes⟩ := hbody.mapped hf hts.2
      rw [List.map_append]
      exact ⟨_, .more hs' hbody', .cons hlike hlikes⟩

end

theorem Program.mapped (hf : Unnoticed f) {ts : List Token} {program : List Stmt}
    (h : Program rule ts program) (hts : R.Carries f ts) :
    ∃ program', Program rule (ts.map f) program' ∧
      List.Forall₂ (Stmt.Like R) program program' := by
  induction h with
  | empty => exact ⟨[], .empty, .nil⟩
  | more h _ ih =>
      rw [carries_append] at hts
      obtain ⟨s', hs', hlike⟩ := h.mapped hf hts.1
      obtain ⟨program', hprogram', hlikes⟩ := ih hts.2
      rw [List.map_append]
      exact ⟨_, .more hs' hprogram', .cons hlike hlikes⟩

/-- One program behind another is a program. -/
theorem Program.append {ts us : List Token} {first second : List Stmt}
    (h : Program rule ts first) (h' : Program rule us second) :
    Program rule (ts ++ us) (first ++ second) := by
  induction h with
  | empty => exact h'
  | more h _ ih =>
      rw [List.append_assoc, List.cons_append]
      exact .more h ih

end

end LoxLang.Grammar
