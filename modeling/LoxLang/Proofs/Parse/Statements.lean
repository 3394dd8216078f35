import LoxLang.Proofs.Parse.Expressions

set_option autoImplicit false

/-! # What the rules for statements read

The same for declarations and statements: the tree is well formed and made of the tokens taken, also
where faults have been passed over, and a rule that has reported nothing has taken a phrase of the
grammar with that tree. A statement that ends in an `if` without an `else` is one behind which no
`else` comes next, because the rule would have taken it; that is how an `else` gets to the nearest
`if` (`stmtRules`). -/

namespace LoxLang.Parse

open Grammar

/-! ## Parts of statements -/

section
variable {short : Prop} {c : Cursor}

/-- What it is to have read an optional expression. -/
structure ReadOption (c : Cursor) (ts : List Token) (o : Option Expr) (after : Cursor) : Prop where
  formed : Option.Rel (Expr.Like (.fitting ts)) o o
  derived : after.reported = c.reported → Maybe (Phrase .assign) ts o

theorem reads_optionalExpr (kind : Kind) :
    Reads False (ReadOption c) (unlessNext kind none (some <$> expr)) c := by
  refine reads_unlessNext (fun _ => ⟨.none, fun _ => .absent⟩) ?_
  exact reads_expr.map fun _ h => ⟨.some h.formed, fun hq => .present (h.derived hq)⟩

/-- What it is to have read an expression and the semicolon behind it. -/
structure ReadExprStmt (c : Cursor) (ts : List Token) (e : Expr) (after : Cursor) : Prop where
  nonempty : 0 < ts.length
  formed : e.Like (.fitting ts) e
  derived : after.reported = c.reported →
    ∃ us semicolon, ts = us ++ [semicolon] ∧ Phrase .assign us e ∧ semicolon.kind = .semicolon

theorem reads_exprThenSemicolon (what : String) :
    Reads False (ReadExprStmt c) (exprThenSemicolon what) c := by
  refine Reads.bind reads_expr ?_
  intro ts e d hts he
  refine Reads.bind (reads_expect (by decide)) ?_
  rintro _ semicolon after hsemi ⟨rfl, hkind, hq⟩
  refine reads_pure ⟨by simp, ?_, fun hquiet => ?_⟩
  · exact he.formed.within (by simp +contextual)
  · exact ⟨ts, semicolon, by simp, he.derived (hts.quiet hsemi hquiet).1, hkind⟩

/-- What it is to have read the declaration of a variable, behind the keyword. -/
structure ReadVariable (c : Cursor) (ts : List Token) (s : Stmt) (after : Cursor) : Prop where
  formed : s.Like (.fitting ts) s
  derived : after.reported = c.reported →
    ∀ {keyword : Token}, keyword.kind = .kwVar → VarDecl (keyword :: ts) s

theorem reads_variableDeclaration : Reads False (ReadVariable c) variableDeclaration c := by
  refine Reads.bind (reads_expect (by decide)) ?_
  rintro _ name d hname ⟨rfl, hkind, hq⟩
  have hinitial : Reads False (fun ts o after => Option.Rel (Expr.Like (.fitting ts)) o o ∧
      (after.reported = d.reported → Maybe Initial ts o)) (behind .equal none (some <$> expr)) d := by
    refine reads_behind (by decide) (fun _ => ⟨.none, fun _ => .absent⟩) ?_
    intro equals d' hequals hd' hq'
    refine reads_expr.map fun {ts e after} hts h => ⟨.some ?_, fun hquiet => .present ?_⟩
    · exact h.formed.within (by simp +contextual)
    · exact .mk hequals (h.derived (hd'.quiet hts hquiet).2)
  refine Reads.bind hinitial ?_
  rintro ts initial d' hts ⟨hformed, hderived⟩
  refine Reads.bind (reads_expect (by decide)) ?_
  rintro _ semicolon after hsemi ⟨rfl, hkind', hq'⟩
  refine reads_pure ⟨.declare ⟨rfl, by simp, by rw [hkind]; rfl⟩ ?_, fun hquiet => ?_⟩
  · exact Expr.likeOption_mono (Likeness.fitting_le (by simp +contextual)) hformed
  · intro keyword hkeyword
    obtain ⟨hq₁, -⟩ := (hname.trans hts).quiet hsemi hquiet
    simpa using VarDecl.mk hkeyword hkind (hderived (hname.quiet hts hq₁).2) hkind'

/-- What it is to have read a `return` statement, behind the keyword. -/
structure ReadReturn (keyword : Token) (inFunction : Bool) (c : Cursor) (ts : List Token) (s : Stmt)
    (after : Cursor) : Prop where
  formed : keyword.kind = .kwReturn → s.Like (.fitting (keyword :: ts)) s
  derived : after.reported = c.reported → keyword.kind = .kwReturn →
    Statement .nearest inFunction false (keyword :: ts) s

theorem reads_returnStatement (keyword : Token) (inFunction : Bool) :
    Reads False (ReadReturn keyword inFunction c) (returnStatement keyword inFunction) c := by
  have hcheck : Reads False (fun ts _ after => ts = [] ∧ after.rest = c.rest ∧
      (after.reported = c.reported → inFunction = true)) (checkReturn keyword inFunction) c := by
    unfold checkReturn
    cases inFunction with
    | true => exact reads_pure ⟨rfl, rfl, fun _ => rfl⟩
    | false => exact reads_report.mono id fun _ h => ⟨h.1, h.2.1, fun hq => absurd hq h.2.2⟩
  refine Reads.bind hcheck ?_
  rintro _ _ d hd ⟨rfl, -, hinside⟩
  refine Reads.bind (reads_optionalExpr .semicolon) ?_
  intro ts value d' hts hvalue
  refine Reads.bind (reads_expect (by decide)) ?_
  rintro _ semicolon after hsemi ⟨rfl, hkind, hq⟩
  refine reads_pure ⟨fun hk => .ret ⟨rfl, by simp, by rw [hk]; rfl⟩ ?_, fun hquiet hk => ?_⟩
  · exact Expr.likeOption_mono (Likeness.fitting_le (by simp +contextual)) hvalue.formed
  · obtain ⟨hq₁, -⟩ := (hd.trans hts).quiet hsemi hquiet
    obtain ⟨hq₂, hq₃⟩ := hd.quiet hts hq₁
    obtain rfl := hinside hq₂
    simpa using Statement.ret hk (hvalue.derived hq₃) hkind

/-- What it is to have read a condition in parentheses. -/
structure ReadCondition (c : Cursor) (ts : List Token) (e : Expr) (after : Cursor) : Prop where
  formed : e.Like (.fitting ts) e
  derived : after.reported = c.reported → ∃ opening us closing,
    ts = opening :: (us ++ [closing]) ∧ opening.kind = .leftParen ∧ Phrase .assign us e ∧
      closing.kind = .rightParen

theorem reads_condition (first last : String) :
    Reads False (ReadCondition c) (condition first last) c := by
  refine Reads.bind (reads_expect (by decide)) ?_
  rintro _ opening d hopening ⟨rfl, hkind, hq⟩
  refine Reads.bind reads_expr ?_
  intro ts e d' hts he
  refine Reads.bind (reads_expect (by decide)) ?_
  rintro _ closing after hclosing ⟨rfl, hkind', hq'⟩
  refine reads_pure ⟨he.formed.within (by simp +contextual), fun hquiet => ?_⟩
  obtain ⟨hq₁, -⟩ := (hopening.trans hts).quiet hclosing hquiet
  exact ⟨opening, ts, closing, by simp, hkind, he.derived (hopening.quiet hts hq₁).2, hkind'⟩

end

/-! ## Functions -/

/-- What it is to have read parameters when `count` have been read already. -/
structure ReadParams (count : Nat) (c : Cursor) (ts params : List Token) (after : Cursor) :
    Prop where
  formed : List.Forall₂ ((Likeness.fitting ts).token .name) params params
  derived : after.reported = c.reported → Parameters ts params
  bounded : after.reported = c.reported → count ≤ 8 → count + params.length ≤ 8

theorem reads_parameters (n count : Nat) (c : Cursor) :
    Reads (n < c.rest.length + 1) (ReadParams count c) (parameters n count) c := by
  induction n generalizing count c with
  | zero =>
      rw [parameters]
      exact reads_overBudget (by omega)
  | succ n ih =>
      rw [parameters]
      refine Reads.bind reads_checkCount ?_
      rintro _ _ d hd ⟨rfl, hrest, hcount⟩
      refine Reads.bind (reads_expect (by decide)) ?_
      rintro _ param d₁ hd₁ ⟨rfl, hkind, hq⟩
      have hl := (hd.trans hd₁).length
      simp only [List.nil_append, List.length_cons, List.length_nil] at hl
      have hmore : Reads (n + 1 < c.rest.length + 1)
          (fun us more after => (us = [] ∧ more = [] ∧ after = d₁) ∨
            ∃ comma vs d₂, us = comma :: vs ∧ comma.kind = .comma ∧ Took [comma] d₁ d₂ ∧
              Took vs d₂ after ∧ ReadParams (count + 1) d₂ vs more after)
          (behind .comma [] (parameters n (count + 1))) d₁ := by
        refine reads_behind (by decide) (fun _ => Or.inl ⟨rfl, rfl, rfl⟩) ?_
        intro comma d₂ hcomma hd₂ _
        have hl₂ := hd₂.length
        refine (ih (count + 1) d₂).mono (fun h => by omega) ?_
        intro vs more after hvs hread
        exact Or.inr ⟨comma, vs, d₂, rfl, hcomma, hd₂, hvs, hread⟩
      refine Reads.bind hmore ?_
      rintro us more after hus (⟨rfl, rfl, rfl⟩ | ⟨comma, vs, d₂, rfl, hcomma, hd₂, hvs, hread⟩)
      · refine reads_pure ⟨.cons ⟨rfl, by simp, by rw [hkind]; rfl⟩ .nil, fun _ => .last hkind, ?_⟩
        intro hquiet hle
        have hcount' := hcount (hd.quiet hd₁ hquiet).1
        simp only [maxArguments] at hcount'
        simp only [List.length_cons, List.length_nil]
        omega
      · refine reads_pure ⟨.cons ⟨rfl, by simp, by rw [hkind]; rfl⟩ ?_, fun hquiet => ?_, ?_⟩
        · refine hread.formed.imp fun t u h => ?_
          exact (Likeness.fitting_le (by simp +contextual)).token h
        · obtain ⟨-, hq₂⟩ := ((hd.trans hd₁).trans hd₂).quiet hvs hquiet
          simpa using Parameters.more hkind hcomma (hread.derived hq₂)
        · intro hquiet hle
          obtain ⟨hq₁, hq₂⟩ := ((hd.trans hd₁).trans hd₂).quiet hvs hquiet
          obtain ⟨hq₃, -⟩ := (hd.trans hd₁).quiet hd₂ hq₁
          have hcount' := hcount (hd.quiet hd₁ hq₃).1
          simp only [maxArguments] at hcount'
          have hbound := hread.bounded hq₂ (by omega)
          simp only [List.length_cons]
          omega

/-- What it is to have read the head of a function, behind the keyword. -/
structure ReadHead (c : Cursor) (ts : List Token) (head : Token × List Token) (after : Cursor) :
    Prop where
  name : (Likeness.fitting ts).token .name head.1 head.1
  params : List.Forall₂ ((Likeness.fitting ts).token .name) head.2 head.2
  derived : after.reported = c.reported →
    ∀ {inFunction : Bool} {keyword : Token} {us : List Token} {body : List Stmt},
      keyword.kind = .kwFun → Body .nearest true us body →
      Declaration .nearest inFunction (keyword :: (ts ++ us)) (.function head.1 head.2 body)

theorem reads_functionHead {c : Cursor} : Reads False (ReadHead c) functionHead c := by
  refine Reads.bind (reads_expect (by decide)) ?_
  rintro _ name d₁ hname ⟨rfl, hk₁, -⟩
  refine Reads.bind (reads_expect (by decide)) ?_
  rintro _ opening d₂ hopening ⟨rfl, hk₂, -⟩
  have hparams : Reads False
      (fun ts params after => (ts = [] ∧ params = [] ∧ after = d₂) ∨ ReadParams 0 d₂ ts params after)
      (unlessNext .rightParen [] fun cursor => parameters (budget cursor) 0 cursor) d₂ := by
    refine reads_unlessNext (fun _ => Or.inl ⟨rfl, rfl, rfl⟩) ?_
    refine Reads.congr ((reads_parameters (budget d₂) 0 d₂).mono (fun h => ?_) ?_) rfl
    · simp only [budget] at h
      omega
    · exact fun _ h => Or.inr h
  refine Reads.bind hparams ?_
  intro ts params d₃ hts hread
  refine Reads.bind (reads_expect (by decide)) ?_
  rintro _ closing d₄ hclosing ⟨rfl, hk₃, -⟩
  refine Reads.bind (reads_expect (by decide)) ?_
  rintro _ brace after hbrace ⟨rfl, hk₄, -⟩
  refine reads_pure ⟨⟨rfl, by simp, by rw [hk₁]; rfl⟩, ?_, fun hquiet => ?_⟩
  · rcases hread with ⟨rfl, rfl, rfl⟩ | hread
    · exact .nil
    · refine hread.formed.imp fun t u h => ?_
      exact (Likeness.fitting_le (by simp +contextual)).token h
  · intro inFunction keyword us body hkeyword hbody
    obtain ⟨hq₁, -⟩ := (((hname.trans hopening).trans hts).trans hclosing).quiet hbrace hquiet
    obtain ⟨hq₂, -⟩ := ((hname.trans hopening).trans hts).quiet hclosing hq₁
    obtain ⟨-, hq₃⟩ := (hname.trans hopening).quiet hts hq₂
    rcases hread with ⟨rfl, rfl, rfl⟩ | hread
    · simpa using Declaration.functionNone hkeyword hk₁ hk₂ hk₃ hk₄ hbody
    · have hbound := hread.bounded hq₃ (Nat.zero_le 8)
      simpa using Declaration.function hkeyword hk₁ hk₂ (hread.derived hq₃) (by omega) hk₃ hk₄ hbody

/-! ## Loops over a counter -/

theorem forClauses_loop (clauses : ForClauses) (body : Stmt) :
    clauses.loop body = forTree clauses.initial clauses.condition clauses.increment body := by
  obtain ⟨initial, condition, increment⟩ := clauses
  cases initial <;> cases increment <;> rfl

/-- What it is to have read what a `for` loop starts with. -/
structure ReadInitial (c : Cursor) (ts : List Token) (o : Option Stmt) (after : Cursor) :
    Prop where
  formed : Option.Rel (Stmt.Like (.fitting ts)) o o
  derived : after.reported = c.reported → ForInitial ts o

theorem reads_forInitial {c : Cursor} : Reads False (ReadInitial c) forInitial c := by
  refine reads_peek_bind fun {t more} h => ?_
  split
  · next hk =>
      refine reads_skip_bind h (by rw [hk]; decide) fun _ => reads_pure ?_
      exact ⟨.none, fun _ => .none hk⟩
  · next hk =>
      refine reads_skip_bind h (by rw [hk]; decide) fun hd => ?_
      refine reads_variableDeclaration.map fun {ts s after} hts hs => ⟨.some ?_, fun hquiet => ?_⟩
      · exact hs.formed.within (by simp +contextual)
      · exact .varDecl (hs.derived (hd.quiet hts hquiet).2 hk)
  · refine (reads_exprThenSemicolon _).map fun {ts e after} hts he => ⟨?_, fun hquiet => ?_⟩
    · exact .some (.expression he.formed)
    · obtain ⟨us, semicolon, rfl, hphrase, hkind⟩ := he.derived hquiet
      exact .exprStmt (.mk hphrase hkind)

/-- What it is to have read the clauses of a `for` loop, behind the keyword. -/
structure ReadClauses (c : Cursor) (ts : List Token) (clauses : ForClauses) (after : Cursor) :
    Prop where
  formed : ∀ {us : List Token} {body : Stmt}, body.Like (.fitting us) body →
    (clauses.loop body).Like (.fitting (ts ++ us)) (clauses.loop body)
  derived : after.reported = c.reported →
    ∀ {inFunction isOpen : Bool} {keyword : Token} {us : List Token} {body : Stmt},
      keyword.kind = .kwFor → Statement .nearest inFunction isOpen us body →
      Statement .nearest inFunction isOpen (keyword :: (ts ++ us)) (clauses.loop body)

/-- The tree of a `for` loop is well formed if its parts are. -/
theorem reads_forClauses {c : Cursor} : Reads False (ReadClauses c) forClauses c := by
  refine Reads.bind (reads_expect (by decide)) ?_
  rintro _ opening d₁ hopening ⟨rfl, hk₁, -⟩
  refine Reads.bind reads_forInitial ?_
  intro ts initial d₂ hts hinitial
  refine Reads.bind (reads_optionalExpr .semicolon) ?_
  intro us condition d₃ hus hcondition
  refine Reads.bind (reads_expect (by decide)) ?_
  rintro _ semicolon d₄ hsemi ⟨rfl, hk₂, -⟩
  refine Reads.bind (reads_optionalExpr .rightParen) ?_
  intro vs increment d₅ hvs hincrement
  refine Reads.bind (reads_expect (by decide)) ?_
  rintro _ closing after hclosing ⟨rfl, hk₃, -⟩
  refine reads_pure ⟨fun {ws body} hbody => ?_, fun hquiet => ?_⟩
  · have hle {xs : List Token} (h : ∀ t ∈ xs, t ∈ [opening] ++ (ts ++ (us ++ ([semicolon] ++
        (vs ++ ([closing] ++ []))))) ++ ws) := Likeness.fitting_le h
    rw [forClauses_loop]
    refine forTree_like ?_ ?_ ?_ (hbody.mono (hle (by simp +contextual)))
    · exact Stmt.likeOption_mono (hle (by simp +contextual)) hinitial.formed
    · exact Expr.likeOption_mono (hle (by simp +contextual)) hcondition.formed
    · exact Expr.likeOption_mono (hle (by simp +contextual)) hincrement.formed
  · intro inFunction isOpen keyword ws body hkeyword hbody
    -- the parts are quiet if the whole is
    have h₂ := hopening.trans hts
    have h₃ := h₂.trans hus
    have h₄ := h₃.trans hsemi
    have h₅ := h₄.trans hvs
    obtain ⟨hq₅, -⟩ := h₅.quiet hclosing hquiet
    obtain ⟨hq₄, hqv⟩ := h₄.quiet hvs hq₅
    obtain ⟨hq₃, -⟩ := h₃.quiet hsemi hq₄
    obtain ⟨hq₂, hqu⟩ := h₂.quiet hus hq₃
    obtain ⟨-, hqt⟩ := hopening.quiet hts hq₂
    rw [forClauses_loop]
    simpa using Statement.forLoop hkeyword hk₁ (hinitial.derived hqt) (hcondition.derived hqu) hk₂
      (hincrement.derived hqv) hk₃ hbody

/-! ## Recovery -/

/-- The next boundary is ahead, and no end of input is before it. -/
theorem boundary?_eq_some {previous : Kind} {ts rest : List Token}
    (h : boundary? previous ts = some rest) : ∃ us, ts = us ++ rest ∧ Inner us := by
  induction ts generalizing previous with
  | nil => simp [boundary?] at h
  | cons t more ih =>
      rw [boundary?] at h
      split at h
      · obtain rfl := Option.some.inj h
        exact ⟨[], rfl, inner_nil⟩
      · next hstop =>
          obtain ⟨us, rfl, hus⟩ := ih h
          refine ⟨t :: us, rfl, inner_cons.mpr ⟨fun he => ?_, hus⟩⟩
          exact hstop (by simp [he])

/-- The end of input is a boundary. -/
theorem boundary?_eq_none {previous : Kind} {ts : List Token} (h : boundary? previous ts = none) :
    Inner ts := by
  induction ts generalizing previous with
  | nil => exact inner_nil
  | cons t more ih =>
      rw [boundary?] at h
      split at h
      · simp at h
      · next hstop =>
          refine inner_cons.mpr ⟨fun he => ?_, ih h⟩
          exact hstop (by simp [he])

/-- Going to the next boundary reports nothing, and passes at least one token unless the input is at
its end. -/
theorem reads_sync {c : Cursor} :
    Reads False (fun ts _ after => after.reported = c.reported ∧
      ∀ t more, c.rest = t :: more → t.kind ≠ .endOfInput → 0 < ts.length) sync c := by
  unfold Reads sync
  cases hrest : c.rest with
  | nil =>
      refine ⟨⟨[], Took.refl c⟩, fun _ => ?_, fun ho => by simp at ho⟩
      rw [hrest]
      exact inner_nil
  | cons t more =>
      dsimp only
      by_cases ht : t.kind = .endOfInput
      · rw [if_pos (beq_iff_eq.mpr ht)]
        refine ⟨[], ⟨hrest, inner_nil, List.prefix_rfl⟩, rfl, ?_⟩
        intro u us h hu
        cases h
        exact absurd ht hu
      · rw [if_neg (fun hc => ht (beq_iff_eq.mp hc))]
        cases hb : boundary? t.kind more with
        | some rest =>
            obtain ⟨us, rfl, hus⟩ := boundary?_eq_some hb
            have htook : Took (t :: us) c { c with rest } :=
              ⟨hrest, inner_cons.mpr ⟨ht, hus⟩, List.prefix_rfl⟩
            exact ⟨t :: us, htook, rfl, fun _ _ _ _ => by simp⟩
        | none =>
            refine ⟨⟨[], Took.refl c⟩, fun _ => ?_, fun ho => by simp at ho⟩
            rw [hrest]
            exact inner_cons.mpr ⟨ht, boundary?_eq_none hb⟩

/-- A declaration that may be given up passes at least one token, if it starts before the end of
input, and it is given up only with a report. -/
theorem reads_orSync {short : Prop} {good : List Token → Stmt → Cursor → Prop} {decl : Rule Stmt}
    {c : Cursor} (hdecl : Reads short (fun ts s after => 0 < ts.length ∧ good ts s after) decl c)
    (hnext : ∃ t more, c.rest = t :: more ∧ t.kind ≠ .endOfInput) :
    Reads short (fun ts o after => 0 < ts.length ∧
      ((∃ s, o = some s ∧ good ts s after) ∨ o = none ∧ after.reported ≠ c.reported))
      (orSync decl) c := by
  unfold Reads at hdecl ⊢
  unfold orSync
  cases hd : decl c with
  | ok s after =>
      rw [hd] at hdecl
      obtain ⟨ts, htook, hne, hgood⟩ := hdecl
      exact ⟨ts, htook, hne, Or.inl ⟨s, rfl, hgood⟩⟩
  | error halt after =>
      rw [hd] at hdecl
      cases halt with
      | ranOut => exact hdecl
      | overBudget => exact hdecl
      | fault diagnostic =>
          obtain ⟨ts, hts⟩ := hdecl.took
          have htook : Took ts c { after with reported := after.reported ++ [diagnostic] } :=
            ⟨hts.rest, hts.inner, hts.reported.trans (List.prefix_append _ _)⟩
          have hsync := reads_sync (c := { after with reported := after.reported ++ [diagnostic] })
          unfold Reads at hsync
          dsimp only
          cases hs : sync { after with reported := after.reported ++ [diagnostic] } with
          | error halt last =>
              rw [hs] at hsync
              have hhalts := hsync.after htook
              exact ⟨hhalts.took, hhalts.ranOut, fun ho => absurd (hhalts.overBudget ho) id⟩
          | ok _ last =>
              rw [hs] at hsync
              obtain ⟨us, hus, hquiet, hpass⟩ := hsync
              refine ⟨ts ++ us, htook.trans hus, ?_, Or.inr ⟨rfl, ?_⟩⟩
              · cases ts with
                | cons t ts => simp
                | nil =>
                    -- the declaration has not moved, so the boundary is at least a token away
                    obtain ⟨t, more, hrest, ht⟩ := hnext
                    have hrest' : after.rest = t :: more := by rw [← hrest, hts.rest]; rfl
                    simpa using hpass t more hrest' ht
              · rw [hquiet]
                intro heq
                have hlen := hts.reported.length_le
                rw [← heq] at hlen
                simp only [List.length_append, List.length_cons, List.length_nil] at hlen
                omega

/-! ## The statement for each rule -/

/-- What it is to have read a declaration. -/
structure ReadDecl (inFunction : Bool) (c : Cursor) (ts : List Token) (s : Stmt)
    (after : Cursor) : Prop where
  formed : s.Like (.fitting ts) s
  derived : after.reported = c.reported → Declaration .nearest inFunction ts s

/-- What it is to have read a statement. -/
structure ReadStmt (inFunction : Bool) (c : Cursor) (ts : List Token) (s : Stmt)
    (after : Cursor) : Prop where
  formed : s.Like (.fitting ts) s
  derived : after.reported = c.reported → ∃ isOpen,
    Statement .nearest inFunction isOpen ts s ∧
      (isOpen = true → ∃ t more, after.rest = t :: more ∧ t.kind ≠ .kwElse)

/-- What it is to have read the rest of a block, behind the opening brace. -/
structure ReadBody (inFunction : Bool) (c : Cursor) (ts : List Token) (body : List Stmt)
    (after : Cursor) : Prop where
  formed : List.Forall₂ (Stmt.Like (.fitting ts)) body body
  derived : after.reported = c.reported → Body .nearest inFunction ts body

/-- All rules for statements with a budget of `n`. -/
structure StmtRules (n : Nat) : Prop where
  declaration : ∀ (inFunction : Bool) (c : Cursor),
    Reads (n < 16 * c.rest.length + 2)
      (fun ts s after => 0 < ts.length ∧ ReadDecl inFunction c ts s after)
      (declaration n inFunction) c
  statement : ∀ (inFunction : Bool) (c : Cursor),
    Reads (n < 16 * c.rest.length + 1)
      (fun ts s after => 0 < ts.length ∧ ReadStmt inFunction c ts s after)
      (statement n inFunction) c
  block : ∀ (inFunction : Bool) (c : Cursor),
    Reads (n < 16 * c.rest.length + 3) (ReadBody inFunction c) (block n inFunction) c

/-! ## One rule at a time -/

section
variable {n : Nat} (ih : StmtRules n) (inFunction : Bool) (c : Cursor)

include ih

theorem declaration_step :
    Reads (n + 1 < 16 * c.rest.length + 2)
      (fun ts s after => 0 < ts.length ∧ ReadDecl inFunction c ts s after)
      (declaration (n + 1) inFunction) c := by
  rw [declaration]
  refine reads_peek_bind fun {t more} h => ?_
  have hl : c.rest.length = more.length + 1 := by rw [h, List.length_cons]
  split
  · next hk =>
      refine reads_skip_bind h (by rw [hk]; decide) fun hd => ?_
      refine Reads.bind (reads_functionHead.mono False.elim (fun _ h => h)) ?_
      rintro ts ⟨name, params⟩ d hts hhead
      have hl' : more.length = ts.length + d.rest.length := hts.length
      refine Reads.bind ((ih.block true d).mono (fun h => by omega) (fun _ h => h)) ?_
      intro us body after hus hbody
      refine reads_pure ⟨by simp, .function ?_ ?_ ?_, fun hquiet => ?_⟩
      · exact (Likeness.fitting_le (by simp +contextual)).token hhead.name
      · refine hhead.params.imp fun t u h => ?_
        exact (Likeness.fitting_le (by simp +contextual)).token h
      · exact Stmt.likeAll_mono (Likeness.fitting_le (by simp +contextual)) hbody.formed
      · obtain ⟨hq₁, hq₂⟩ := (hd.trans hts).quiet hus hquiet
        simpa using hhead.derived (hd.quiet hts hq₁).2 hk (hbody.derived hq₂)
  · next hk =>
      refine reads_skip_bind h (by rw [hk]; decide) fun hd => ?_
      refine reads_variableDeclaration.mono False.elim ?_
      intro ts s after hts hs
      refine ⟨by simp, hs.formed.within (by simp +contextual), fun hquiet => ?_⟩
      exact .varDecl (hs.derived (hd.quiet hts hquiet).2 hk)
  · refine (ih.statement inFunction c).mono (fun h => by omega) ?_
    rintro ts s after hts ⟨hne, hs⟩
    refine ⟨hne, hs.formed, fun hquiet => ?_⟩
    obtain ⟨isOpen, hstmt, -⟩ := hs.derived hquiet
    exact .statement hstmt

/-- What stands behind an `if`. The `else` is taken if it comes next, so the first branch does not
end in an `if` without one when there is an `else`. -/
theorem branch_step {keyword : Token} {d : Cursor} (hk : keyword.kind = .kwIf)
    (hkeyword : Took [keyword] c d) (first last : String) :
    Reads (n + 1 < 16 * c.rest.length + 1)
      (fun ts s after => 0 < (keyword :: ts).length ∧ ReadStmt inFunction c (keyword :: ts) s after)
      (do
        let test ← condition first last
        let thenDo ← statement n inFunction
        let elseDo ← behind .kwElse none (some <$> statement n inFunction)
        return .branch test thenDo elseDo) d := by
  have hl := hkeyword.length
  simp only [List.length_cons, List.length_nil] at hl
  refine Reads.bind ((reads_condition first last).mono False.elim (fun _ h => h)) ?_
  intro ts test d₁ hts htest
  have hl₁ := hts.length
  refine Reads.bind ((ih.statement inFunction d₁).mono (fun h => by omega) (fun _ h => h)) ?_
  rintro us thenDo d₂ hus ⟨-, hthen⟩
  have hl₂ := hus.length
  have helse : Reads (n + 1 < 16 * c.rest.length + 1)
      (fun ts o after =>
        (ts = [] ∧ o = none ∧ after = d₂ ∧ ∃ t more, d₂.rest = t :: more ∧ t.kind ≠ .kwElse) ∨
        ∃ word vs d₃ elseDo, ts = word :: vs ∧ o = some elseDo ∧ word.kind = .kwElse ∧
          Took [word] d₂ d₃ ∧ Took vs d₃ after ∧ ReadStmt inFunction d₃ vs elseDo after)
      (behind .kwElse none (some <$> statement n inFunction)) d₂ := by
    refine reads_behind (by decide) (fun hnext => Or.inl ⟨rfl, rfl, rfl, hnext⟩) ?_
    intro word d₃ hword hd₃ _
    have hl₃ := hd₃.length
    refine ((ih.statement inFunction d₃).mono (fun h => by omega) (fun _ h => h)).map ?_
    rintro vs elseDo after hvs ⟨-, hread⟩
    exact Or.inr ⟨word, vs, d₃, elseDo, rfl, rfl, hword, hd₃, hvs, hread⟩
  refine Reads.bind helse ?_
  have hbefore := (hkeyword.trans hts).trans hus
  rintro ws o after hws (⟨rfl, rfl, rfl, hnext⟩ |
    ⟨word, vs, d₃, elseDo, rfl, rfl, hword, hd₃, hvs, hread⟩)
  · refine reads_pure ⟨by simp, .branch ?_ ?_ .none, fun hquiet => ⟨true, ?_, fun _ => hnext⟩⟩
    · exact htest.formed.within (by simp +contextual)
    · exact hthen.formed.within (by simp +contextual)
    · obtain ⟨hq₁, hq₂⟩ := (hkeyword.trans hts).quiet hus hquiet
      obtain ⟨opening, ts, closing, rfl, ho, hphrase, hc⟩ := htest.derived (hkeyword.quiet hts hq₁).2
      obtain ⟨isOpen, hstmt, -⟩ := hthen.derived hq₂
      simpa using Statement.ifThen hk ho hphrase hc hstmt
  · refine reads_pure ⟨by simp, .branch ?_ ?_ (.some ?_), fun hquiet => ?_⟩
    · exact htest.formed.within (by simp +contextual)
    · exact hthen.formed.within (by simp +contextual)
    · exact hread.formed.within (by simp +contextual)
    · obtain ⟨hq₁, hq₂⟩ := (hbefore.trans hd₃).quiet hvs hquiet
      obtain ⟨hq₃, -⟩ := hbefore.quiet hd₃ hq₁
      obtain ⟨hq₄, hq₅⟩ := (hkeyword.trans hts).quiet hus hq₃
      obtain ⟨opening, ts, closing, rfl, ho, hphrase, hc⟩ := htest.derived (hkeyword.quiet hts hq₄).2
      obtain ⟨thenOpen, hstmt, hnext⟩ := hthen.derived hq₅
      obtain ⟨isOpen, hstmt', hnext'⟩ := hread.derived hq₂
      refine ⟨isOpen, ?_, hnext'⟩
      have hclosed : thenOpen = false := by
        by_contra hopen
        obtain ⟨t, more, hrest, ht⟩ := hnext (by simpa using hopen)
        rw [hd₃.rest] at hrest
        cases hrest
        exact ht hword
      simpa using Statement.ifElse hk ho hphrase hc hstmt (fun _ => hclosed) hword hstmt'

theorem statement_step :
    Reads (n + 1 < 16 * c.rest.length + 1)
      (fun ts s after => 0 < ts.length ∧ ReadStmt inFunction c ts s after)
      (statement (n + 1) inFunction) c := by
  rw [statement]
  refine reads_peek_bind fun {t more} h => ?_
  have hl : c.rest.length = more.length + 1 := by rw [h, List.length_cons]
  split
  · next hk =>
      refine reads_skip_bind h (by rw [hk]; decide) fun hd => ?_
      refine Reads.bind (reads_forClauses.mono False.elim (fun _ h => h)) ?_
      intro ts clauses d hts hclauses
      have hl' : more.length = ts.length + d.rest.length := hts.length
      refine Reads.bind ((ih.statement inFunction d).mono (fun h => by omega) (fun _ h => h)) ?_
      rintro us body after hus ⟨-, hbody⟩
      refine reads_pure ⟨by simp, ?_, fun hquiet => ?_⟩
      · exact (hclauses.formed hbody.formed).within (by simp +contextual)
      · obtain ⟨hq₁, hq₂⟩ := (hd.trans hts).quiet hus hquiet
        obtain ⟨isOpen, hstmt, hnext⟩ := hbody.derived hq₂
        exact ⟨isOpen, by simpa using hclauses.derived (hd.quiet hts hq₁).2 hk hstmt, hnext⟩
  · next hk =>
      refine reads_skip_bind h (by rw [hk]; decide) fun hd => ?_
      exact branch_step ih inFunction c hk hd _ _
  · next hk =>
      refine reads_skip_bind h (by rw [hk]; decide) fun hd => ?_
      refine Reads.bind ((reads_exprThenSemicolon _).mono False.elim (fun _ h => h)) ?_
      intro ts e after hts he
      refine reads_pure ⟨by simp, .print (he.formed.within (by simp +contextual)), ?_⟩
      intro hquiet
      obtain ⟨us, semicolon, rfl, hphrase, hkind⟩ := he.derived (hd.quiet hts hquiet).2
      exact ⟨false, by simpa using Statement.print hk hphrase hkind, by simp⟩
  · next hk =>
      refine reads_skip_bind h (by rw [hk]; decide) fun hd => ?_
      refine (reads_returnStatement t inFunction).mono False.elim ?_
      intro ts s after hts hs
      refine ⟨by simp, hs.formed hk, fun hquiet => ⟨false, ?_, by simp⟩⟩
      exact hs.derived (hd.quiet hts hquiet).2 hk
  · next hk =>
      refine reads_skip_bind h (by rw [hk]; decide) fun hd => ?_
      refine Reads.bind ((reads_condition _ _).mono False.elim (fun _ h => h)) ?_
      intro ts test d hts htest
      have hl' : more.length = ts.length + d.rest.length := hts.length
      refine Reads.bind ((ih.statement inFunction d).mono (fun h => by omega) (fun _ h => h)) ?_
      rintro us body after hus ⟨-, hbody⟩
      refine reads_pure ⟨by simp, .loop ?_ ?_, fun hquiet => ?_⟩
      · exact htest.formed.within (by simp +contextual)
      · exact hbody.formed.within (by simp +contextual)
      · obtain ⟨hq₁, hq₂⟩ := (hd.trans hts).quiet hus hquiet
        obtain ⟨opening, ts, closing, rfl, ho, hphrase, hc⟩ := htest.derived (hd.quiet hts hq₁).2
        obtain ⟨isOpen, hstmt, hnext⟩ := hbody.derived hq₂
        exact ⟨isOpen, by simpa using Statement.whileLoop hk ho hphrase hc hstmt, hnext⟩
  · next hk =>
      refine reads_skip_bind h (by rw [hk]; decide) fun hd => ?_
      have hshort : n < 16 * more.length + 3 → n + 1 < 16 * c.rest.length + 1 := by omega
      refine Reads.bind ((ih.block inFunction _).mono hshort (fun _ h => h)) ?_
      intro ts body after hts hbody
      refine reads_pure ⟨by simp, .block ?_, fun hquiet => ⟨false, ?_, by simp⟩⟩
      · exact Stmt.likeAll_mono (Likeness.fitting_le (by simp +contextual)) hbody.formed
      · simpa using Statement.block hk (hbody.derived (hd.quiet hts hquiet).2)
  · refine Reads.bind ((reads_exprThenSemicolon _).mono False.elim (fun _ h => h)) ?_
    intro ts e after hts he
    refine reads_pure ⟨by simpa using he.nonempty, .expression ?_, fun hquiet => ?_⟩
    · exact he.formed.within (by simp +contextual)
    · obtain ⟨us, semicolon, rfl, hphrase, hkind⟩ := he.derived hquiet
      exact ⟨false, by simpa using Statement.expression (.mk hphrase hkind), by simp⟩

theorem block_step :
    Reads (n + 1 < 16 * c.rest.length + 3) (ReadBody inFunction c) (block (n + 1) inFunction) c := by
  rw [block]
  refine reads_peek_bind fun {t more} h => ?_
  split
  · refine Reads.bind (reads_expect (by decide)) ?_
    rintro _ brace after hbrace ⟨rfl, hkind, -⟩
    exact reads_pure ⟨.nil, fun _ => .close hkind⟩
  · next hstop =>
      have ht : t.kind ≠ .endOfInput := fun he => hstop (by simp [he])
      refine Reads.bind (reads_orSync ((ih.declaration inFunction c).mono (fun h => by omega)
        (fun _ h => h)) ⟨t, more, h, ht⟩) ?_
      rintro ts o d hts ⟨hne, hdecl⟩
      have hl := hts.length
      refine Reads.bind ((ih.block inFunction d).mono (fun h => by omega) (fun _ h => h)) ?_
      intro us body after hus hbody
      have hbody' : List.Forall₂ (Stmt.Like (.fitting (ts ++ us))) body body :=
        Stmt.likeAll_mono (Likeness.fitting_le (by simp +contextual)) hbody.formed
      rcases hdecl with ⟨s, rfl, hs⟩ | ⟨rfl, hloud⟩
      · refine reads_pure ⟨?_, fun hquiet => ?_⟩
        · rw [List.append_nil]
          exact .cons (hs.formed.within (by simp +contextual)) hbody'
        · obtain ⟨hq₁, hq₂⟩ := hts.quiet hus hquiet
          simpa using Body.more (hs.derived hq₁) (hbody.derived hq₂)
      · refine reads_pure ⟨?_, fun hquiet => absurd (hts.quiet hus hquiet).1 hloud⟩
        rw [List.append_nil]
        exact hbody'

end

/-! ## All rules together -/

theorem stmtRules (n : Nat) : StmtRules n := by
  induction n with
  | zero =>
      constructor
      · intro inFunction c
        rw [declaration]
        exact reads_overBudget (by omega)
      · intro inFunction c
        rw [statement]
        exact reads_overBudget (by omega)
      · intro inFunction c
        rw [block]
        exact reads_overBudget (by omega)
  | succ n ih =>
      exact
        { declaration := declaration_step ih
          statement := statement_step ih
          block := block_step ih }

/-- What it is to have read a program. -/
structure ReadProgram (c : Cursor) (ts : List Token) (program : List Stmt) (after : Cursor) :
    Prop where
  formed : List.Forall₂ (Stmt.Like (.fitting ts)) program program
  derived : after.reported = c.reported → Program .nearest ts program
  atEnd : ∃ t more, after.rest = t :: more ∧ t.kind = .endOfInput

theorem reads_program (n : Nat) (c : Cursor) :
    Reads (n < 16 * c.rest.length + 3) (ReadProgram c) (program n) c := by
  induction n generalizing c with
  | zero =>
      rw [program]
      exact reads_overBudget (by omega)
  | succ n ih =>
      rw [program]
      refine Reads.bind (reads_sees .endOfInput) ?_
      rintro _ b d hd ⟨rfl, rfl, t, more, h, rfl⟩
      by_cases ht : t.kind = .endOfInput
      · rw [if_pos (beq_iff_eq.mpr ht)]
        exact reads_pure ⟨.nil, fun _ => .empty, t, more, h, ht⟩
      · rw [if_neg (fun hc => ht (beq_iff_eq.mp hc))]
        have hdecl := (stmtRules n).declaration false d
        refine Reads.bind (reads_orSync (hdecl.mono (fun h => by omega) (fun _ h => h))
          ⟨t, more, h, ht⟩) ?_
        rintro ts o d₁ hts ⟨hne, hread⟩
        have hl := hts.length
        refine Reads.bind ((ih d₁).mono (fun h => by omega) (fun _ h => h)) ?_
        intro us rest after hus hrest
        have hrest' : List.Forall₂ (Stmt.Like (.fitting (ts ++ us))) rest rest :=
          Stmt.likeAll_mono (Likeness.fitting_le (by simp +contextual)) hrest.formed
        simp only [List.nil_append]
        rcases hread with ⟨s, rfl, hs⟩ | ⟨rfl, hloud⟩
        · refine reads_pure ⟨?_, fun hquiet => ?_, hrest.atEnd⟩
          · rw [List.append_nil]
            exact .cons (hs.formed.within (by simp +contextual)) hrest'
          · obtain ⟨hq₁, hq₂⟩ := hts.quiet hus hquiet
            simpa using Program.more (hs.derived hq₁) (hrest.derived hq₂)
        · refine reads_pure ⟨?_, fun hquiet => absurd (hts.quiet hus hquiet).1 hloud, hrest.atEnd⟩
          rw [List.append_nil]
          exact hrest'

end LoxLang.Parse
