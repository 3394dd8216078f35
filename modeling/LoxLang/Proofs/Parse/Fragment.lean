import LoxLang.Proofs.Parse.Turns

set_option autoImplicit false

/-! # Malformed statements

A fragment is what stands before the semicolon at the end of a statement, well formed or not: its
first token may be a keyword, and no other token ends a statement or starts one. Wherever the rules
give up reading it, they do so before that semicolon (`faultsIn_fragment`). The reason is that what
stands inside a statement takes no semicolon, and that nothing is left to fail behind the one at its
end. -/

namespace LoxLang.Parse

/-- The kinds that neither end a statement nor start one. -/
def Bland (kind : Kind) : Prop :=
  kind ∉ [.semicolon, .leftBrace, .rightBrace, .endOfInput] ∧ startsStatement kind = false

/-- The tokens of a statement without the semicolon at its end, well formed or not: the first one may
be one of some keywords, and all others neither end a statement nor start one. -/
def Fragment (leads : List Kind) : List Token → Prop
  | [] => True
  | t :: more => t.kind ≠ .kwElse ∧ (t.kind ∈ leads ∨ Bland t.kind) ∧ ∀ u ∈ more, Bland u.kind

/-- The cursor stands before one of the tokens `ms`, or behind the last of them, and `rest` stands
behind them. -/
def StandsIn (ms rest : List Token) (c : Cursor) : Prop :=
  ∃ unread, unread <:+ ms ∧ c.rest = unread ++ rest

/-- If the rule stops with a fault, then the cursor stands there. -/
def FaultsIn {α : Type} (ms rest : List Token) (r : Rule α) (c : Cursor) : Prop :=
  ∀ diagnostic d, r c = .error (.fault diagnostic) d → StandsIn ms rest d

section
variable {α β : Type} {ms rest : List Token} {c : Cursor}

theorem FaultsIn.bind {r : Rule α} {f : α → Rule β} (h : FaultsIn ms rest r c)
    (hf : ∀ a d, r c = .ok a d → FaultsIn ms rest (f a) d) : FaultsIn ms rest (r >>= f) c := by
  intro diagnostic d hrun
  rw [bind_run] at hrun
  cases hr : r c with
  | ok a mid =>
      rw [hr] at hrun
      exact hf a mid hr diagnostic d hrun
  | error halt mid =>
      rw [hr] at hrun
      cases hrun
      exact h diagnostic d hr

theorem faultsIn_pure (a : α) : FaultsIn ms rest (pure a) c := by
  intro diagnostic d hrun
  cases hrun

theorem FaultsIn.map {g : α → β} {r : Rule α} (h : FaultsIn ms rest r c) :
    FaultsIn ms rest (g <$> r) c := by
  rw [map_eq_pure_bind]
  exact h.bind fun a d _ => faultsIn_pure (g a)

theorem expect_eq_ok {kind : Kind} {what : String} {t : Token} {d : Cursor}
    (h : expect kind what c = .ok t d) : c.rest = t :: d.rest ∧ t.kind = kind := by
  obtain ⟨tokens, reported⟩ := c
  rw [expect, bind_run] at h
  cases tokens with
  | nil => cases h
  | cons u more =>
      simp only [peek] at h
      split at h
      case isTrue hk =>
          cases h
          exact ⟨rfl, beq_iff_eq.mp hk⟩
      case isFalse => cases h

theorem faultsIn_expect {kind : Kind} {what : String} (h : StandsIn ms rest c) :
    FaultsIn ms rest (expect kind what) c := by
  intro diagnostic d hrun
  obtain ⟨tokens, reported⟩ := c
  rw [expect, bind_run] at hrun
  cases tokens with
  | nil => cases hrun
  | cons u more =>
      simp only [peek] at hrun
      split at hrun
      case isTrue hk => cases hrun
      case isFalse =>
          cases hrun
          exact h

variable {semicolon : Token} (hsemicolon : semicolon.kind = .semicolon)

include hsemicolon

/-- Tokens that do not end a statement are passed only up to its end. -/
theorem StandsIn.passes {d : Cursor} (h : StandsIn ms (semicolon :: rest) c)
    (hpass : Passes Script.BeforeEnd c d) : StandsIn ms (semicolon :: rest) d := by
  obtain ⟨unread, hsuffix, hc⟩ := h
  obtain ⟨ts, hts, hkinds⟩ := hpass
  rw [hc] at hts
  obtain ⟨excess, rfl, hexcess⟩ | ⟨excess, rfl, hexcess⟩ := List.append_eq_append_iff.mp hts
  · cases excess with
    | nil => exact ⟨[], List.nil_suffix, hexcess.symm⟩
    | cons u us =>
        obtain ⟨rfl, -⟩ := List.cons.inj hexcess
        exact absurd hsemicolon (hkinds semicolon (by simp))
  · exact ⟨excess, (List.suffix_append ts excess).trans hsuffix, hexcess⟩

variable {p q : Script α} (hbelow : Script.Below Script.BeforeEnd p q)

include hbelow

theorem standsIn_of_ok {a : α} {d : Cursor} (h : StandsIn ms (semicolon :: rest) c)
    (hrun : p.run c = .ok a d) : StandsIn ms (semicolon :: rest) d := by
  have hpass := hbelow.passes c
  rw [hrun] at hpass
  exact h.passes hsemicolon hpass

theorem faultsIn_script (h : StandsIn ms (semicolon :: rest) c) :
    FaultsIn ms (semicolon :: rest) p.run c := by
  intro diagnostic d hrun
  have hpass := hbelow.passes c
  rw [hrun] at hpass
  exact h.passes hsemicolon hpass

theorem FaultsIn.seq {f : α → Script β} (h : StandsIn ms (semicolon :: rest) c)
    (hf : ∀ a d, StandsIn ms (semicolon :: rest) d → FaultsIn ms (semicolon :: rest) (f a).run d) :
    FaultsIn ms (semicolon :: rest) (p >>= f).run c := by
  rw [Script.run_bind]
  refine (faultsIn_script hsemicolon hbelow h).bind fun a d hd => ?_
  exact hf a d (standsIn_of_ok hsemicolon hbelow h hd)

/-- Something in front of the end of a statement, and that end. -/
theorem faultsIn_ending {f : α → β} {what : String} (h : StandsIn ms (semicolon :: rest) c) :
    FaultsIn ms (semicolon :: rest) (p >>= fun a =>
      Script.expect .semicolon what >>= fun _ => Script.done (f a)).run c := by
  refine .seq hsemicolon hbelow h fun a d hd => ?_
  rw [Script.run_bind, Script.run_expect (by decide)]
  exact (faultsIn_expect hd).bind fun _ _ _ => faultsIn_pure _

end

theorem Bland.ne {kind : Kind} (h : Bland kind) :
    kind ≠ .semicolon ∧ kind ≠ .leftBrace ∧ kind ≠ .rightBrace ∧ kind ≠ .endOfInput := by
  simpa [Bland, not_or] using h.1

/-- The kinds that a statement of another form than an expression starts with. -/
theorem Bland.plain {kind : Kind} (h : Bland kind) :
    kind ≠ .kwFun ∧ kind ≠ .kwVar ∧ kind ≠ .kwFor ∧ kind ≠ .kwIf ∧ kind ≠ .kwPrint ∧
      kind ≠ .kwReturn ∧ kind ≠ .kwWhile := by
  refine ⟨?_, ?_, ?_, ?_, ?_, ?_, ?_⟩ <;> rintro rfl <;> exact absurd h.2 (by decide)

/-- A statement that starts with none of the words and signs of the other forms is an expression. -/
theorem statement_expression {n : Nat} {inFunction : Bool} {t : Token} {ts : List Token}
    {reported : List Diagnostic}
    (ht : t.kind ∉ [.kwFor, .kwIf, .kwPrint, .kwReturn, .kwWhile, .leftBrace]) :
    statement (n + 1) inFunction ⟨t :: ts, reported⟩
      = (Stmt.expression <$> exprThenSemicolon "expression") ⟨t :: ts, reported⟩ := by
  rw [← (Script.stmtScripts (n + 1)).statement, Script.statement, Script.run_next_cons,
    if_neg (by simp [ht]), Script.run_bind, Script.run_exprThenSemicolon, map_eq_pure_bind]
  rfl

section
variable {ms rest : List Token} {c : Cursor} {semicolon : Token}
  (hsemicolon : semicolon.kind = .semicolon)

include hsemicolon

theorem faultsIn_exprThenSemicolon {what : String} (h : StandsIn ms (semicolon :: rest) c) :
    FaultsIn ms (semicolon :: rest) (exprThenSemicolon what) c := by
  rw [← Script.run_exprThenSemicolon]
  exact faultsIn_ending hsemicolon Script.below_expr h

variable (hms : ∀ u ∈ ms, Bland u.kind) (h : StandsIn ms (semicolon :: rest) c)

include hms h

theorem StandsIn.next {t : Token} {more : List Token} (hc : c.rest = t :: more) :
    t.kind = .semicolon ∧ more = rest ∨ Bland t.kind := by
  obtain ⟨unread, hsuffix, hrest⟩ := h
  rw [hrest] at hc
  cases unread with
  | nil =>
      obtain ⟨rfl, rfl⟩ := List.cons.inj hc
      exact Or.inl ⟨hsemicolon, rfl⟩
  | cons u us =>
      obtain ⟨rfl, -⟩ := List.cons.inj hc
      exact Or.inr (hms u (hsuffix.subset List.mem_cons_self))

/-- The one semicolon there is ends the statement. -/
theorem exprThenSemicolon_ends {what : String} {e : Expr} {d : Cursor}
    (hrun : exprThenSemicolon what c = .ok e d) : d.rest = rest := by
  obtain ⟨value, mid, hexpr, hrun⟩ := bind_eq_ok hrun
  obtain ⟨t, last, hsemi, hrun⟩ := bind_eq_ok hrun
  cases hrun
  rw [← Script.run_expr] at hexpr
  have hmid := standsIn_of_ok hsemicolon Script.below_expr h hexpr
  obtain ⟨hrest, hk⟩ := expect_eq_ok hsemi
  obtain ⟨-, hmore⟩ | hbland := hmid.next hsemicolon hms hrest
  · exact hmore
  · exact absurd hk hbland.ne.1

/-- The statement inside an unfinished one. -/
theorem faultsIn_plain (n : Nat) (inFunction : Bool) :
    FaultsIn ms (semicolon :: rest) (statement n inFunction) c ∧
      ∀ s d, statement n inFunction c = .ok s d → d.rest = rest := by
  cases n with
  | zero =>
      constructor
      · intro diagnostic d hrun
        cases hrun
      · intro s d hrun
        cases hrun
  | succ n =>
      obtain ⟨t, more, hc⟩ : ∃ t more, c.rest = t :: more := by
        obtain ⟨unread, -, hrest⟩ := h
        cases unread with
        | nil => exact ⟨semicolon, rest, hrest⟩
        | cons u us => exact ⟨u, _, hrest⟩
      -- No keyword is left inside, so the statement can only be an expression statement.
      have ht : t.kind ∉ [.kwFor, .kwIf, .kwPrint, .kwReturn, .kwWhile, .leftBrace] := by
        obtain ⟨hk, -⟩ | hbland := h.next hsemicolon hms hc
        · rw [hk]
          decide
        · have hplain := hbland.plain
          have hne := hbland.ne
          simp [hplain, hne]
      have hstmt : statement (n + 1) inFunction c
          = (Stmt.expression <$> exprThenSemicolon "expression") c := by
        obtain ⟨tokens, reported⟩ := c
        subst hc
        exact statement_expression ht
      constructor
      · intro diagnostic d hrun
        rw [hstmt] at hrun
        exact (faultsIn_exprThenSemicolon hsemicolon h).map diagnostic d hrun
      · intro s d hrun
        rw [hstmt, map_eq_pure_bind] at hrun
        obtain ⟨e, after, hexpr, hrun⟩ := bind_eq_ok hrun
        cases hrun
        exact exprThenSemicolon_ends hsemicolon hms h hexpr

end

section
variable {ms rest : List Token} {c : Cursor} {semicolon : Token}
  (hsemicolon : semicolon.kind = .semicolon) (h : StandsIn ms (semicolon :: rest) c)

include hsemicolon h

theorem faultsIn_variableDeclaration :
    FaultsIn ms (semicolon :: rest) Script.variableDeclaration.run c := by
  refine .seq hsemicolon (Script.below_expect (by decide) _) h fun name d hd => ?_
  exact faultsIn_ending hsemicolon Script.below_initializer hd

theorem faultsIn_returnStatement {keyword : Token} {inFunction : Bool} :
    FaultsIn ms (semicolon :: rest) (Script.returnStatement keyword inFunction).run c := by
  refine .seq hsemicolon (Script.below_checkReturn keyword inFunction) h fun _ d hd => ?_
  exact faultsIn_ending hsemicolon (Script.below_optionalExpr _) hd

theorem faultsIn_printStatement {what : String} :
    FaultsIn ms (semicolon :: rest)
      (Script.exprThenSemicolon what >>= fun e => Script.done (Stmt.print e)).run c := by
  rw [Script.run_bind, Script.run_exprThenSemicolon]
  exact (faultsIn_exprThenSemicolon hsemicolon h).bind fun _ _ _ => faultsIn_pure _

variable (hms : ∀ u ∈ ms, Bland u.kind)

include hms

/-- Where there is no brace, no function has a body. -/
theorem functionHead_ne_ok {head : Token × List Token} {d : Cursor} :
    Script.functionHead.run c ≠ .ok head d := by
  intro hrun
  simp only [Script.functionHead, Script.run_bind] at hrun
  obtain ⟨name, d₁, hrun₁, hrun⟩ := bind_eq_ok hrun
  have h₁ := standsIn_of_ok hsemicolon (Script.below_expect (by decide) _) h hrun₁
  obtain ⟨_, d₂, hrun₂, hrun⟩ := bind_eq_ok hrun
  have h₂ := standsIn_of_ok hsemicolon (Script.below_expect (by decide) _) h₁ hrun₂
  obtain ⟨params, d₃, hrun₃, hrun⟩ := bind_eq_ok hrun
  have h₃ := standsIn_of_ok hsemicolon Script.below_optionalParameters h₂ hrun₃
  obtain ⟨_, d₄, hrun₄, hrun⟩ := bind_eq_ok hrun
  have h₄ := standsIn_of_ok hsemicolon (Script.below_expect (by decide) _) h₃ hrun₄
  obtain ⟨brace, d₅, hrun₅, -⟩ := bind_eq_ok hrun
  rw [Script.run_expect (by decide)] at hrun₅
  obtain ⟨hrest, hbrace⟩ := expect_eq_ok hrun₅
  obtain ⟨hk, -⟩ | hbland := h₄.next hsemicolon hms hrest
  · rw [hk] at hbrace
    cases hbrace
  · exact hbland.ne.2.1 hbrace

theorem faultsIn_function {f : Token × List Token → Script Stmt} :
    FaultsIn ms (semicolon :: rest) (Script.functionHead >>= f).run c := by
  rw [Script.run_bind]
  refine (faultsIn_script hsemicolon Script.below_functionHead h).bind fun head d hd => ?_
  exact absurd hd (functionHead_ne_ok hsemicolon h hms)

/-- A condition and the statement behind it. -/
theorem faultsIn_conditional {n : Nat} {inFunction : Bool} {opening closing : String}
    {f : Expr → Stmt → Script Stmt}
    (hf : ∀ test s d, d.rest = rest → FaultsIn ms (semicolon :: rest) (f test s).run d) :
    FaultsIn ms (semicolon :: rest) (Script.condition opening closing >>= fun test =>
      Script.statement n inFunction >>= f test).run c := by
  refine .seq hsemicolon (Script.below_condition _ _) h fun test d hd => ?_
  rw [Script.run_bind, (Script.stmtScripts n).statement]
  obtain ⟨hfaults, hends⟩ := faultsIn_plain hsemicolon hms hd n inFunction
  exact hfaults.bind fun s e he => hf test s e (hends s e he)

end

theorem StandsIn.widen {t : Token} {ms rest : List Token} {c : Cursor} (h : StandsIn ms rest c) :
    StandsIn (t :: ms) rest c := by
  obtain ⟨unread, hsuffix, hrest⟩ := h
  exact ⟨unread, hsuffix.trans (List.suffix_cons t ms), hrest⟩

theorem behind_absent {α : Type} {kind : Kind} {absent : α} {part : Rule α} {t : Token}
    {ts : List Token} {reported : List Diagnostic} (ht : t.kind ≠ kind) :
    behind kind absent part ⟨t :: ts, reported⟩ = .ok absent ⟨t :: ts, reported⟩ := by
  have : [kind].contains t.kind = false := by simp [ht]
  simp only [behind, accept, accept?, bind_run, peek, this]
  rfl

/-- The keywords that a malformed statement may start with. -/
def leadKinds : List Kind :=
  [.kwClass, .kwFun, .kwVar, .kwIf, .kwWhile, .kwPrint, .kwReturn]

section
variable {ms rest : List Token} {semicolon : Token} (hsemicolon : semicolon.kind = .semicolon)
  (helse : ∀ t more, rest = t :: more → t.kind ≠ .kwElse) (hms : ∀ u ∈ ms, Bland u.kind)

include hsemicolon helse hms

/-- A statement that starts with a keyword. -/
theorem faultsIn_keyword {t : Token} (ht : t.kind ∈ [.kwClass, .kwIf, .kwWhile, .kwPrint, .kwReturn])
    (n : Nat) (reported : List Diagnostic) :
    FaultsIn (t :: ms) (semicolon :: rest) (statement n false)
      ⟨t :: (ms ++ semicolon :: rest), reported⟩ := by
  intro diagnostic d hrun
  have hbehind : StandsIn ms (semicolon :: rest) ⟨ms ++ semicolon :: rest, reported⟩ :=
    ⟨ms, List.suffix_rfl, rfl⟩
  cases n with
  | zero => cases hrun
  | succ n =>
      simp only [List.mem_cons, List.not_mem_nil, or_false] at ht
      rcases ht with hk | hk | hk | hk | hk
      · -- No rule starts with `class`, so an expression is read and fails there.
        rw [statement_expression (by rw [hk]; decide)] at hrun
        have hhere : StandsIn (t :: ms) (semicolon :: rest) ⟨t :: (ms ++ semicolon :: rest), reported⟩ :=
          ⟨t :: ms, List.suffix_rfl, rfl⟩
        exact (faultsIn_exprThenSemicolon hsemicolon hhere).map diagnostic d hrun
      all_goals
        rw [← (Script.stmtScripts (n + 1)).statement, Script.statement, Script.run_next_cons,
          if_pos (by simp [hk]), hk] at hrun
      · refine (faultsIn_conditional hsemicolon hbehind hms ?_ diagnostic d hrun).widen
        -- The semicolon has been taken, and no `else` stands behind it.
        rintro test thenDo ⟨tokens, reported'⟩ hd diagnostic d hrun
        rw [Script.run_bind, Script.run_behind (by decide), bind_run] at hrun
        cases tokens with
        | nil => cases hrun
        | cons u us =>
            rw [behind_absent (helse u us hd.symm)] at hrun
            cases hrun
      · refine (faultsIn_conditional hsemicolon hbehind hms ?_ diagnostic d hrun).widen
        exact fun _ _ _ _ => faultsIn_pure _
      · exact (faultsIn_printStatement hsemicolon hbehind diagnostic d hrun).widen
      · exact (faultsIn_returnStatement hsemicolon hbehind diagnostic d hrun).widen

/-- A fragment that is given up is given up before the semicolon at its end. -/
theorem faultsIn_first {t : Token} (ht : t.kind ∈ leadKinds ∨ Bland t.kind) (n : Nat)
    (reported : List Diagnostic) :
    FaultsIn (t :: ms) (semicolon :: rest) (declaration n false)
      ⟨t :: (ms ++ semicolon :: rest), reported⟩ := by
  intro diagnostic d hrun
  have hhere : StandsIn (t :: ms) (semicolon :: rest) ⟨t :: (ms ++ semicolon :: rest), reported⟩ :=
    ⟨t :: ms, List.suffix_rfl, rfl⟩
  have hbehind : StandsIn ms (semicolon :: rest) ⟨ms ++ semicolon :: rest, reported⟩ :=
    ⟨ms, List.suffix_rfl, rfl⟩
  cases n with
  | zero => cases hrun
  | succ n =>
      by_cases hfun : t.kind = .kwFun
      · rw [← (Script.stmtScripts (n + 1)).declaration, Script.declaration, Script.run_next_cons,
          if_pos (by simp [hfun]), if_pos (by simp [hfun])] at hrun
        exact (faultsIn_function hsemicolon hbehind hms diagnostic d hrun).widen
      by_cases hvar : t.kind = .kwVar
      · rw [← (Script.stmtScripts (n + 1)).declaration, Script.declaration, Script.run_next_cons,
          if_pos (by simp [hvar]), if_neg (by simp [hvar])] at hrun
        exact (faultsIn_variableDeclaration hsemicolon hbehind diagnostic d hrun).widen
      rw [declaration_statement (by simp [hfun, hvar])] at hrun
      rcases ht with hlead | hbland
      · have hkeyword : t.kind ∈ [.kwClass, .kwIf, .kwWhile, .kwPrint, .kwReturn] := by
          simpa [leadKinds, hfun, hvar] using hlead
        exact faultsIn_keyword hsemicolon helse hms hkeyword n reported diagnostic d hrun
      · have hall : ∀ u ∈ t :: ms, Bland u.kind := List.forall_mem_cons.mpr ⟨hbland, hms⟩
        exact (faultsIn_plain hsemicolon hall hhere n false).1 diagnostic d hrun

end

theorem faultsIn_fragment {ms rest : List Token} {semicolon : Token}
    (hsemicolon : semicolon.kind = .semicolon) (hms : Fragment leadKinds ms)
    (helse : ∀ t more, rest = t :: more → t.kind ≠ .kwElse) (n : Nat) (reported : List Diagnostic) :
    FaultsIn ms (semicolon :: rest) (declaration n false) ⟨ms ++ semicolon :: rest, reported⟩ := by
  cases ms with
  | cons t more => exact faultsIn_first hsemicolon helse hms.2.2 hms.2.1 n reported
  | nil =>
      intro diagnostic d hrun
      cases n with
      | zero => cases hrun
      | succ n =>
          rw [List.nil_append, declaration_statement (by rw [hsemicolon]; decide)] at hrun
          refine (faultsIn_plain hsemicolon ?_ ⟨[], List.suffix_rfl, rfl⟩ n false).1 diagnostic d hrun
          exact fun u hu => absurd hu List.not_mem_nil

end LoxLang.Parse
