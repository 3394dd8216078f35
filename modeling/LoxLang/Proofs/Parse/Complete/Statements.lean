import LoxLang.Proofs.Parse.Complete.Expressions
import LoxLang.Proofs.Parse.Statements

set_option autoImplicit false

/-! # The rules read what the grammar derives: statements and programs

As for expressions: a declaration, a statement or the rest of a block is read by its rule, from the
front of whatever stands behind it. Only an `if` without an `else` asks something of what stands
behind it, since an `else` there would be taken. In a derivation of the `nearest` kind no such
statement stands before an `else` (`declaration_takes`). -/

namespace LoxLang.Parse

open Grammar

/-! ## Parts of statements -/

section
variable {ts us vs rest : List Token} {e : Expr} {s : Stmt} {t opening closing semicolon : Token}
  {what opens closes : String}

theorem takes_exprThenSemicolon (h : Phrase .assign ts e) (ht : t.kind = .semicolon) :
    Takes (exprThenSemicolon what) (ts ++ t :: rest) e rest := by
  refine Takes.bind (takes_expr h (by rw [ht]; rfl)) ?_
  refine Takes.bind (takes_expect ht) ?_
  exact takes_pure _ _

theorem takes_condition (hopening : opening.kind = .leftParen) (h : Phrase .assign ts e)
    (hclosing : closing.kind = .rightParen) :
    Takes (condition opens closes) (opening :: (ts ++ closing :: rest)) e rest := by
  refine Takes.bind (takes_expect hopening) ?_
  refine Takes.bind (takes_expr h (by rw [hclosing]; rfl)) ?_
  refine Takes.bind (takes_expect hclosing) ?_
  exact takes_pure _ _

/-- An expression that may be absent is read up to the token that has to stand behind it. -/
theorem takes_maybe {value : Option Expr} {kind : Kind} (h : Maybe (Phrase .assign) ts value)
    (ht : t.kind = kind) (hkind : endsExpression kind = true) :
    Takes (unlessNext kind none (some <$> expr)) (ts ++ t :: rest) value (t :: rest) := by
  cases h with
  | absent => exact takes_unlessNext_absent ht
  | present h =>
      -- An expression does not start with a token that ends one, so the rule sees that it is there.
      have hexpr : Takes expr (ts ++ t :: rest) _ (t :: rest) := takes_expr h (by rw [ht, hkind])
      obtain ⟨first, more, rfl, hfirst, -⟩ := h.first
      refine takes_unlessNext (fun hk => ?_) hexpr.map
      have hends : endsExpression first.kind = true := by rw [hk, hkind]
      simp only [endsExpression, List.contains_eq_mem, List.mem_cons, List.not_mem_nil, or_false,
        decide_eq_true_eq] at hends
      rcases hends with h | h | h <;> simp [h, startsExpression, startsOperand] at hfirst

/-- The declaration of a variable, behind the keyword. -/
theorem takes_variableDeclaration (h : VarDecl (t :: ts) s) :
    Takes variableDeclaration (ts ++ rest) s rest := by
  cases h with
  | @mk _ _ semicolon _ _ _ hname hinitial hsemicolon =>
      rw [List.cons_append, List.append_assoc, List.singleton_append]
      refine Takes.bind (takes_expect hname) ?_
      cases hinitial with
      | absent =>
          refine Takes.bind (takes_behind_absent (by simp [hsemicolon])) ?_
          refine Takes.bind (takes_expect hsemicolon) ?_
          exact takes_pure _ _
      | present h =>
          obtain ⟨hequals, h⟩ := h
          have hends : endsExpression semicolon.kind = true := by rw [hsemicolon]; rfl
          refine Takes.bind (takes_behind hequals (takes_expr h hends).map) ?_
          refine Takes.bind (takes_expect hsemicolon) ?_
          exact takes_pure _ _

theorem takes_parameters {params : List Token} (h : Parameters ts params)
    (ht : t.kind = .rightParen) {n count : Nat} (hcount : count + params.length ≤ 8)
    (hn : ts.length < n) :
    Takes (parameters n count) (ts ++ t :: rest) params (t :: rest) := by
  induction h generalizing n count with
  | last hname =>
      obtain ⟨n, rfl⟩ : ∃ k, n = k + 1 := ⟨n - 1, by omega⟩
      rw [List.length_singleton] at hcount
      rw [parameters]
      refine Takes.bind (takes_checkCount (by omega) _) ?_
      refine Takes.bind (takes_expect hname) ?_
      refine Takes.bind (takes_behind_absent (by simp [ht])) ?_
      exact takes_pure _ _
  | more hname hcomma _ ih =>
      simp only [List.length_cons] at hcount hn
      obtain ⟨n, rfl⟩ : ∃ k, n = k + 1 := ⟨n - 1, by omega⟩
      rw [parameters]
      refine Takes.bind (takes_checkCount (by omega) _) ?_
      refine Takes.bind (takes_expect hname) ?_
      refine Takes.bind (takes_behind hcomma (ih (by omega) (by omega))) ?_
      exact takes_pure _ _

/-- The head of a function, without parameters or with some. -/
theorem takes_functionHead {name brace : Token} {params : List Token}
    (hname : name.kind = .identifier) (hopening : opening.kind = .leftParen)
    (hparams : (ts = [] ∧ params = []) ∨ Parameters ts params ∧ params.length ≤ 8)
    (hclosing : closing.kind = .rightParen) (hbrace : brace.kind = .leftBrace) :
    Takes functionHead (name :: opening :: (ts ++ closing :: brace :: rest)) (name, params)
      rest := by
  have hread : Takes (unlessNext .rightParen [] fun cursor => parameters (budget cursor) 0 cursor)
      (ts ++ closing :: brace :: rest) params (closing :: brace :: rest) := by
    rcases hparams with ⟨rfl, rfl⟩ | ⟨hparams, hle⟩
    · exact takes_unlessNext_absent hclosing
    · have htake : Takes (fun cursor => parameters (budget cursor) 0 cursor)
          (ts ++ closing :: brace :: rest) params (closing :: brace :: rest) := by
        intro reported
        refine takes_parameters hparams hclosing (by omega) ?_ reported
        simp only [budget, List.length_append]
        omega
      cases hparams with
      | last hname => exact takes_unlessNext (by simp [hname]) htake
      | more hname _ _ => exact takes_unlessNext (by simp [hname]) htake
  refine Takes.bind (takes_expect hname) ?_
  refine Takes.bind (takes_expect hopening) ?_
  refine Takes.bind hread ?_
  refine Takes.bind (takes_expect hclosing) ?_
  refine Takes.bind (takes_expect hbrace) ?_
  exact takes_pure _ _

theorem takes_forInitial {initial : Option Stmt} (h : ForInitial ts initial) :
    Takes forInitial (ts ++ rest) initial rest := by
  cases h with
  | none ht =>
      refine Takes.bind (takes_peek _ _) ?_
      rw [ht]
      refine Takes.bind (takes_skip _ _) ?_
      exact takes_pure _ _
  | varDecl h =>
      obtain ⟨t, more, rfl, hk⟩ := h.first
      refine Takes.bind (takes_peek _ _) ?_
      rw [hk]
      refine Takes.bind (takes_skip _ _) ?_
      exact (takes_variableDeclaration h).map
  | exprStmt h =>
      obtain ⟨h, ht⟩ := h
      rw [List.append_assoc, List.singleton_append]
      have hread : Takes (exprThenSemicolon "expression") _ _ rest := takes_exprThenSemicolon h ht
      obtain ⟨first, more, rfl, hfirst, -⟩ := h.first
      refine Takes.bind (takes_peek _ _) ?_
      split
      case h_1 hk => simp [hk, startsExpression, startsOperand] at hfirst
      case h_2 hk => simp [hk, startsExpression, startsOperand] at hfirst
      case h_3 => exact hread.map

theorem takes_forClauses {initial : Option Stmt} {test increment : Option Expr}
    (hopening : opening.kind = .leftParen) (hinitial : ForInitial ts initial)
    (htest : Maybe (Phrase .assign) us test) (hsemicolon : semicolon.kind = .semicolon)
    (hincrement : Maybe (Phrase .assign) vs increment) (hclosing : closing.kind = .rightParen) :
    Takes forClauses
      (opening :: (ts ++ (us ++ semicolon :: (vs ++ closing :: rest))))
      ⟨initial, test, increment⟩ rest := by
  refine Takes.bind (takes_expect hopening) ?_
  refine Takes.bind (takes_forInitial hinitial) ?_
  refine Takes.bind (takes_maybe htest hsemicolon rfl) ?_
  refine Takes.bind (takes_expect hsemicolon) ?_
  refine Takes.bind (takes_maybe hincrement hclosing rfl) ?_
  refine Takes.bind (takes_expect hclosing) ?_
  exact takes_pure _ _

theorem takes_orSync {r : Rule Stmt} (h : Takes r ts s rest) :
    Takes (orSync r) ts (some s) rest := by
  intro reported
  simp only [orSync, h reported]

end

/-! ## Statements -/

/-- The rule for statements reads this one, behind which an `else` may stand only if the statement
cannot take it. -/
def TakesStmt (inFunction isOpen : Bool) (ts : List Token) (s : Stmt) : Prop :=
  ∀ n t rest, (isOpen = true → t.kind ≠ .kwElse) → 16 * (ts.length + rest.length + 1) + 1 ≤ n →
    Takes (statement n inFunction) (ts ++ t :: rest) s (t :: rest)

/-- The rule for declarations reads this one, behind which no `else` stands. -/
def TakesDecl (inFunction : Bool) (ts : List Token) (s : Stmt) : Prop :=
  ∀ n t rest, t.kind ≠ .kwElse → 16 * (ts.length + rest.length + 1) + 2 ≤ n →
    Takes (declaration n inFunction) (ts ++ t :: rest) s (t :: rest)

/-- The rule for blocks reads this rest of one. -/
def TakesBody (inFunction : Bool) (ts : List Token) (body : List Stmt) : Prop :=
  ∀ n rest, 16 * (ts.length + rest.length) + 3 ≤ n →
    Takes (block n inFunction) (ts ++ rest) body rest

section
variable {inFunction isOpen thenOpen : Bool} {ts us vs ws : List Token} {e : Expr}
  {s body thenDo elseDo : Stmt} {stmts : List Stmt}
  {keyword opening closing semicolon brace elseWord : Token}

theorem takesStmt_block (hbrace : brace.kind = .leftBrace) (h : TakesBody inFunction ts stmts) :
    TakesStmt inFunction isOpen (brace :: ts) (.block stmts) := by
  intro n t rest _ hn
  rw [List.length_cons] at hn
  obtain ⟨n, rfl⟩ : ∃ k, n = k + 1 := ⟨n - 1, by omega⟩
  rw [statement]
  refine Takes.bind (takes_peek _ _) ?_
  rw [hbrace]
  refine Takes.bind (takes_skip _ _) ?_
  refine Takes.bind (h n (t :: rest) (by rw [List.length_cons]; omega)) ?_
  exact takes_pure _ _

theorem takesStmt_expression (h : ExprStmt ts s) : TakesStmt inFunction isOpen ts s := by
  intro n t rest _ hn
  obtain ⟨n, rfl⟩ : ∃ k, n = k + 1 := ⟨n - 1, by omega⟩
  obtain ⟨h, hsemicolon⟩ := h
  have hread : Takes (exprThenSemicolon "expression") _ _ (t :: rest) :=
    takes_exprThenSemicolon h hsemicolon
  obtain ⟨first, more, rfl, hfirst, -⟩ := h.first
  rw [statement, List.append_assoc, List.singleton_append]
  refine Takes.bind (takes_peek _ _) ?_
  split
  case h_7 => exact hread.bind (takes_pure _ _)
  all_goals
    rename_i hk
    simp [hk, startsExpression, startsOperand] at hfirst

theorem takesStmt_forLoop {initial : Option Stmt} {test increment : Option Expr}
    (hkeyword : keyword.kind = .kwFor) (hopening : opening.kind = .leftParen)
    (hinitial : ForInitial ts initial) (htest : Maybe (Phrase .assign) us test)
    (hsemicolon : semicolon.kind = .semicolon) (hincrement : Maybe (Phrase .assign) vs increment)
    (hclosing : closing.kind = .rightParen) (hbody : TakesStmt inFunction isOpen ws body) :
    TakesStmt inFunction isOpen
      (keyword :: opening :: (ts ++ (us ++ semicolon :: (vs ++ closing :: ws))))
      (forTree initial test increment body) := by
  intro n t rest ht hn
  simp only [List.length_cons, List.length_append] at hn
  obtain ⟨n, rfl⟩ : ∃ k, n = k + 1 := ⟨n - 1, by omega⟩
  simp only [List.cons_append, List.append_assoc]
  rw [statement]
  refine Takes.bind (takes_peek _ _) ?_
  rw [hkeyword]
  refine Takes.bind (takes_skip _ _) ?_
  refine Takes.bind (takes_forClauses hopening hinitial htest hsemicolon hincrement hclosing) ?_
  refine Takes.bind (hbody n t rest ht (by omega)) ?_
  rw [forClauses_loop]
  exact takes_pure _ _

theorem takesStmt_ifThen (hkeyword : keyword.kind = .kwIf) (hopening : opening.kind = .leftParen)
    (htest : Phrase .assign ts e) (hclosing : closing.kind = .rightParen)
    (hthen : TakesStmt inFunction isOpen us thenDo) :
    TakesStmt inFunction true (keyword :: opening :: (ts ++ closing :: us))
      (.branch e thenDo none) := by
  intro n t rest ht hn
  simp only [List.length_cons, List.length_append] at hn
  obtain ⟨n, rfl⟩ : ∃ k, n = k + 1 := ⟨n - 1, by omega⟩
  simp only [List.cons_append, List.append_assoc]
  rw [statement]
  refine Takes.bind (takes_peek _ _) ?_
  rw [hkeyword]
  refine Takes.bind (takes_skip _ _) ?_
  refine Takes.bind (takes_condition hopening htest hclosing) ?_
  refine Takes.bind (hthen n t rest (fun _ => ht rfl) (by omega)) ?_
  refine Takes.bind (takes_behind_absent (ht rfl)) ?_
  exact takes_pure _ _

theorem takesStmt_ifElse (hkeyword : keyword.kind = .kwIf) (hopening : opening.kind = .leftParen)
    (htest : Phrase .assign ts e) (hclosing : closing.kind = .rightParen)
    (hthen : TakesStmt inFunction false us thenDo) (hword : elseWord.kind = .kwElse)
    (helse : TakesStmt inFunction isOpen vs elseDo) :
    TakesStmt inFunction isOpen (keyword :: opening :: (ts ++ closing :: (us ++ elseWord :: vs)))
      (.branch e thenDo (some elseDo)) := by
  intro n t rest ht hn
  simp only [List.length_cons, List.length_append] at hn
  obtain ⟨n, rfl⟩ : ∃ k, n = k + 1 := ⟨n - 1, by omega⟩
  simp only [List.cons_append, List.append_assoc]
  -- The statement before the `else` is closed, so it leaves the `else` to this `if`.
  have hrest := hthen n elseWord (vs ++ t :: rest) (by simp)
    (by simp only [List.length_append, List.length_cons]; omega)
  rw [statement]
  refine Takes.bind (takes_peek _ _) ?_
  rw [hkeyword]
  refine Takes.bind (takes_skip _ _) ?_
  refine Takes.bind (takes_condition hopening htest hclosing) ?_
  refine Takes.bind hrest ?_
  refine Takes.bind (takes_behind hword (helse n t rest ht (by omega)).map) ?_
  exact takes_pure _ _

theorem takesStmt_print (hkeyword : keyword.kind = .kwPrint) (h : Phrase .assign ts e)
    (hsemicolon : semicolon.kind = .semicolon) :
    TakesStmt inFunction isOpen (keyword :: (ts ++ [semicolon])) (.print e) := by
  intro n t rest _ hn
  obtain ⟨n, rfl⟩ : ∃ k, n = k + 1 := ⟨n - 1, by omega⟩
  rw [statement, List.cons_append, List.append_assoc, List.singleton_append]
  refine Takes.bind (takes_peek _ _) ?_
  rw [hkeyword]
  refine Takes.bind (takes_skip _ _) ?_
  refine Takes.bind (takes_exprThenSemicolon h hsemicolon) ?_
  exact takes_pure _ _

theorem takesStmt_ret {value : Option Expr} (hkeyword : keyword.kind = .kwReturn)
    (h : Maybe (Phrase .assign) ts value) (hsemicolon : semicolon.kind = .semicolon) :
    TakesStmt true isOpen (keyword :: (ts ++ [semicolon])) (.ret keyword value) := by
  intro n t rest _ hn
  obtain ⟨n, rfl⟩ : ∃ k, n = k + 1 := ⟨n - 1, by omega⟩
  rw [statement, List.cons_append, List.append_assoc, List.singleton_append]
  refine Takes.bind (takes_peek _ _) ?_
  rw [hkeyword]
  refine Takes.bind (takes_skip _ _) ?_
  refine Takes.bind (takes_pure () _) ?_
  refine Takes.bind (takes_maybe h hsemicolon rfl) ?_
  refine Takes.bind (takes_expect hsemicolon) ?_
  exact takes_pure _ _

theorem takesStmt_whileLoop (hkeyword : keyword.kind = .kwWhile)
    (hopening : opening.kind = .leftParen) (htest : Phrase .assign ts e)
    (hclosing : closing.kind = .rightParen) (hbody : TakesStmt inFunction isOpen us body) :
    TakesStmt inFunction isOpen (keyword :: opening :: (ts ++ closing :: us)) (.loop e body) := by
  intro n t rest ht hn
  simp only [List.length_cons, List.length_append] at hn
  obtain ⟨n, rfl⟩ : ∃ k, n = k + 1 := ⟨n - 1, by omega⟩
  simp only [List.cons_append, List.append_assoc]
  rw [statement]
  refine Takes.bind (takes_peek _ _) ?_
  rw [hkeyword]
  refine Takes.bind (takes_skip _ _) ?_
  refine Takes.bind (takes_condition hopening htest hclosing) ?_
  refine Takes.bind (hbody n t rest ht (by omega)) ?_
  exact takes_pure _ _

theorem takesDecl_function {name : Token} {params : List Token} (hkeyword : keyword.kind = .kwFun)
    (hname : name.kind = .identifier) (hopening : opening.kind = .leftParen)
    (hparams : (ts = [] ∧ params = []) ∨ Parameters ts params ∧ params.length ≤ 8)
    (hclosing : closing.kind = .rightParen) (hbrace : brace.kind = .leftBrace)
    (hbody : TakesBody true us stmts) :
    TakesDecl inFunction (keyword :: name :: opening :: (ts ++ closing :: brace :: us))
      (.function name params stmts) := by
  intro n t rest _ hn
  simp only [List.length_cons, List.length_append] at hn
  obtain ⟨n, rfl⟩ : ∃ k, n = k + 1 := ⟨n - 1, by omega⟩
  simp only [List.cons_append, List.append_assoc]
  rw [declaration]
  refine Takes.bind (takes_peek _ _) ?_
  rw [hkeyword]
  refine Takes.bind (takes_skip _ _) ?_
  refine Takes.bind (takes_functionHead hname hopening hparams hclosing hbrace) ?_
  refine Takes.bind (hbody n (t :: rest) (by rw [List.length_cons]; omega)) ?_
  exact takes_pure _ _

theorem takesDecl_varDecl (h : VarDecl ts s) : TakesDecl inFunction ts s := by
  intro n t rest _ hn
  obtain ⟨n, rfl⟩ : ∃ k, n = k + 1 := ⟨n - 1, by omega⟩
  obtain ⟨first, more, rfl, hk⟩ := h.first
  rw [declaration]
  refine Takes.bind (takes_peek _ _) ?_
  rw [hk]
  refine Takes.bind (takes_skip _ _) ?_
  exact takes_variableDeclaration h

theorem takesDecl_statement (hfirst : ∃ t more, ts = t :: more ∧ t.kind ≠ .kwFun ∧ t.kind ≠ .kwVar)
    (h : TakesStmt inFunction isOpen ts s) : TakesDecl inFunction ts s := by
  intro n t rest ht hn
  obtain ⟨n, rfl⟩ : ∃ k, n = k + 1 := ⟨n - 1, by omega⟩
  obtain ⟨first, more, rfl, hfun, hvar⟩ := hfirst
  rw [declaration]
  refine Takes.bind (takes_peek _ _) ?_
  split
  case h_1 hk => exact absurd hk hfun
  case h_2 hk => exact absurd hk hvar
  case h_3 => exact h n t rest (fun _ => ht) (by omega)

theorem takesBody_close (hbrace : brace.kind = .rightBrace) : TakesBody inFunction [brace] [] := by
  intro n rest hn
  obtain ⟨n, rfl⟩ : ∃ k, n = k + 1 := ⟨n - 1, by omega⟩
  rw [block]
  refine Takes.bind (takes_peek _ _) ?_
  rw [if_pos (by simp [hbrace])]
  refine Takes.bind (takes_expect hbrace) ?_
  exact takes_pure _ _

/-- Neither the end of a block nor that of the input starts a declaration, and a declaration stands
before no `else`. -/
theorem startsDeclaration_kind {kind : Kind} (h : startsDeclaration kind = true) :
    kind ≠ .rightBrace ∧ kind ≠ .endOfInput ∧ kind ≠ .kwElse := by
  refine ⟨?_, ?_, ?_⟩ <;>
    (rintro rfl; simp [startsDeclaration, startsExpression, startsOperand] at h)

theorem takesBody_more (hfirst : ∃ t more, ts = t :: more ∧ startsDeclaration t.kind = true)
    (h : TakesDecl inFunction ts s) (hnext : ∃ t more, us = t :: more ∧ t.kind ≠ .kwElse)
    (hbody : TakesBody inFunction us stmts) : TakesBody inFunction (ts ++ us) (s :: stmts) := by
  intro n rest hn
  obtain ⟨n, rfl⟩ : ∃ k, n = k + 1 := ⟨n - 1, by omega⟩
  obtain ⟨first, more, rfl, hk⟩ := hfirst
  obtain ⟨next, others, rfl, hnext⟩ := hnext
  obtain ⟨hbrace, hend, -⟩ := startsDeclaration_kind hk
  simp only [List.length_cons, List.length_append] at hn
  rw [block, List.append_assoc]
  refine Takes.bind (takes_peek _ _) ?_
  rw [if_neg (by simp [hbrace, hend])]
  refine Takes.bind (takes_orSync (h n next (others ++ rest) hnext
    (by simp only [List.length_cons, List.length_append]; omega))) ?_
  refine Takes.bind (hbody n rest (by rw [List.length_cons]; omega)) ?_
  exact takes_pure _ _

end

mutual

theorem declaration_takes {inFunction : Bool} {ts : List Token} {s : Stmt}
    (h : Declaration .nearest inFunction ts s) : TakesDecl inFunction ts s := by
  match h with
  | .functionNone hk hname h₁ h₂ hbrace hbody =>
      exact takesDecl_function hk hname h₁ (Or.inl ⟨rfl, rfl⟩) h₂ hbrace (body_takes hbody)
  | .function hk hname h₁ hparams hle h₂ hbrace hbody =>
      exact takesDecl_function hk hname h₁ (Or.inr ⟨hparams, hle⟩) h₂ hbrace (body_takes hbody)
  | .varDecl h => exact takesDecl_varDecl h
  | .statement h =>
      obtain ⟨t, more, hts, -, hfun, hvar⟩ := h.first
      exact takesDecl_statement ⟨t, more, hts, hfun, hvar⟩ (statement_takes h)

theorem statement_takes {inFunction isOpen : Bool} {ts : List Token} {s : Stmt}
    (h : Statement .nearest inFunction isOpen ts s) : TakesStmt inFunction isOpen ts s := by
  match h with
  | .block hbrace hbody => exact takesStmt_block hbrace (body_takes hbody)
  | .expression h => exact takesStmt_expression h
  | .forLoop hk h₁ hinitial htest h₂ hincrement h₃ hbody =>
      exact takesStmt_forLoop hk h₁ hinitial htest h₂ hincrement h₃ (statement_takes hbody)
  | .ifThen hk h₁ htest h₂ hthen => exact takesStmt_ifThen hk h₁ htest h₂ (statement_takes hthen)
  | .ifElse hk h₁ htest h₂ hthen hclosed hword helse =>
      have hthen := statement_takes hthen
      rw [hclosed rfl] at hthen
      exact takesStmt_ifElse hk h₁ htest h₂ hthen hword (statement_takes helse)
  | .print hk h hsemicolon => exact takesStmt_print hk h hsemicolon
  | .ret hk h hsemicolon => exact takesStmt_ret hk h hsemicolon
  | .whileLoop hk h₁ htest h₂ hbody =>
      exact takesStmt_whileLoop hk h₁ htest h₂ (statement_takes hbody)

theorem body_takes {inFunction : Bool} {ts : List Token} {body : List Stmt}
    (h : Body .nearest inFunction ts body) : TakesBody inFunction ts body := by
  match h with
  | .close hbrace => exact takesBody_close hbrace
  | .more h hbody =>
      exact takesBody_more h.first (declaration_takes h) hbody.first (body_takes hbody)

end

/-- What stands behind a declaration of a program: the next one, or the end of input. -/
theorem program_next {ts : List Token} (rest : List Token) {stmts : List Stmt} {eof : Token}
    (h : Program .nearest ts stmts) (heof : eof.kind = .endOfInput) :
    ∃ t more, ts ++ eof :: rest = t :: more ∧ t.kind ≠ .kwElse := by
  cases h with
  | empty => exact ⟨eof, rest, rfl, by simp [heof]⟩
  | more h _ =>
      obtain ⟨t, more, rfl, hk⟩ := h.first
      exact ⟨t, _, rfl, (startsDeclaration_kind hk).2.2⟩

/-- A program is read up to the end of input. -/
theorem program_takes {ts rest : List Token} {stmts : List Stmt} {eof : Token}
    (h : Program .nearest ts stmts) (heof : eof.kind = .endOfInput) {n : Nat}
    (hn : 16 * (ts.length + rest.length + 1) + 3 ≤ n) :
    Takes (program n) (ts ++ eof :: rest) stmts (eof :: rest) := by
  induction h generalizing n with
  | empty =>
      obtain ⟨n, rfl⟩ : ∃ k, n = k + 1 := ⟨n - 1, by omega⟩
      rw [program]
      refine Takes.bind takes_sees ?_
      rw [if_pos (by simp [heof])]
      exact takes_pure _ _
  | @more ts us s stmts h hmore ih =>
      obtain ⟨n, rfl⟩ : ∃ k, n = k + 1 := ⟨n - 1, by omega⟩
      obtain ⟨first, others, hts, hk⟩ := h.first
      obtain ⟨next, more, hnext, helse⟩ := program_next rest hmore heof
      have hlength := congrArg List.length hnext
      simp only [List.length_cons, List.length_append] at hn hlength
      have hpos : 0 < ts.length := by simp [hts]
      have hdecl := takes_orSync (declaration_takes h n next more helse (by omega))
      have hrest := ih (n := n) (by omega)
      rw [List.append_assoc, program, hnext]
      rw [hnext] at hrest
      -- A declaration comes next and not the end, since it starts with one of its own kinds.
      have hsees : Takes (sees .endOfInput) (ts ++ next :: more) false (ts ++ next :: more) := by
        rw [hts, List.cons_append, ← beq_false_of_ne (startsDeclaration_kind hk).2.1]
        exact takes_sees
      refine Takes.bind hsees ?_
      refine Takes.bind hdecl ?_
      refine Takes.bind hrest ?_
      exact takes_pure _ _

end LoxLang.Parse
