import LoxLang.Proofs.Parse.Faults
import LoxLang.Proofs.Parse.Shape

set_option autoImplicit false

/-! # Where literals come from

The literals in a tree are not made up: each is `nil`, a truth value, or the literal of a number or
string token of the list that the tree was read from (`parse?_literals`). That holds of everything that
is read, whatever was reported on the way. -/

namespace LoxLang

/-- The literals that can be read from tokens. -/
inductive Literal.From (ts : List Token) : Literal → Prop
  | nil : Literal.From ts .nil
  | bool (b : Bool) : Literal.From ts (.bool b)
  | token {t : Token} : t ∈ ts → t.kind = .number ∨ t.kind = .string → Literal.From ts t.literal

/-- All literals in the expression can be read from the tokens. -/
def Expr.From (ts : List Token) (e : Expr) : Prop :=
  ∀ v, (Expr.literal v).Inside e → v.From ts

/-- All literals in the statements can be read from the tokens. -/
def Stmt.From (ts : List Token) (stmts : List Stmt) : Prop :=
  ∀ s, Stmt.Inside s stmts → ∀ e ∈ s.exprs, e.From ts

section
variable {ts : List Token}

theorem Expr.from_literal {v : Literal} (h : v.From ts) : (Expr.literal v).From ts := by
  intro v' hv'
  cases hv' with
  | here => exact h
  | deeper hpart _ => cases hpart

theorem Expr.from_parts {e : Expr} (hne : ∀ v, e ≠ .literal v) (h : ∀ part ∈ e.parts, part.From ts) :
    e.From ts := by
  intro v hv
  cases hv with
  | here => exact absurd rfl (hne v)
  | deeper hpart hv => exact h _ hpart v hv

theorem Stmt.from_nil : Stmt.From ts [] := by
  intro s h
  cases h with
  | here hmem => cases hmem
  | deeper hmem _ => cases hmem

theorem Stmt.from_append {stmts more : List Stmt} :
    Stmt.From ts (stmts ++ more) ↔ Stmt.From ts stmts ∧ Stmt.From ts more := by
  simp only [Stmt.From, Stmt.inside_append, or_imp, forall_and]

theorem Stmt.from_singleton {s : Stmt} :
    Stmt.From ts [s] ↔ (∀ e ∈ s.exprs, e.From ts) ∧ Stmt.From ts s.inner := by
  simp only [Stmt.From, Stmt.inside_singleton, or_imp, forall_and, forall_eq]

end

namespace Parse

/-- From that cursor on, the rule gives nothing but what is good, and stays within the list. -/
def GivesAt {α : Type} (ts : List Token) (good : α → Prop) (r : Rule α) (c : Cursor) : Prop :=
  ∀ a after, r c = .ok a after → good a ∧ Within ts after

/-- The same from wherever in the list the rule is applied. -/
def GivesIn {α : Type} (ts : List Token) (good : α → Prop) (r : Rule α) : Prop :=
  ∀ c, Within ts c → GivesAt ts good r c

section
variable {α β : Type} {ts : List Token} {good : α → Prop} {goal : β → Prop} {c : Cursor}

theorem Points.givesIn {r : Rule α} (h : Points ts r) : GivesIn ts (fun _ => True) r :=
  fun c hc _ _ hrun => ⟨trivial, (h c hc).ok hrun⟩

theorem givesIn_pure {a : α} (h : good a) : GivesIn ts good (pure a) := by
  rintro c hc b after ⟨⟩
  exact ⟨h, hc⟩

theorem givesIn_overBudget : GivesIn ts good (throw .overBudget : Rule α) := by
  rintro c hc b after ⟨⟩

theorem givesIn_refuse {fault : GrammarFault} {t : Token} :
    GivesIn ts good (refuse fault t : Rule α) := by
  rintro c hc b after ⟨⟩

theorem GivesAt.bind {r : Rule α} {f : α → Rule β} (hr : GivesAt ts good r c)
    (hf : ∀ a, good a → GivesIn ts goal (f a)) : GivesAt ts goal (r >>= f) c := by
  intro b after h
  obtain ⟨a, mid, hrun, hnext⟩ := bind_eq_ok h
  obtain ⟨ha, hmid⟩ := hr a mid hrun
  exact hf a ha mid hmid b after hnext

theorem GivesIn.bind {r : Rule α} {f : α → Rule β} (hr : GivesIn ts good r)
    (hf : ∀ a, good a → GivesIn ts goal (f a)) : GivesIn ts goal (r >>= f) :=
  fun c hc => (hr c hc).bind hf

/-- What the first rule gives does not matter. -/
theorem Points.then {r : Rule α} {f : α → Rule β} (hr : Points ts r)
    (hf : ∀ a, GivesIn ts goal (f a)) : GivesIn ts goal (r >>= f) :=
  hr.givesIn.bind fun a _ => hf a

theorem GivesIn.map {r : Rule α} {f : α → β} (hr : GivesIn ts good r)
    (hf : ∀ a, good a → goal (f a)) : GivesIn ts goal (f <$> r) := by
  rw [map_eq_pure_bind]
  exact hr.bind fun a ha => givesIn_pure (hf a ha)

theorem givesIn_peek_bind {f : Token → Rule α}
    (hf : ∀ {c : Cursor} {t : Token} {more : List Token}, Within ts c → c.rest = t :: more →
      GivesAt ts good (f t) c) : GivesIn ts good (peek >>= f) := by
  intro c hc a after hrun
  rw [bind_run, peek] at hrun
  cases h : c.rest with
  | nil =>
      rw [h] at hrun
      cases hrun
  | cons t more =>
      rw [h] at hrun
      exact hf hc h a after hrun

/-- The next token, which has been looked at, does not end the input and is taken. -/
theorem givesAt_skip_bind {f : Unit → Rule α} {t : Token} {more : List Token} (hc : Within ts c)
    (h : c.rest = t :: more) (ht : t.kind ≠ .endOfInput) (hf : GivesIn ts good (f ())) :
    GivesAt ts good (skip >>= f) c := by
  intro a after hrun
  refine hf { c with rest := more } (hc.forward [t] h (inner_singleton ht)) a after ?_
  rwa [bind_run, skip, h] at hrun

theorem givesIn_accept?_bind {kinds : List Kind} {f : Option Token → Rule α}
    (hk : Kind.endOfInput ∉ kinds) (hnone : GivesIn ts good (f none))
    (hsome : ∀ t, Ahead ts t → GivesIn ts good (f (some t))) :
    GivesIn ts good (accept? kinds >>= f) := by
  -- The token that was taken is known to stand in the list.
  have hread : GivesIn ts (fun taken => ∀ t ∈ taken, Ahead ts t) (accept? kinds) := by
    refine givesIn_peek_bind fun {c t more} hc h => ?_
    by_cases ht : t.kind ∈ kinds
    · rw [if_pos (List.contains_iff_mem.mpr ht)]
      refine givesAt_skip_bind hc h (fun he => hk (he ▸ ht)) (givesIn_pure ?_)
      rintro t' ⟨⟩
      exact hc.ahead h
    · rw [if_neg (fun hmem => ht (List.contains_iff_mem.mp hmem))]
      exact givesIn_pure (fun _ hnone => nomatch hnone) c hc
  refine hread.bind fun taken htaken => ?_
  cases taken with
  | none => exact hnone
  | some t => exact hsome t (htaken t rfl)

variable {absent : α} {part : Rule α}

theorem givesIn_unlessNext {kind : Kind} (habsent : good absent) (hpart : GivesIn ts good part) :
    GivesIn ts good (unlessNext kind absent part) := by
  refine Points.then (points_peek.bind fun _ => points_pure _) fun next => ?_
  cases next with
  | true => exact givesIn_pure habsent
  | false => exact hpart

theorem givesIn_behind {kind : Kind} (hk : kind ≠ .endOfInput) (habsent : good absent)
    (hpart : GivesIn ts good part) : GivesIn ts good (behind kind absent part) := by
  refine (points_accept hk).then fun taken => ?_
  cases taken with
  | true => exact hpart
  | false => exact givesIn_pure habsent

end

/-! ## Expressions -/

/-- The node of a level has the operands for parts. -/
def Level.Joins (l : Level) : Prop :=
  Kind.endOfInput ∉ l.kinds ∧ ∀ left op right,
    (l.node left op right).parts = [left, right] ∧ ∀ v, l.node left op right ≠ .literal v

theorem levels_join : ∀ l ∈ levels, l.Joins := by
  have hlogical (kinds : List Kind) (h : Kind.endOfInput ∉ kinds) :
      Level.Joins ⟨kinds, Expr.logical⟩ := ⟨h, fun _ _ _ => ⟨rfl, by simp⟩⟩
  have hbinary (kinds : List Kind) (h : Kind.endOfInput ∉ kinds) :
      Level.Joins ⟨kinds, Expr.binary⟩ := ⟨h, fun _ _ _ => ⟨rfl, by simp⟩⟩
  simp only [levels, List.forall_mem_cons]
  exact ⟨hlogical _ (by decide), hlogical _ (by decide), hbinary _ (by decide),
    hbinary _ (by decide), hbinary _ (by decide), hbinary _ (by decide), by simp⟩

theorem Level.Joins.from_node {ts : List Token} {l : Level} {left right : Expr} (hl : l.Joins)
    (op : Token) (hleft : left.From ts) (hright : right.From ts) :
    (l.node left op right).From ts := by
  obtain ⟨hparts, hne⟩ := hl.2 left op right
  refine Expr.from_parts hne fun part hpart => ?_
  rw [hparts] at hpart
  rcases List.mem_pair.mp hpart with rfl | rfl
  · exact hleft
  · exact hright

theorem constant?_from {ts : List Token} {t : Token} {e : Expr} (h : constant? t = some e)
    (ht : t ∈ ts) : e.From ts := by
  unfold constant? at h
  split at h
  case h_1 => cases h; exact Expr.from_literal (.bool false)
  case h_2 => cases h; exact Expr.from_literal (.bool true)
  case h_3 => cases h; exact Expr.from_literal .nil
  case h_4 hkind => cases h; exact Expr.from_literal (.token ht (Or.inl hkind))
  case h_5 hkind => cases h; exact Expr.from_literal (.token ht (Or.inr hkind))
  case h_6 => cases h; exact Expr.from_parts (by simp) fun _ hpart => nomatch hpart
  case h_7 => cases h

/-- What the rules for expressions give, with a budget of `n`. -/
structure ExprGives (ts : List Token) (n : Nat) : Prop where
  expression : GivesIn ts (Expr.From ts) (expression n)
  binary : ∀ ls, (∀ l ∈ ls, l.Joins) → GivesIn ts (Expr.From ts) (binary n ls)
  binaryRest : ∀ l ls left, (∀ l' ∈ l :: ls, l'.Joins) → left.From ts →
    GivesIn ts (Expr.From ts) (binaryRest n l ls left)
  unary : GivesIn ts (Expr.From ts) (unary n)
  call : GivesIn ts (Expr.From ts) (call n)
  callRest : ∀ callee, callee.From ts → GivesIn ts (Expr.From ts) (callRest n callee)
  arguments : ∀ count, GivesIn ts (fun args => ∀ arg ∈ args, arg.From ts) (arguments n count)
  primary : GivesIn ts (Expr.From ts) (primary n)

section
variable {ts : List Token} {n : Nat} (ih : ExprGives ts n)

include ih

theorem givesIn_expression : GivesIn ts (Expr.From ts) (expression (n + 1)) := by
  rw [expression]
  refine (ih.binary levels levels_join).bind fun left hleft => ?_
  refine givesIn_accept?_bind (by decide) (givesIn_pure hleft) fun equals hequals => ?_
  refine ih.expression.bind fun value hvalue => ?_
  -- If it cannot be assigned to, that is reported and the value is dropped.
  cases target? left with
  | some name => exact givesIn_pure (Expr.from_parts (by simp) (by simpa [Expr.parts]))
  | none => exact (points_report hequals).then fun _ => givesIn_pure hleft

theorem givesIn_binary (ls : List Level) (hls : ∀ l ∈ ls, l.Joins) :
    GivesIn ts (Expr.From ts) (binary (n + 1) ls) := by
  cases ls with
  | nil =>
      rw [binary]
      exact ih.unary
  | cons l ls =>
      rw [binary]
      refine (ih.binary ls fun l' hl' => hls l' (List.mem_cons_of_mem l hl')).bind fun left h => ?_
      exact ih.binaryRest l ls left hls h

theorem givesIn_binaryRest (l : Level) (ls : List Level) (left : Expr)
    (hls : ∀ l' ∈ l :: ls, l'.Joins) (hleft : left.From ts) :
    GivesIn ts (Expr.From ts) (binaryRest (n + 1) l ls left) := by
  have hl := hls l List.mem_cons_self
  rw [binaryRest]
  refine givesIn_accept?_bind hl.1 (givesIn_pure hleft) fun op _ => ?_
  refine (ih.binary ls fun l' hl' => hls l' (List.mem_cons_of_mem l hl')).bind fun right hright => ?_
  exact ih.binaryRest l ls _ hls (hl.from_node op hleft hright)

theorem givesIn_unary : GivesIn ts (Expr.From ts) (unary (n + 1)) := by
  rw [unary]
  refine givesIn_accept?_bind (by decide) ih.call fun op _ => ih.unary.bind fun right hright => ?_
  split
  case isTrue => exact givesIn_pure (Expr.from_parts (by simp) (by simpa [Expr.parts]))
  case isFalse => exact givesIn_refuse

theorem givesIn_callRest (callee : Expr) (hcallee : callee.From ts) :
    GivesIn ts (Expr.From ts) (callRest (n + 1) callee) := by
  rw [callRest]
  refine givesIn_behind (by decide) hcallee ?_
  refine (givesIn_unlessNext (by simp) (ih.arguments 0)).bind fun args hargs => ?_
  refine (points_expect (by decide)).then fun paren => ih.callRest _ ?_
  exact Expr.from_parts (by simp) (List.forall_mem_cons.mpr ⟨hcallee, hargs⟩)

theorem givesIn_arguments (count : Nat) :
    GivesIn ts (fun args => ∀ arg ∈ args, arg.From ts) (arguments (n + 1) count) := by
  rw [arguments]
  refine points_checkCount.then fun _ => ih.expression.bind fun arg harg => ?_
  refine (givesIn_behind (by decide) (by simp) (ih.arguments _)).bind fun more hmore => ?_
  exact givesIn_pure (List.forall_mem_cons.mpr ⟨harg, hmore⟩)

theorem givesIn_primary : GivesIn ts (Expr.From ts) (primary (n + 1)) := by
  rw [primary]
  refine givesIn_peek_bind fun {c t more} hc h => ?_
  -- Constants are where literals come in, and their tokens stand in the list.
  cases hconstant : constant? t with
  | some value =>
      have ht : t ∈ ts := by
        obtain ⟨us, hts, -⟩ := hc.place
        rw [hts, h]
        exact List.mem_append_right us List.mem_cons_self
      refine givesAt_skip_bind hc h (constant_read hconstant).2.2 (givesIn_pure ?_)
      exact constant?_from hconstant ht
  | none =>
      dsimp only
      split
      case isTrue hparen =>
          have ht : t.kind ≠ .endOfInput := by
            rw [beq_iff_eq.mp hparen]
            decide
          refine givesAt_skip_bind hc h ht (ih.expression.bind fun inner hinner => ?_)
          refine (points_expect (by decide)).then fun _ => givesIn_pure ?_
          exact Expr.from_parts (by simp) (by simpa [Expr.parts])
      case isFalse => exact givesIn_refuse c hc

end

theorem exprGives (ts : List Token) (n : Nat) : ExprGives ts n := by
  induction n with
  | zero =>
      exact ⟨givesIn_overBudget, fun _ _ => givesIn_overBudget, fun _ _ _ _ _ => givesIn_overBudget,
        givesIn_overBudget, givesIn_overBudget, fun _ _ => givesIn_overBudget,
        fun _ => givesIn_overBudget, givesIn_overBudget⟩
  | succ n ih =>
      have hcall : GivesIn ts (Expr.From ts) (call (n + 1)) := by
        rw [call]
        exact ih.primary.bind fun callee hcallee => ih.callRest callee hcallee
      exact ⟨givesIn_expression ih, givesIn_binary ih, givesIn_binaryRest ih, givesIn_unary ih, hcall,
        givesIn_callRest ih, givesIn_arguments ih, givesIn_primary ih⟩

/-! ## Parts of statements -/

section
variable {ts : List Token}

theorem givesIn_expr : GivesIn ts (Expr.From ts) expr :=
  fun c hc a after hrun => (exprGives ts (budget c)).expression c hc a after hrun

/-- An expression that may be absent. -/
theorem givesIn_someExpr : GivesIn ts (fun o => ∀ e ∈ o, e.From ts) (some <$> expr) := by
  refine givesIn_expr.map fun e he => ?_
  rintro e' ⟨⟩
  exact he

theorem givesIn_exprThenSemicolon (what : String) :
    GivesIn ts (Expr.From ts) (exprThenSemicolon what) :=
  givesIn_expr.bind fun _ he => (points_expect (by decide)).then fun _ => givesIn_pure he

theorem givesIn_optionalExpr (kind : Kind) :
    GivesIn ts (fun o => ∀ e ∈ o, e.From ts) (unlessNext kind none (some <$> expr)) :=
  givesIn_unlessNext (fun _ h => nomatch h) givesIn_someExpr

theorem givesIn_condition (first last : String) :
    GivesIn ts (Expr.From ts) (condition first last) :=
  (points_expect (by decide)).then fun _ => givesIn_expr.bind fun _ he =>
    (points_expect (by decide)).then fun _ => givesIn_pure he

/-- A statement without a statement inside. -/
theorem from_flat {s : Stmt} (hinner : s.inner = []) (h : ∀ e ∈ s.exprs, e.From ts) :
    Stmt.From ts [s] := by
  rw [Stmt.from_singleton, hinner]
  exact ⟨h, Stmt.from_nil⟩

theorem from_expression {e : Expr} (h : e.From ts) : Stmt.From ts [.expression e] :=
  from_flat rfl (by simpa [Stmt.exprs])

theorem givesIn_variableDeclaration :
    GivesIn ts (fun s => Stmt.From ts [s]) variableDeclaration := by
  refine (points_expect (by decide)).then fun name => ?_
  refine (givesIn_behind (by decide) (fun _ h => nomatch h) givesIn_someExpr).bind fun initial h => ?_
  refine (points_expect (by decide)).then fun _ => givesIn_pure (from_flat rfl ?_)
  exact fun e he => h e (Option.mem_toList.mp he)

theorem givesIn_returnStatement {keyword : Token} {inFunction : Bool} (hkeyword : Ahead ts keyword) :
    GivesIn ts (fun s => Stmt.From ts [s]) (returnStatement keyword inFunction) := by
  refine (points_checkReturn inFunction hkeyword).then fun _ => ?_
  refine (givesIn_optionalExpr .semicolon).bind fun value h => ?_
  refine (points_expect (by decide)).then fun _ => givesIn_pure (from_flat rfl ?_)
  exact fun e he => h e (Option.mem_toList.mp he)

/-- What stands in the parentheses of a `for` loop. -/
structure ClausesFrom (ts : List Token) (clauses : ForClauses) : Prop where
  initial : ∀ s ∈ clauses.initial, Stmt.From ts [s]
  condition : ∀ e ∈ clauses.condition, e.From ts
  increment : ∀ e ∈ clauses.increment, e.From ts

theorem givesIn_forInitial :
    GivesIn ts (fun initial => ∀ s ∈ initial, Stmt.From ts [s]) forInitial := by
  refine givesIn_peek_bind fun {c t more} hc h => ?_
  split
  case h_1 hkind =>
      exact givesAt_skip_bind hc h (by rw [hkind]; decide) (givesIn_pure fun _ hs => nomatch hs)
  case h_2 hkind =>
      refine givesAt_skip_bind hc h (by rw [hkind]; decide) ?_
      refine givesIn_variableDeclaration.map fun s hs => ?_
      rintro s' ⟨⟩
      exact hs
  case h_3 =>
      refine (givesIn_exprThenSemicolon _).map (fun e he => ?_) c hc
      rintro s' ⟨⟩
      exact from_expression he

theorem givesIn_forClauses : GivesIn ts (ClausesFrom ts) forClauses := by
  refine (points_expect (by decide)).then fun _ => givesIn_forInitial.bind fun initial hinitial => ?_
  refine (givesIn_optionalExpr .semicolon).bind fun condition hcondition => ?_
  refine (points_expect (by decide)).then fun _ => ?_
  refine (givesIn_optionalExpr .rightParen).bind fun increment hincrement => ?_
  exact (points_expect (by decide)).then fun _ => givesIn_pure ⟨hinitial, hcondition, hincrement⟩

theorem from_block {body : List Stmt} (h : Stmt.From ts body) : Stmt.From ts [.block body] :=
  Stmt.from_singleton.mpr ⟨fun _ he => absurd he List.not_mem_nil, h⟩

theorem from_loop {condition : Expr} {body : Stmt} (hcondition : condition.From ts)
    (hbody : Stmt.From ts [body]) : Stmt.From ts [.loop condition body] :=
  Stmt.from_singleton.mpr ⟨by simpa [Stmt.exprs], hbody⟩

theorem from_forLoop {clauses : ForClauses} {body : Stmt} (h : ClausesFrom ts clauses)
    (hbody : Stmt.From ts [body]) : Stmt.From ts [clauses.loop body] := by
  have hcondition : (clauses.condition.getD (.literal (.bool true))).From ts := by
    cases hgiven : clauses.condition with
    | none => exact Expr.from_literal (.bool true)
    | some condition => exact h.condition condition hgiven
  -- The increment runs behind the body, inside a block.
  have hturn (increment : Expr) (hincrement : increment ∈ clauses.increment) :
      Stmt.From ts [.block [body, .expression increment]] :=
    from_block (Stmt.from_append.mpr ⟨hbody, from_expression (h.increment increment hincrement)⟩)
  have hinside (initial loop : Stmt) (hinitial : initial ∈ clauses.initial)
      (hloop : Stmt.From ts [loop]) : Stmt.From ts [.block [initial, loop]] :=
    from_block (Stmt.from_append.mpr ⟨h.initial initial hinitial, hloop⟩)
  unfold ForClauses.loop
  dsimp only
  cases hincrement : clauses.increment with
  | none =>
      cases hinitial : clauses.initial with
      | none => exact from_loop hcondition hbody
      | some initial => exact hinside initial _ hinitial (from_loop hcondition hbody)
  | some increment =>
      have hloop := from_loop hcondition (hturn increment hincrement)
      cases hinitial : clauses.initial with
      | none => exact hloop
      | some initial => exact hinside initial _ hinitial hloop

theorem givesIn_orSync {r : Rule Stmt} (hpoints : Points ts r)
    (hr : GivesIn ts (fun s => Stmt.From ts [s]) r) :
    GivesIn ts (fun o => Stmt.From ts o.toList) (orSync r) := by
  intro c hc o after hrun
  refine ⟨?_, (points_orSync hpoints c hc).ok hrun⟩
  unfold orSync at hrun
  split at hrun
  case h_1 s next hs =>
      cases hrun
      exact (hr c hc s after hs).1
  case h_2 =>
      split at hrun
      case h_1 =>
          cases hrun
          exact Stmt.from_nil
      case h_2 => cases hrun
  case h_3 => cases hrun

end

/-! ## Statements -/

/-- What the rules for statements give, with a budget of `n`. -/
structure StmtGives (ts : List Token) (n : Nat) : Prop where
  declaration : ∀ inFunction, GivesIn ts (fun s => Stmt.From ts [s]) (declaration n inFunction)
  statement : ∀ inFunction, GivesIn ts (fun s => Stmt.From ts [s]) (statement n inFunction)
  block : ∀ inFunction, GivesIn ts (Stmt.From ts) (block n inFunction)

section
variable {ts : List Token} {n : Nat} (ih : StmtGives ts n) (inFunction : Bool)

include ih

theorem givesIn_declaration :
    GivesIn ts (fun s => Stmt.From ts [s]) (declaration (n + 1) inFunction) := by
  rw [declaration]
  refine givesIn_peek_bind fun {c t more} hc h => ?_
  split
  case h_1 hkind =>
      refine givesAt_skip_bind hc h (by rw [hkind]; decide) (points_functionHead.then fun head => ?_)
      refine (ih.block true).bind fun body hbody => givesIn_pure (Stmt.from_singleton.mpr ?_)
      exact ⟨fun _ he => absurd he List.not_mem_nil, hbody⟩
  case h_2 hkind =>
      exact givesAt_skip_bind hc h (by rw [hkind]; decide) givesIn_variableDeclaration
  case h_3 => exact ih.statement inFunction c hc

theorem givesIn_branch : GivesIn ts (fun s => Stmt.From ts [s]) (do
    let test ← condition "'(' after 'if'" "')' after if condition"
    let thenDo ← statement n inFunction
    let elseDo ← behind .kwElse none (some <$> statement n inFunction)
    return .branch test thenDo elseDo) := by
  have hbody := ih.statement inFunction
  refine (givesIn_condition _ _).bind fun test htest => hbody.bind fun thenDo hthen => ?_
  have helse : GivesIn ts (fun elseDo => Stmt.From ts elseDo.toList)
      (behind .kwElse none (some <$> statement n inFunction)) :=
    givesIn_behind (by decide) Stmt.from_nil (hbody.map fun _ hs => hs)
  refine helse.bind fun elseDo helse => givesIn_pure (Stmt.from_singleton.mpr ?_)
  exact ⟨by simpa [Stmt.exprs], Stmt.from_append.mpr ⟨hthen, helse⟩⟩

theorem givesIn_statement :
    GivesIn ts (fun s => Stmt.From ts [s]) (statement (n + 1) inFunction) := by
  have hbody := ih.statement inFunction
  rw [statement]
  refine givesIn_peek_bind fun {c t more} hc h => ?_
  split
  case h_1 hkind =>
      refine givesAt_skip_bind hc h (by rw [hkind]; decide) ?_
      refine givesIn_forClauses.bind fun clauses hclauses => hbody.bind fun body hfrom => ?_
      exact givesIn_pure (from_forLoop hclauses hfrom)
  case h_2 hkind =>
      exact givesAt_skip_bind hc h (by rw [hkind]; decide) (givesIn_branch ih inFunction)
  case h_3 hkind =>
      refine givesAt_skip_bind hc h (by rw [hkind]; decide) ?_
      refine (givesIn_exprThenSemicolon _).bind fun value hvalue => givesIn_pure ?_
      exact from_flat rfl (by simpa [Stmt.exprs])
  case h_4 hkind =>
      refine givesAt_skip_bind hc h (by rw [hkind]; decide) ?_
      exact givesIn_returnStatement (hc.ahead h)
  case h_5 hkind =>
      refine givesAt_skip_bind hc h (by rw [hkind]; decide) ?_
      refine (givesIn_condition _ _).bind fun test htest => hbody.bind fun body hfrom => ?_
      exact givesIn_pure (from_loop htest hfrom)
  case h_6 hkind =>
      refine givesAt_skip_bind hc h (by rw [hkind]; decide) ?_
      exact (ih.block inFunction).bind fun body hfrom => givesIn_pure (from_block hfrom)
  case h_7 =>
      refine GivesIn.bind (givesIn_exprThenSemicolon _) (fun value hvalue => ?_) c hc
      exact givesIn_pure (from_expression hvalue)

theorem givesIn_block : GivesIn ts (Stmt.From ts) (block (n + 1) inFunction) := by
  rw [block]
  refine points_peek.then fun t => ?_
  split
  case isTrue => exact (points_expect (by decide)).then fun _ => givesIn_pure Stmt.from_nil
  case isFalse =>
      have hpoints := (stmtPoints ts n).declaration inFunction
      refine (givesIn_orSync hpoints (ih.declaration inFunction)).bind fun stmt hstmt => ?_
      refine (ih.block inFunction).bind fun more hmore => givesIn_pure ?_
      exact Stmt.from_append.mpr ⟨hstmt, hmore⟩

end

theorem stmtGives (ts : List Token) (n : Nat) : StmtGives ts n := by
  induction n with
  | zero =>
      exact ⟨fun _ => givesIn_overBudget, fun _ => givesIn_overBudget, fun _ => givesIn_overBudget⟩
  | succ n ih => exact ⟨givesIn_declaration ih, givesIn_statement ih, givesIn_block ih⟩

theorem givesIn_program (ts : List Token) (n : Nat) : GivesIn ts (Stmt.From ts) (program n) := by
  induction n with
  | zero => exact givesIn_overBudget
  | succ n ih =>
      rw [program]
      refine Points.then (points_peek.bind fun t => points_pure _) fun atEnd => ?_
      cases atEnd with
      | true => exact givesIn_pure Stmt.from_nil
      | false =>
          have hpoints := (stmtPoints ts n).declaration false
          have hdeclaration := (stmtGives ts n).declaration false
          refine (givesIn_orSync hpoints hdeclaration).bind fun stmt hstmt => ?_
          refine ih.bind fun more hmore => givesIn_pure ?_
          exact Stmt.from_append.mpr ⟨hstmt, hmore⟩

end Parse

/-- Every literal that stands in what is read from tokens can be read from them. -/
theorem parse?_literals {ts : List Token} {parsed : Parsed} (h : parse? ts = some parsed)
    {v : Literal} (hv : Stmt.Shows parsed.statements (.literal v)) : v.From ts := by
  obtain ⟨after, hrun, -⟩ := parse?_eq_some.mp h
  have hfrom := (Parse.givesIn_program ts _ _ (Parse.within_start ts) _ _ hrun).1
  obtain ⟨s, hs, e, he, hinside⟩ := hv
  exact hfrom s hs e he v hinside

end LoxLang
