import LoxLang.Proofs.Parse.Expressions

set_option autoImplicit false

/-! # The rules read what the grammar derives

The other direction, for expressions. `Takes r input a rest` says that a rule reads `a` from the
front of `input`, leaves `rest` and reports nothing. A phrase is read by the rule of its rank if what
stands behind it cannot belong to it (`phrase_takes`).

The grammar recurses to the left where the rules loop with what they have read so far in hand. So a
phrase of a rank with operators is not said to be read in one go: the rule for the rank gets to the
loop with the tree of the phrase in hand and what stands behind it ahead (`LoopsTo`), and the loop
ends there if no operator of the rank comes next. -/

namespace LoxLang.Parse

open Grammar

/-- A rule reads something from the front and reports nothing. -/
def Takes {α : Type} (r : Rule α) (input : List Token) (a : α) (rest : List Token) : Prop :=
  ∀ reported, r ⟨input, reported⟩ = .ok a ⟨rest, reported⟩

/-! ## Putting rules together -/

section
variable {α β : Type} {r : Rule α} {f : α → Rule β} {a : α} {b : β} {input mid rest : List Token}

theorem takes_pure (a : α) (input : List Token) : Takes (pure a) input a input := fun _ => rfl

theorem Takes.bind (hr : Takes r input a mid) (hf : Takes (f a) mid b rest) :
    Takes (r >>= f) input b rest := by
  intro reported
  rw [bind_run, hr reported]
  exact hf reported

theorem Takes.map {g : α → β} (hr : Takes r input a rest) :
    Takes (g <$> r) input (g a) rest := by
  intro reported
  rw [map_run, hr reported]

variable {t : Token} {ts : List Token} {kind : Kind} {kinds : List Kind} {what : String}

theorem takes_peek (t : Token) (ts : List Token) : Takes peek (t :: ts) t (t :: ts) :=
  fun _ => rfl

theorem takes_skip (t : Token) (ts : List Token) : Takes skip (t :: ts) () ts := fun _ => rfl

theorem takes_accept?_some (h : t.kind ∈ kinds) : Takes (accept? kinds) (t :: ts) (some t) ts := by
  refine (takes_peek t ts).bind ?_
  rw [if_pos (List.contains_iff_mem.mpr h)]
  exact (takes_skip t ts).bind (takes_pure _ _)

theorem takes_accept?_none (h : t.kind ∉ kinds) :
    Takes (accept? kinds) (t :: ts) none (t :: ts) := by
  refine (takes_peek t ts).bind ?_
  rw [if_neg (fun hc => h (List.contains_iff_mem.mp hc))]
  exact takes_pure _ _

theorem takes_expect (h : t.kind = kind) : Takes (expect kind what) (t :: ts) t ts := by
  refine (takes_peek t ts).bind ?_
  rw [if_pos (beq_iff_eq.mpr h)]
  exact (takes_skip t ts).bind (takes_pure _ _)

theorem takes_sees : Takes (sees kind) (t :: ts) (t.kind == kind) (t :: ts) :=
  (takes_peek t ts).bind (takes_pure _ _)

theorem takes_unlessNext_absent (h : t.kind = kind) :
    Takes (unlessNext kind a r) (t :: ts) a (t :: ts) := by
  refine takes_sees.bind ?_
  rw [if_pos (beq_iff_eq.mpr h)]
  exact takes_pure _ _

theorem takes_unlessNext {absent : α} (h : t.kind ≠ kind) (hr : Takes r (t :: ts) a rest) :
    Takes (unlessNext kind absent r) (t :: ts) a rest := by
  refine takes_sees.bind ?_
  rw [if_neg (fun hc => h (beq_iff_eq.mp hc))]
  exact hr

theorem takes_behind_absent (h : t.kind ≠ kind) :
    Takes (behind kind a r) (t :: ts) a (t :: ts) := by
  have hnone : t.kind ∉ [kind] := by simpa using h
  have haccept : Takes (accept kind) (t :: ts) false (t :: ts) := by
    refine Takes.bind (takes_accept?_none hnone) ?_
    exact takes_pure _ _
  refine haccept.bind ?_
  exact takes_pure _ _

theorem behind_run {absent : α} (h : t.kind = kind) (reported : List Diagnostic) :
    behind kind absent r ⟨t :: ts, reported⟩ = r ⟨ts, reported⟩ := by
  have hsome : t.kind ∈ [kind] := by simpa using h
  have haccept : Takes (accept kind) (t :: ts) true ts := by
    refine Takes.bind (takes_accept?_some hsome) ?_
    exact takes_pure _ _
  unfold behind
  rw [bind_run, haccept reported]
  rfl

theorem takes_behind {absent : α} (h : t.kind = kind) (hr : Takes r ts a rest) :
    Takes (behind kind absent r) (t :: ts) a rest := by
  intro reported
  rw [behind_run h]
  exact hr reported

theorem takes_checkCount {fault : GrammarFault} {count : Nat} (h : count < 8)
    (input : List Token) : Takes (checkCount fault count) input () input := by
  have hne : ¬ (count == maxArguments) = true := by
    simp only [maxArguments, beq_iff_eq]
    omega
  unfold checkCount
  rw [if_neg hne]
  exact takes_pure _ _

end

/-! ## What may stand behind a phrase -/

/-- The ranks with operators that bind tighter than one of them. -/
def ranksBelow (r : Rank) : List Rank := (levelRanks.dropWhile (· != r)).drop 1

/-- What stands behind a phrase cannot belong to it: the next token neither calls it nor is one of
the operators of the ranks `rs`. -/
def Stops (rs : List Rank) (rest : List Token) : Prop :=
  ∃ t more, rest = t :: more ∧ t.kind ≠ .leftParen ∧ ∀ r ∈ rs, t.kind ∉ r.operators

theorem Stops.tail {r : Rank} {rs : List Rank} {rest : List Token} (h : Stops (r :: rs) rest) :
    Stops rs rest := by
  obtain ⟨t, more, hrest, hparen, hops⟩ := h
  exact ⟨t, more, hrest, hparen, fun r' hr' => hops r' (List.mem_cons_of_mem _ hr')⟩

/-- A token that ends an expression wherever it stands. -/
def endsExpression (kind : Kind) : Bool :=
  [Kind.rightParen, .comma, .semicolon].contains kind

theorem stops_of_ends {t : Token} {more : List Token} (h : endsExpression t.kind = true) :
    Stops levelRanks (t :: more) := by
  have hk : t.kind = .rightParen ∨ t.kind = .comma ∨ t.kind = .semicolon := by
    simpa [endsExpression] using h
  refine ⟨t, more, rfl, ?_, fun r hr => ?_⟩
  · rcases hk with h | h | h <;> simp [h]
  · rcases hk with h | h | h <;> rw [h] <;> cases r <;> simp [Rank.operators]

/-- No two ranks share an operator. -/
theorem operators_disjoint {r r' : Rank} {kind : Kind} (h : kind ∈ r.operators)
    (h' : kind ∈ r'.operators) : r = r' := by
  cases r <;> simp only [Rank.operators, List.mem_cons, List.not_mem_nil, or_false] at h <;>
    cases r' <;> simp only [Rank.operators, List.mem_cons, List.not_mem_nil, or_false] at h' <;>
    grind

theorem stops_of_operator {r : Rank} {rs : List Rank} {op : Token} {more : List Token}
    (hr : r ∉ rs) (hop : op.kind ∈ r.operators) : Stops rs (op :: more) := by
  refine ⟨op, more, rfl, fun hk => ?_, fun r' hr' hop' => ?_⟩
  · rw [hk] at hop
    cases r <;> simp [Rank.operators] at hop
  · exact hr (operators_disjoint hop hop' ▸ hr')

/-! ## One level of operators -/

/-- The rule for the ranks `rs` reads a phrase. -/
def TakesAt (rs : List Rank) (ts : List Token) (e : Expr) : Prop :=
  ∀ n rest, Stops rs rest → 16 * (ts.length + rest.length) + 4 + rs.length ≤ n →
    Takes (binary n (rs.map rankLevel)) (ts ++ rest) e rest

/-- The rule for the rank `r`, with `rs` below it, gets to its loop with a phrase in hand. -/
def LoopsTo (r : Rank) (rs : List Rank) (ts : List Token) (e : Expr) : Prop :=
  ∀ n rest, Stops rs rest → 16 * (ts.length + rest.length) + 5 + rs.length ≤ n →
    ∃ m, 16 * rest.length + 1 ≤ m ∧ ∀ reported,
      binary n ((r :: rs).map rankLevel) ⟨ts ++ rest, reported⟩ =
        binaryRest m (rankLevel r) (rs.map rankLevel) e ⟨rest, reported⟩

section
variable {r : Rank} {rs : List Rank} {ts us : List Token} {left right e : Expr} {op : Token}

theorem loopsTo_operand (hne : 0 < ts.length) (h : TakesAt rs ts e) : LoopsTo r rs ts e := by
  intro n rest hstops hn
  obtain ⟨n, rfl⟩ : ∃ k, n = k + 1 := ⟨n - 1, by omega⟩
  refine ⟨n, by omega, fun reported => ?_⟩
  rw [List.map_cons, binary, bind_run, h n rest hstops (by omega) reported]

theorem LoopsTo.operator (hleft : LoopsTo r rs ts left) (hr : r ∉ rs) (hlen : rs.length ≤ 5)
    (hop : op.kind ∈ r.operators) (hright : TakesAt rs us right) :
    LoopsTo r rs (ts ++ op :: us) (r.join left op right) := by
  intro n rest hstops hn
  simp only [List.length_append, List.length_cons] at hn
  -- The loop is reached with `left` in hand and `op` ahead; one more turn takes the rest.
  obtain ⟨m, hm, hrun⟩ := hleft n (op :: (us ++ rest)) (stops_of_operator hr hop)
    (by simp only [List.length_append, List.length_cons]; omega)
  simp only [List.length_append, List.length_cons] at hm
  obtain ⟨m, rfl⟩ : ∃ k, m = k + 1 := ⟨m - 1, by omega⟩
  refine ⟨m, by omega, fun reported => ?_⟩
  have happend : ts ++ op :: us ++ rest = ts ++ op :: (us ++ rest) := by simp
  have hop' : op.kind ∈ (rankLevel r).kinds := hop
  rw [happend, hrun reported, binaryRest, bind_run, takes_accept?_some hop' reported]
  show ((binary m (rs.map rankLevel)) >>= fun right =>
    binaryRest m (rankLevel r) (rs.map rankLevel) (r.join left op right)) _ = _
  rw [bind_run, hright m rest hstops (by omega) reported]

theorem LoopsTo.takes (h : LoopsTo r rs ts e) : TakesAt (r :: rs) ts e := by
  intro n rest hstops hn reported
  rw [List.length_cons] at hn
  obtain ⟨m, hm, hrun⟩ := h n rest hstops.tail (by omega)
  obtain ⟨m, rfl⟩ : ∃ k, m = k + 1 := ⟨m - 1, by omega⟩
  obtain ⟨t, more, rfl, -, hops⟩ := hstops
  have hop : t.kind ∉ (rankLevel r).kinds := hops r List.mem_cons_self
  rw [hrun reported, binaryRest, bind_run, takes_accept?_none hop reported]
  rfl

end

/-! ## The other ranks -/

/-- The rule for assignments reads a phrase. -/
def TakesExpr (ts : List Token) (e : Expr) : Prop :=
  ∀ n rest, Stops levelRanks rest → (∃ t more, rest = t :: more ∧ t.kind ≠ .equal) →
    16 * (ts.length + rest.length) + 11 ≤ n → Takes (expression n) (ts ++ rest) e rest

/-- The rule for unary expressions reads a phrase. -/
def TakesUnary (ts : List Token) (e : Expr) : Prop :=
  ∀ n rest, Stops [] rest → 16 * (ts.length + rest.length) + 3 ≤ n →
    Takes (unary n) (ts ++ rest) e rest

/-- The rule for calls gets to its loop with a phrase in hand. -/
def LoopsToCall (ts : List Token) (e : Expr) : Prop :=
  ∀ n rest, 16 * (ts.length + rest.length) + 2 ≤ n →
    ∃ m, 16 * rest.length + 1 ≤ m ∧ ∀ reported,
      call n ⟨ts ++ rest, reported⟩ = callRest m e ⟨rest, reported⟩

/-- The rule for primary expressions reads a phrase. -/
def TakesPrimary (ts : List Token) (e : Expr) : Prop :=
  ∀ n rest, 16 * (ts.length + rest.length) + 1 ≤ n → Takes (primary n) (ts ++ rest) e rest

/-- The rule for arguments reads them before a closing parenthesis. -/
def TakesArgs (ts : List Token) (es : List Expr) : Prop :=
  ∀ n count t rest, t.kind = .rightParen → count + es.length ≤ 8 →
    16 * (ts.length + rest.length + 1) + 12 ≤ n →
    Takes (arguments n count) (ts ++ t :: rest) es (t :: rest)

section
variable {ts us : List Token} {e callee right value : Expr} {args : List Expr}
  {op name equals opening closing t : Token}

theorem takesExpr_operand (h : TakesAt levelRanks ts e) : TakesExpr ts e := by
  intro n rest hstops hequal hn
  obtain ⟨n, rfl⟩ : ∃ k, n = k + 1 := ⟨n - 1, by omega⟩
  rw [expression]
  refine Takes.bind (h n rest hstops
    (by simp only [levelRanks, List.length_cons, List.length_nil]; omega)) ?_
  obtain ⟨t, more, rfl, ht⟩ := hequal
  have hnone : t.kind ∉ [Kind.equal] := by simpa using ht
  refine Takes.bind (takes_accept?_none hnone) ?_
  exact takes_pure _ _

theorem takesExpr_assign (hequals : equals.kind = .equal)
    (htarget : TakesAt levelRanks [name] (.name name)) (hvalue : TakesExpr ts value) :
    TakesExpr (name :: equals :: ts) (.assign name value) := by
  intro n rest hstops hequal hn
  simp only [List.length_cons] at hn
  obtain ⟨n, rfl⟩ : ∃ k, n = k + 1 := ⟨n - 1, by omega⟩
  -- The target is read like any operand: the equals sign behind it is no operator.
  have hbehind : Stops levelRanks (equals :: (ts ++ rest)) := by
    refine ⟨equals, _, rfl, by simp [hequals], fun r _ => ?_⟩
    rw [hequals]
    cases r <;> simp [Rank.operators]
  have hleft := htarget n (equals :: (ts ++ rest)) hbehind
    (by simp only [levelRanks, List.length_cons, List.length_append, List.length_nil]; omega)
  rw [expression]
  refine Takes.bind hleft ?_
  have hsome : equals.kind ∈ [Kind.equal] := by simpa using hequals
  refine Takes.bind (takes_accept?_some hsome) ?_
  refine Takes.bind (hvalue n rest hstops hequal (by omega)) ?_
  exact takes_pure _ _

theorem takesAt_unary (h : TakesUnary ts e) : TakesAt [] ts e := by
  intro n rest hstops hn
  obtain ⟨n, rfl⟩ : ∃ k, n = k + 1 := ⟨n - 1, by omega⟩
  rw [List.map_nil, binary]
  exact h n rest hstops (by simp only [List.length_nil] at hn; omega)

theorem takesUnary_operand (hfirst : ∃ t more, ts = t :: more ∧ startsOperand t.kind = true)
    (h : LoopsToCall ts e) : TakesUnary ts e := by
  intro n rest hstops hn
  obtain ⟨n, rfl⟩ : ∃ k, n = k + 1 := ⟨n - 1, by omega⟩
  obtain ⟨t, more, rfl, ht⟩ := hfirst
  have hnone : t.kind ∉ unaryKinds := by
    intro hmem
    simp only [unaryKinds, List.mem_cons, List.not_mem_nil, or_false] at hmem
    rcases hmem with h | h | h | h | h <;> rw [h] at ht <;> simp [startsOperand] at ht
  rw [unary]
  refine Takes.bind (takes_accept?_none hnone) ?_
  intro reported
  obtain ⟨m, hm, hrun⟩ := h n rest (by omega)
  obtain ⟨m, rfl⟩ : ∃ k, m = k + 1 := ⟨m - 1, by omega⟩
  -- No parenthesis follows, so the loop over calls ends where it was reached.
  obtain ⟨u, us, rfl, hparen, -⟩ := hstops
  show call n ⟨t :: more ++ u :: us, reported⟩ = _
  rw [hrun reported, callRest]
  exact takes_behind_absent hparen reported

theorem takesUnary_prefix (hop : op.kind = .bang ∨ op.kind = .minus) (h : TakesUnary ts right) :
    TakesUnary (op :: ts) (.unary op right) := by
  intro n rest hstops hn
  rw [List.length_cons] at hn
  obtain ⟨n, rfl⟩ : ∃ k, n = k + 1 := ⟨n - 1, by omega⟩
  have hsome : op.kind ∈ unaryKinds := by
    rcases hop with h | h <;> simp [h, unaryKinds]
  rw [unary]
  refine Takes.bind (takes_accept?_some hsome) ?_
  refine Takes.bind (h n rest hstops (by omega)) ?_
  have hsupport : supportsUnary op.kind = true := by
    rcases hop with h | h <;> simp [h, supportsUnary]
  rw [if_pos hsupport]
  exact takes_pure _ _

theorem loopsToCall_operand (hne : 0 < ts.length) (h : TakesPrimary ts e) : LoopsToCall ts e := by
  intro n rest hn
  obtain ⟨n, rfl⟩ : ∃ k, n = k + 1 := ⟨n - 1, by omega⟩
  refine ⟨n, by omega, fun reported => ?_⟩
  rw [call, bind_run, h n rest (by omega) reported]

/-- A call behind a callee, with its arguments or without. -/
theorem LoopsToCall.call (hcallee : LoopsToCall ts callee) (hopening : opening.kind = .leftParen)
    (hclosing : closing.kind = .rightParen)
    (hargs : (us = [] ∧ args = []) ∨ TakesArgs us args ∧ args.length ≤ 8 ∧
      ∃ t more, us = t :: more ∧ t.kind ≠ .rightParen) :
    LoopsToCall (ts ++ opening :: (us ++ [closing])) (.call callee closing args) := by
  intro n rest hn
  simp only [List.length_append, List.length_cons, List.length_nil] at hn
  obtain ⟨m, hm, hrun⟩ := hcallee n (opening :: (us ++ closing :: rest))
    (by simp only [List.length_append, List.length_cons]; omega)
  simp only [List.length_append, List.length_cons] at hm
  obtain ⟨m, rfl⟩ : ∃ k, m = k + 1 := ⟨m - 1, by omega⟩
  refine ⟨m, by omega, fun reported => ?_⟩
  have happend : ts ++ opening :: (us ++ [closing]) ++ rest
      = ts ++ opening :: (us ++ closing :: rest) := by simp
  have hread : Takes (unlessNext .rightParen [] (arguments m 0)) (us ++ closing :: rest) args
      (closing :: rest) := by
    rcases hargs with ⟨rfl, rfl⟩ | ⟨hargs, hle, t, more, rfl, ht⟩
    · exact takes_unlessNext_absent hclosing
    · refine takes_unlessNext ht ?_
      exact hargs m 0 closing rest hclosing (by omega) (by omega)
  rw [happend, hrun reported, callRest, behind_run hopening, bind_run, hread reported]
  show (expect .rightParen _ >>= fun paren => callRest m (.call callee paren args)) _ = _
  rw [bind_run, takes_expect hclosing reported]

theorem takesArgs_last (h : TakesExpr ts e) : TakesArgs ts [e] := by
  intro n count t rest ht hcount hn
  obtain ⟨n, rfl⟩ : ∃ k, n = k + 1 := ⟨n - 1, by omega⟩
  have hends : endsExpression t.kind = true := by rw [ht]; rfl
  have hequal : t.kind ≠ .equal := by simp [ht]
  have hcomma : t.kind ≠ .comma := by simp [ht]
  rw [List.length_singleton] at hcount
  rw [arguments]
  refine Takes.bind (takes_checkCount (by omega) _) ?_
  refine Takes.bind (h n (t :: rest) (stops_of_ends hends) ⟨t, rest, rfl, hequal⟩
    (by rw [List.length_cons]; omega)) ?_
  refine Takes.bind (takes_behind_absent hcomma) ?_
  exact takes_pure _ _

theorem takesArgs_more (h : TakesExpr ts e) (ht : t.kind = .comma) (hargs : TakesArgs us args) :
    TakesArgs (ts ++ t :: us) (e :: args) := by
  intro n count closing rest hclosing hcount hn
  simp only [List.length_append, List.length_cons] at hcount hn
  obtain ⟨n, rfl⟩ : ∃ k, n = k + 1 := ⟨n - 1, by omega⟩
  have hends : endsExpression t.kind = true := by rw [ht]; rfl
  have hequal : t.kind ≠ .equal := by simp [ht]
  have happend : ts ++ t :: us ++ closing :: rest = ts ++ t :: (us ++ closing :: rest) := by simp
  rw [happend, arguments]
  refine Takes.bind (takes_checkCount (by omega) _) ?_
  refine Takes.bind (h n _ (stops_of_ends hends) ⟨t, _, rfl, hequal⟩
    (by simp only [List.length_append, List.length_cons]; omega)) ?_
  refine Takes.bind (takes_behind ht (hargs n _ closing rest hclosing (by omega) (by omega))) ?_
  exact takes_pure _ _

theorem takesPrimary_constant (h : constant? t = some e) : TakesPrimary [t] e := by
  intro n rest hn
  obtain ⟨n, rfl⟩ : ∃ k, n = k + 1 := ⟨n - 1, by omega⟩
  rw [primary]
  refine Takes.bind (takes_peek t _) ?_
  rw [h]
  refine Takes.bind (takes_skip t _) ?_
  exact takes_pure _ _

theorem takesPrimary_group (hopening : opening.kind = .leftParen) (h : TakesExpr ts e)
    (hclosing : closing.kind = .rightParen) :
    TakesPrimary (opening :: (ts ++ [closing])) (.group e) := by
  intro n rest hn
  simp only [List.length_append, List.length_cons, List.length_nil] at hn
  obtain ⟨n, rfl⟩ : ∃ k, n = k + 1 := ⟨n - 1, by omega⟩
  have hends : endsExpression closing.kind = true := by rw [hclosing]; rfl
  have hequal : closing.kind ≠ .equal := by simp [hclosing]
  have hconstant : constant? opening = none := by simp [constant?, hopening]
  have happend : opening :: (ts ++ [closing]) ++ rest = opening :: (ts ++ closing :: rest) := by
    simp
  rw [happend, primary]
  refine Takes.bind (takes_peek opening _) ?_
  rw [hconstant]
  dsimp only
  rw [if_pos (beq_iff_eq.mpr hopening)]
  refine Takes.bind (takes_skip opening _) ?_
  refine Takes.bind (h n _ (stops_of_ends hends) ⟨closing, rest, rfl, hequal⟩
    (by rw [List.length_cons]; omega)) ?_
  refine Takes.bind (takes_expect hclosing) ?_
  exact takes_pure _ _

end

/-! ## Every phrase -/

/-- The rule for a rank reads a phrase, or gets to its loop with it. -/
def TakesAs : Rank → List Token → Expr → Prop
  | .assign => TakesExpr
  | .unary => TakesUnary
  | .call => LoopsToCall
  | .primary => TakesPrimary
  | r => LoopsTo r (ranksBelow r)

/-- Without an operator of its own, a rank takes what the tighter one does. -/
theorem takesAs_operand {r : Rank} {ts : List Token} {e : Expr} {t : Token} {more : List Token}
    (hts : ts = t :: more) (hunary : r = .unary → startsOperand t.kind = true)
    (h : TakesAs r.tighter ts e) : TakesAs r ts e := by
  have hne : 0 < ts.length := by simp [hts]
  cases r with
  | assign => exact takesExpr_operand h.takes
  | or => exact loopsTo_operand hne h.takes
  | and => exact loopsTo_operand hne h.takes
  | equality => exact loopsTo_operand hne h.takes
  | comparison => exact loopsTo_operand hne h.takes
  | addition => exact loopsTo_operand hne h.takes
  | multiplication => exact loopsTo_operand hne (takesAt_unary h)
  | unary => exact takesUnary_operand ⟨t, more, hts, hunary rfl⟩ h
  | call => exact loopsToCall_operand hne h
  | primary => exact h

theorem takesAs_name {name : Token} (h : name.kind = .identifier) :
    TakesAs .or [name] (.name name) := by
  -- From the primary expressions up, each rank takes the name because the one below does.
  have step {r : Rank} (hr : TakesAs r.tighter [name] (.name name)) :
      TakesAs r [name] (.name name) :=
    takesAs_operand rfl (fun _ => by rw [h]; rfl) hr
  have hprimary : TakesAs .primary [name] (.name name) :=
    takesPrimary_constant (by simp [constant?, h])
  exact step (r := .or) (step (r := .and) (step (r := .equality) (step (r := .comparison)
    (step (r := .addition) (step (r := .multiplication) (step (r := .unary)
      (step (r := .call) hprimary)))))))

/-- A rank with operators takes an operator and an operand of the tighter rank. -/
theorem takesAs_operator {r : Rank} {ts us : List Token} {left right : Expr} {op : Token}
    (hleft : TakesAs r ts left) (hop : op.kind ∈ r.operators)
    (hright : TakesAs r.tighter us right) :
    TakesAs r (ts ++ op :: us) (r.join left op right) := by
  cases r with
  | or => exact LoopsTo.operator hleft (by decide) (by decide) hop hright.takes
  | and => exact LoopsTo.operator hleft (by decide) (by decide) hop hright.takes
  | equality => exact LoopsTo.operator hleft (by decide) (by decide) hop hright.takes
  | comparison => exact LoopsTo.operator hleft (by decide) (by decide) hop hright.takes
  | addition => exact LoopsTo.operator hleft (by decide) (by decide) hop hright.takes
  | multiplication =>
      exact LoopsTo.operator hleft (by decide) (by decide) hop (takesAt_unary hright)
  | assign => simp [Rank.operators] at hop
  | unary => simp [Rank.operators] at hop
  | call => simp [Rank.operators] at hop
  | primary => simp [Rank.operators] at hop

mutual

theorem phrase_takes {r : Rank} {ts : List Token} {e : Expr} (h : Phrase r ts e) :
    TakesAs r ts e := by
  match h with
  | .operand (r := r) h =>
      -- What starts a call is no unary operator, so the rule for those passes it on.
      obtain ⟨t, more, hts, -, hcall⟩ := h.first
      refine takesAs_operand hts (fun hr => hcall ?_) (phrase_takes h)
      simp [hr, Rank.tighter]
  | .assign hname hequals hvalue =>
      exact takesExpr_assign hequals (takesAs_name hname).takes (phrase_takes hvalue)
  | .operator hleft hop hright =>
      exact takesAs_operator (phrase_takes hleft) hop (phrase_takes hright)
  | .unary hop hright => exact takesUnary_prefix hop (phrase_takes hright)
  | .callNone hcallee hopening hclosing =>
      exact (phrase_takes hcallee).call hopening hclosing (Or.inl ⟨rfl, rfl⟩)
  | .call hcallee hopening hargs hle hclosing =>
      obtain ⟨t, more, hus, hfirst⟩ := hargs.first
      refine (phrase_takes hcallee).call hopening hclosing
        (Or.inr ⟨arguments_take hargs, hle, t, more, hus, fun hk => ?_⟩)
      simp [hk, startsExpression, startsOperand] at hfirst
  | .constant hk => exact takesPrimary_constant (by rcases hk with hk | hk <;> simp [constant?, hk])
  | .name hk => exact takesPrimary_constant (by simp [constant?, hk])
  | .trueWord hk => exact takesPrimary_constant (by simp [constant?, hk])
  | .falseWord hk => exact takesPrimary_constant (by simp [constant?, hk])
  | .nilWord hk => exact takesPrimary_constant (by simp [constant?, hk])
  | .group hopening hinner hclosing =>
      exact takesPrimary_group hopening (phrase_takes hinner) hclosing

theorem arguments_take {ts : List Token} {es : List Expr} (h : Arguments ts es) :
    TakesArgs ts es := by
  match h with
  | .last harg => exact takesArgs_last (phrase_takes harg)
  | .more harg hcomma hargs =>
      exact takesArgs_more (phrase_takes harg) hcomma (arguments_take hargs)

end

/-- An expression is read up to a token that ends it. -/
theorem takes_expr {ts rest : List Token} {e : Expr} {t : Token} (h : Phrase .assign ts e)
    (ht : endsExpression t.kind = true) : Takes expr (ts ++ t :: rest) e (t :: rest) := by
  have hequal : t.kind ≠ .equal := by
    intro hk
    simp [endsExpression, hk] at ht
  intro reported
  refine phrase_takes h _ _ (stops_of_ends ht) ⟨t, rest, rfl, hequal⟩ ?_ reported
  simp only [budget, List.length_append]
  omega

end LoxLang.Parse
