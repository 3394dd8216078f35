import LoxLang.Proofs.Parse.Accepts

set_option autoImplicit false

/-! # Where the grammar objects

Whatever is reported while a token list is read is reported at a token of that list, and at none
behind the first end of input (`parse?_pointed`). A rule looks at the next token only, so it is enough
that the cursor never gets past the end of input and that a fault names a token that was next at some
time. Discarding tokens after a fault keeps to that as well: it stops at the end of input. -/

namespace LoxLang.Parse

/-- The token stands at or before the first end of input of the list. -/
def Ahead (ts : List Token) (t : Token) : Prop :=
  ∃ before behind, ts = before ++ t :: behind ∧ Inner before

/-- The diagnostic is an objection of the grammar to such a token. -/
def Pointed (ts : List Token) (d : Diagnostic) : Prop :=
  ∃ (t : Token) (fault : GrammarFault), Ahead ts t ∧ d = fault.located t

/-- The cursor stands in the list, not behind its first end of input, and so does all it has
reported. -/
structure Within (ts : List Token) (c : Cursor) : Prop where
  place : ∃ us, ts = us ++ c.rest ∧ Inner us
  reported : ∀ d ∈ c.reported, Pointed ts d

/-- What the rule reports from that cursor on, or stops with, points at a token of the list. -/
structure PointsAt {α : Type} (ts : List Token) (r : Rule α) (c : Cursor) : Prop where
  ok : ∀ {a : α} {after : Cursor}, r c = .ok a after → Within ts after
  fault : ∀ {d : Diagnostic} {after : Cursor},
    r c = .error (.fault d) after → Within ts after ∧ Pointed ts d

/-- The same from wherever in the list the rule is applied. -/
def Points {α : Type} (ts : List Token) (r : Rule α) : Prop :=
  ∀ c, Within ts c → PointsAt ts r c

section
variable {α β : Type} {ts : List Token} {c : Cursor} {t : Token} {more : List Token}

theorem within_start (ts : List Token) : Within ts ⟨ts, []⟩ :=
  ⟨⟨[], rfl, inner_nil⟩, fun _ hd => absurd hd List.not_mem_nil⟩

theorem Within.ahead (hc : Within ts c) (h : c.rest = t :: more) : Ahead ts t := by
  obtain ⟨us, hts, hus⟩ := hc.place
  exact ⟨us, more, h ▸ hts, hus⟩

/-- Over tokens that do not end the input the cursor stays within the list. -/
theorem Within.forward {rest : List Token} (hc : Within ts c) (us : List Token)
    (h : c.rest = us ++ rest) (hus : Inner us) : Within ts { c with rest := rest } := by
  obtain ⟨vs, hts, hvs⟩ := hc.place
  refine ⟨⟨vs ++ us, ?_, inner_append.mpr ⟨hvs, hus⟩⟩, hc.reported⟩
  rw [hts, h, List.append_assoc]

theorem Within.report {d : Diagnostic} (hc : Within ts c) (hd : Pointed ts d) :
    Within ts { c with reported := c.reported ++ [d] } := by
  refine ⟨hc.place, fun d' hmem => ?_⟩
  rcases List.mem_append.mp hmem with hold | hnew
  · exact hc.reported d' hold
  · rw [List.mem_singleton.mp hnew]
    exact hd

/-! ## Running rules one after the other -/

theorem points_pure (a : α) : Points ts (pure a) := by
  refine fun c hc => ⟨?_, ?_⟩
  · rintro b after ⟨⟩
    exact hc
  · rintro d after ⟨⟩

theorem points_overBudget : Points ts (throw .overBudget : Rule α) := by
  refine fun c hc => ⟨?_, ?_⟩
  · rintro b after ⟨⟩
  · rintro d after ⟨⟩

theorem points_refuse {fault : GrammarFault} (ht : Ahead ts t) :
    Points ts (refuse fault t : Rule α) := by
  refine fun c hc => ⟨?_, ?_⟩
  · rintro b after ⟨⟩
  · rintro d after ⟨⟩
    exact ⟨hc, t, fault, ht, rfl⟩

theorem points_report {fault : GrammarFault} (ht : Ahead ts t) : Points ts (report fault t) := by
  refine fun c hc => ⟨?_, ?_⟩
  · rintro b after ⟨⟩
    exact hc.report ⟨t, fault, ht, rfl⟩
  · rintro d after ⟨⟩

theorem PointsAt.bind {r : Rule α} {f : α → Rule β} (hr : PointsAt ts r c)
    (hf : ∀ a, Points ts (f a)) : PointsAt ts (r >>= f) c := by
  constructor
  · intro b after h
    rw [bind_run] at h
    cases hrun : r c with
    | ok a mid =>
        rw [hrun] at h
        exact (hf a mid (hr.ok hrun)).ok h
    | error halt mid =>
        rw [hrun] at h
        cases h
  · intro d after h
    rw [bind_run] at h
    cases hrun : r c with
    | ok a mid =>
        rw [hrun] at h
        exact (hf a mid (hr.ok hrun)).fault h
    | error halt mid =>
        rw [hrun] at h
        cases h
        exact hr.fault hrun

theorem Points.bind {r : Rule α} {f : α → Rule β} (hr : Points ts r) (hf : ∀ a, Points ts (f a)) :
    Points ts (r >>= f) :=
  fun c hc => (hr c hc).bind hf

theorem Points.map {r : Rule α} {f : α → β} (hr : Points ts r) : Points ts (f <$> r) := by
  rw [map_eq_pure_bind]
  exact hr.bind fun a => points_pure (f a)

/-! ## Single tokens -/

/-- A rule that looks at the next token may object to it. -/
theorem points_peek_bind {f : Token → Rule α}
    (hf : ∀ {c : Cursor} {t : Token} {more : List Token}, Within ts c → c.rest = t :: more →
      PointsAt ts (f t) c) : Points ts (peek >>= f) := by
  intro c hc
  cases h : c.rest with
  | nil =>
      have hrun : (peek >>= f) c = .error .ranOut c := by
        rw [bind_run, peek, h]
      constructor
      · intro a after hok
        rw [hrun] at hok
        cases hok
      · intro d after herror
        rw [hrun] at herror
        cases herror
  | cons t more =>
      have hrun : (peek >>= f) c = f t c := by
        rw [bind_run, peek, h]
      constructor
      · intro a after hok
        exact (hf hc h).ok (hrun ▸ hok)
      · intro d after herror
        exact (hf hc h).fault (hrun ▸ herror)

theorem points_peek : Points ts peek := by
  rw [← bind_pure peek]
  exact points_peek_bind fun {c t _} hc _ => points_pure t c hc

/-- The next token, which has been looked at, does not end the input and is taken. -/
theorem pointsAt_skip_bind {f : Unit → Rule α} (hc : Within ts c) (h : c.rest = t :: more)
    (ht : t.kind ≠ .endOfInput) (hf : Points ts (f ())) : PointsAt ts (skip >>= f) c := by
  have hskip : PointsAt ts skip c := by
    constructor
    · rintro a after ⟨⟩
      rw [h, List.drop_one, List.tail_cons]
      exact hc.forward [t] h (inner_singleton ht)
    · rintro d after ⟨⟩
  exact hskip.bind fun _ => hf

theorem points_accept?_bind {kinds : List Kind} {f : Option Token → Rule α}
    (hk : Kind.endOfInput ∉ kinds) (hnone : Points ts (f none))
    (hsome : ∀ t, Ahead ts t → Points ts (f (some t))) : Points ts (accept? kinds >>= f) := by
  -- What follows goes under the look at the token, where that token is known to be the next.
  have hassoc : accept? kinds >>= f = peek >>= fun t =>
      (if kinds.contains t.kind then skip >>= fun _ => pure (some t) else pure none) >>= f := by
    rw [accept?, bind_assoc]
  rw [hassoc]
  refine points_peek_bind fun {c t more} hc h => ?_
  by_cases ht : t.kind ∈ kinds
  · rw [if_pos (List.contains_iff_mem.mpr ht), bind_assoc]
    refine pointsAt_skip_bind hc h (fun he => hk (he ▸ ht)) ?_
    rw [pure_bind]
    exact hsome t (hc.ahead h)
  · rw [if_neg (fun hmem => ht (List.contains_iff_mem.mp hmem)), pure_bind]
    exact hnone c hc

theorem points_expect {kind : Kind} {what : String} (hk : kind ≠ .endOfInput) :
    Points ts (expect kind what) := by
  refine points_peek_bind fun {c t more} hc h => ?_
  by_cases ht : t.kind = kind
  · rw [if_pos (beq_iff_eq.mpr ht)]
    exact pointsAt_skip_bind hc h (fun he => hk (ht.symm.trans he)) (points_pure t)
  · rw [if_neg (fun hkind => ht (beq_iff_eq.mp hkind))]
    exact points_refuse (hc.ahead h) c hc

/-! ## Parts that may be absent -/

variable {absent : α} {part : Rule α}

theorem points_unlessNext {kind : Kind} (hpart : Points ts part) :
    Points ts (unlessNext kind absent part) := by
  refine Points.bind (points_peek.bind fun t => points_pure _) fun next => ?_
  cases next with
  | true => exact points_pure absent
  | false => exact hpart

theorem points_accept {kind : Kind} (hk : kind ≠ .endOfInput) : Points ts (accept kind) := by
  have hkinds : Kind.endOfInput ∉ [kind] := fun h => hk (List.mem_singleton.mp h).symm
  exact points_accept?_bind hkinds (points_pure _) fun t _ => points_pure _

theorem points_behind {kind : Kind} (hk : kind ≠ .endOfInput) (hpart : Points ts part) :
    Points ts (behind kind absent part) := by
  refine (points_accept hk).bind fun taken => ?_
  cases taken with
  | true => exact hpart
  | false => exact points_pure absent

theorem points_checkCount {fault : GrammarFault} {count : Nat} :
    Points ts (checkCount fault count) := by
  unfold checkCount
  split
  case isTrue => exact points_peek_bind fun {c t more} hc h => points_report (hc.ahead h) c hc
  case isFalse => exact points_pure ()

end

/-! ## Expressions -/

/-- All rules for expressions with a budget of `n`. -/
structure ExprPoints (ts : List Token) (n : Nat) : Prop where
  expression : Points ts (expression n)
  binary : ∀ ls, (∀ l ∈ ls, Kind.endOfInput ∉ l.kinds) → Points ts (binary n ls)
  binaryRest : ∀ l ls left, (∀ l' ∈ l :: ls, Kind.endOfInput ∉ l'.kinds) →
    Points ts (binaryRest n l ls left)
  unary : Points ts (unary n)
  call : Points ts (call n)
  callRest : ∀ callee, Points ts (callRest n callee)
  arguments : ∀ count, Points ts (arguments n count)
  primary : Points ts (primary n)

section
variable {ts : List Token} {n : Nat} (ih : ExprPoints ts n)

include ih

/-- Behind an equals sign an expression is read before its target is looked at; the objection is to
the equals sign. -/
theorem points_expression : Points ts (expression (n + 1)) := by
  have hlevels : ∀ l ∈ levels, Kind.endOfInput ∉ l.kinds := by decide
  rw [expression]
  refine (ih.binary levels hlevels).bind fun left => ?_
  refine points_accept?_bind (by decide) (points_pure left) fun equals hequals => ?_
  refine ih.expression.bind fun value => ?_
  cases target? left with
  | some name => exact points_pure _
  | none => exact (points_report hequals).bind fun _ => points_pure left

theorem points_binary (ls : List Level) (hls : ∀ l ∈ ls, Kind.endOfInput ∉ l.kinds) :
    Points ts (binary (n + 1) ls) := by
  cases ls with
  | nil =>
      rw [binary]
      exact ih.unary
  | cons l ls =>
      rw [binary]
      refine (ih.binary ls fun l' hl' => hls l' (List.mem_cons_of_mem l hl')).bind fun left => ?_
      exact ih.binaryRest l ls left hls

theorem points_binaryRest (l : Level) (ls : List Level) (left : Expr)
    (hls : ∀ l' ∈ l :: ls, Kind.endOfInput ∉ l'.kinds) :
    Points ts (binaryRest (n + 1) l ls left) := by
  rw [binaryRest]
  refine points_accept?_bind (hls l List.mem_cons_self) (points_pure left) fun op _ => ?_
  refine (ih.binary ls fun l' hl' => hls l' (List.mem_cons_of_mem l hl')).bind fun right => ?_
  exact ih.binaryRest l ls _ hls

/-- An operator that may not stand before an operand is objected to behind the operand. -/
theorem points_unary : Points ts (unary (n + 1)) := by
  rw [unary]
  refine points_accept?_bind (by decide) ih.call fun op hop => ih.unary.bind fun right => ?_
  split
  case isTrue => exact points_pure _
  case isFalse => exact points_refuse hop

theorem points_callRest (callee : Expr) : Points ts (callRest (n + 1) callee) := by
  rw [callRest]
  refine points_behind (by decide) ?_
  refine (points_unlessNext (ih.arguments 0)).bind fun args => ?_
  exact (points_expect (by decide)).bind fun paren => ih.callRest _

theorem points_arguments (count : Nat) : Points ts (arguments (n + 1) count) := by
  rw [arguments]
  refine points_checkCount.bind fun _ => ih.expression.bind fun arg => ?_
  exact (points_behind (by decide) (ih.arguments _)).bind fun more => points_pure _

theorem points_primary : Points ts (primary (n + 1)) := by
  rw [primary]
  refine points_peek_bind fun {c t more} hc h => ?_
  cases hconstant : constant? t with
  | some value =>
      exact pointsAt_skip_bind hc h (constant_read hconstant).2.2 (points_pure value)
  | none =>
      dsimp only
      split
      case isTrue hparen =>
          have ht : t.kind ≠ .endOfInput := by
            rw [beq_iff_eq.mp hparen]
            decide
          refine pointsAt_skip_bind hc h ht (ih.expression.bind fun inner => ?_)
          exact (points_expect (by decide)).bind fun _ => points_pure _
      case isFalse => exact points_refuse (hc.ahead h) c hc

end

theorem exprPoints (ts : List Token) (n : Nat) : ExprPoints ts n := by
  induction n with
  | zero =>
      -- Without a budget every rule stops, and not with a fault.
      exact ⟨points_overBudget, fun _ _ => points_overBudget, fun _ _ _ _ => points_overBudget,
        points_overBudget, points_overBudget, fun _ => points_overBudget, fun _ => points_overBudget,
        points_overBudget⟩
  | succ n ih =>
      have hcall : Points ts (call (n + 1)) := by
        rw [call]
        exact ih.primary.bind fun callee => ih.callRest callee
      exact ⟨points_expression ih, points_binary ih, points_binaryRest ih, points_unary ih, hcall,
        points_callRest ih, points_arguments ih, points_primary ih⟩

section
variable {ts : List Token}

theorem points_expr : Points ts expr :=
  fun c hc => ⟨((exprPoints ts _).expression c hc).ok, ((exprPoints ts _).expression c hc).fault⟩

/-! ## Parts of statements -/

theorem points_exprThenSemicolon (what : String) : Points ts (exprThenSemicolon what) := by
  refine points_expr.bind fun value => ?_
  exact (points_expect (by decide)).bind fun _ => points_pure value

theorem points_optionalExpr (kind : Kind) : Points ts (unlessNext kind none (some <$> expr)) :=
  points_unlessNext points_expr.map

theorem points_variableDeclaration : Points ts variableDeclaration := by
  refine (points_expect (by decide)).bind fun name => ?_
  refine (points_behind (by decide) points_expr.map).bind fun initial => ?_
  exact (points_expect (by decide)).bind fun _ => points_pure _

/-- A `return` outside every function is objected to at its keyword, which has been passed by then. -/
theorem points_checkReturn {keyword : Token} (inFunction : Bool) (hkeyword : Ahead ts keyword) :
    Points ts (checkReturn keyword inFunction) := by
  cases inFunction with
  | true => exact points_pure ()
  | false => exact points_report hkeyword

theorem points_returnStatement {keyword : Token} {inFunction : Bool} (hkeyword : Ahead ts keyword) :
    Points ts (returnStatement keyword inFunction) := by
  refine (points_checkReturn inFunction hkeyword).bind fun _ => ?_
  refine (points_optionalExpr .semicolon).bind fun value => ?_
  exact (points_expect (by decide)).bind fun _ => points_pure _

theorem points_parameters (n count : Nat) : Points ts (parameters n count) := by
  induction n generalizing count with
  | zero => exact points_overBudget
  | succ n ih =>
      rw [parameters]
      refine points_checkCount.bind fun _ => (points_expect (by decide)).bind fun param => ?_
      exact (points_behind (by decide) (ih _)).bind fun more => points_pure _

theorem points_functionHead : Points ts functionHead := by
  have hparams : Points ts (fun c => parameters (budget c) 0 c) := fun c hc =>
    ⟨(points_parameters _ 0 c hc).ok, (points_parameters _ 0 c hc).fault⟩
  refine (points_expect (by decide)).bind fun name => (points_expect (by decide)).bind fun _ => ?_
  refine (points_unlessNext hparams).bind fun params => (points_expect (by decide)).bind fun _ => ?_
  exact (points_expect (by decide)).bind fun _ => points_pure _

theorem points_condition (first last : String) : Points ts (condition first last) := by
  refine (points_expect (by decide)).bind fun _ => points_expr.bind fun value => ?_
  exact (points_expect (by decide)).bind fun _ => points_pure value

theorem points_forInitial : Points ts forInitial := by
  refine points_peek_bind fun {c t more} hc h => ?_
  split
  case h_1 hkind => exact pointsAt_skip_bind hc h (by rw [hkind]; decide) (points_pure none)
  case h_2 hkind =>
      exact pointsAt_skip_bind hc h (by rw [hkind]; decide) points_variableDeclaration.map
  case h_3 => exact (points_exprThenSemicolon _).map c hc

theorem points_forClauses : Points ts forClauses := by
  refine (points_expect (by decide)).bind fun _ => points_forInitial.bind fun initial => ?_
  refine (points_optionalExpr .semicolon).bind fun condition => ?_
  refine (points_expect (by decide)).bind fun _ => ?_
  refine (points_optionalExpr .rightParen).bind fun increment => ?_
  exact (points_expect (by decide)).bind fun _ => points_pure _

/-! ## Recovery -/

/-- Discarding tokens ends at the first end of input if not before. -/
theorem Within.sync {c next : Cursor} {a : Unit} (hc : Within ts c) (h : sync c = .ok a next) :
    Within ts next := by
  unfold Parse.sync at h
  cases hrest : c.rest with
  | nil =>
      rw [hrest] at h
      cases h
  | cons t more =>
      rw [hrest] at h
      dsimp only at h
      by_cases ht : t.kind = .endOfInput
      · rw [if_pos (beq_iff_eq.mpr ht)] at h
        cases h
        exact hc.forward [] hrest inner_nil
      · rw [if_neg (fun hkind => ht (beq_iff_eq.mp hkind))] at h
        cases hb : boundary? t.kind more with
        | none =>
            rw [hb] at h
            cases h
        | some rest =>
            rw [hb] at h
            cases h
            obtain ⟨us, rfl, hus⟩ := boundary?_eq_some hb
            exact hc.forward (t :: us) hrest (inner_cons.mpr ⟨ht, hus⟩)

/-- The fault that a declaration stops with is reported as it is. -/
theorem points_orSync {r : Rule Stmt} (hr : Points ts r) : Points ts (orSync r) := by
  refine fun c hc => ⟨?_, fun herror => absurd herror (faultless_orSync r _ _ _)⟩
  intro o after hrun
  unfold orSync at hrun
  split at hrun
  case h_1 stmt next hok =>
      cases hrun
      exact (hr c hc).ok hok
  case h_2 d mid herror =>
      obtain ⟨hmid, hd⟩ := (hr c hc).fault herror
      split at hrun
      case h_1 next hsync =>
          cases hrun
          exact (hmid.report hd).sync hsync
      case h_2 => cases hrun
  case h_3 => cases hrun

end

/-! ## Statements -/

/-- All rules for statements with a budget of `n`. -/
structure StmtPoints (ts : List Token) (n : Nat) : Prop where
  declaration : ∀ inFunction, Points ts (declaration n inFunction)
  statement : ∀ inFunction, Points ts (statement n inFunction)
  block : ∀ inFunction, Points ts (block n inFunction)

section
variable {ts : List Token} {n : Nat} (ih : StmtPoints ts n) (inFunction : Bool)

include ih

theorem points_declaration : Points ts (declaration (n + 1) inFunction) := by
  rw [declaration]
  refine points_peek_bind fun {c t more} hc h => ?_
  split
  case h_1 hkind =>
      refine pointsAt_skip_bind hc h (by rw [hkind]; decide) ?_
      refine points_functionHead.bind fun head => (ih.block true).bind fun body => ?_
      exact points_pure _
  case h_2 hkind =>
      exact pointsAt_skip_bind hc h (by rw [hkind]; decide) points_variableDeclaration
  case h_3 => exact ih.statement inFunction c hc

theorem points_statement : Points ts (statement (n + 1) inFunction) := by
  have hbody : Points ts (statement n inFunction) := ih.statement inFunction
  rw [statement]
  refine points_peek_bind fun {c t more} hc h => ?_
  split
  case h_1 hkind =>
      refine pointsAt_skip_bind hc h (by rw [hkind]; decide) ?_
      exact points_forClauses.bind fun clauses => hbody.bind fun body => points_pure _
  case h_2 hkind =>
      refine pointsAt_skip_bind hc h (by rw [hkind]; decide) ?_
      refine (points_condition _ _).bind fun test => hbody.bind fun thenDo => ?_
      exact (points_behind (by decide) hbody.map).bind fun elseDo => points_pure _
  case h_3 hkind =>
      refine pointsAt_skip_bind hc h (by rw [hkind]; decide) ?_
      exact (points_exprThenSemicolon _).bind fun value => points_pure _
  case h_4 hkind =>
      refine pointsAt_skip_bind hc h (by rw [hkind]; decide) ?_
      exact points_returnStatement (hc.ahead h)
  case h_5 hkind =>
      refine pointsAt_skip_bind hc h (by rw [hkind]; decide) ?_
      exact (points_condition _ _).bind fun test => hbody.bind fun body => points_pure _
  case h_6 hkind =>
      refine pointsAt_skip_bind hc h (by rw [hkind]; decide) ?_
      exact (ih.block inFunction).bind fun body => points_pure _
  case h_7 => exact ((points_exprThenSemicolon _).bind fun value => points_pure _) c hc

theorem points_block : Points ts (block (n + 1) inFunction) := by
  rw [block]
  refine points_peek.bind fun t => ?_
  split
  case isTrue => exact (points_expect (by decide)).bind fun _ => points_pure []
  case isFalse =>
      refine (points_orSync (ih.declaration inFunction)).bind fun stmt => ?_
      exact (ih.block inFunction).bind fun more => points_pure _

end

theorem stmtPoints (ts : List Token) (n : Nat) : StmtPoints ts n := by
  induction n with
  | zero =>
      exact ⟨fun _ => points_overBudget, fun _ => points_overBudget, fun _ => points_overBudget⟩
  | succ n ih => exact ⟨points_declaration ih, points_statement ih, points_block ih⟩

theorem points_program (ts : List Token) (n : Nat) : Points ts (program n) := by
  induction n with
  | zero => exact points_overBudget
  | succ n ih =>
      rw [program]
      refine Points.bind (points_peek.bind fun t => points_pure _) fun atEnd => ?_
      cases atEnd with
      | true => exact points_pure []
      | false =>
          refine (points_orSync ((stmtPoints ts n).declaration false)).bind fun stmt => ?_
          exact ih.bind fun more => points_pure _

end LoxLang.Parse

namespace LoxLang

/-- Whatever is reported about a token list is about a token at or before its first end of input. -/
theorem parse?_pointed {ts : List Token} {parsed : Parsed} (h : parse? ts = some parsed) :
    ∀ d ∈ parsed.diagnostics, Parse.Pointed ts d := by
  obtain ⟨after, hrun, hreported⟩ := parse?_eq_some.mp h
  have hafter := (Parse.points_program ts _ _ (Parse.within_start ts)).ok hrun
  exact fun d hd => hafter.reported d (hreported ▸ hd)

end LoxLang
