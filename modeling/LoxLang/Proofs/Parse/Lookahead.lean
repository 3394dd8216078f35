import LoxLang.Proofs.Parse.Script
import LoxLang.Proofs.Parse.Statements

set_option autoImplicit false

/-! # How much of the input a rule depends on

A rule sees the tokens that it takes and the one behind them. So when it has ended with a token still
ahead, what stands behind that token could be anything else, and it would have ended in the same way
(`Below.beside`). Only the budgets depend on the length of the whole input. They do not matter
either: a rule with a larger budget does what the rule with the smaller one does for as long as that
one has not used it up. For scripts this is a relation between the two, `Below`, that is proved rule
by rule. The relation also keeps the kinds of the tokens that a rule may take, from which it follows
that no rule for an expression takes a semicolon (`Below.passes`). -/

namespace LoxLang.Parse

/-! ## Where a rule has got to -/

/-- The cursor that a rule has got to, whatever it ended with. -/
def landing {α : Type} : EStateM.Result Halt Cursor α → Cursor
  | .ok _ after => after
  | .error _ after => after

/-- On the way from one cursor to another, tokens of kinds with `P` have been passed. -/
def Passes (P : Kind → Prop) (c d : Cursor) : Prop :=
  ∃ ts, c.rest = ts ++ d.rest ∧ ∀ t ∈ ts, P t.kind

namespace Passes
variable {P : Kind → Prop} {c d e : Cursor}

theorem refl (c : Cursor) : Passes P c c :=
  ⟨[], rfl, fun _ h => absurd h List.not_mem_nil⟩

theorem trans (h : Passes P c d) (h' : Passes P d e) : Passes P c e := by
  obtain ⟨ts, hc, hts⟩ := h
  obtain ⟨us, hd, hus⟩ := h'
  refine ⟨ts ++ us, by rw [hc, hd, List.append_assoc], fun t ht => ?_⟩
  exact (List.mem_append.mp ht).elim (hts t) (hus t)

theorem one {t : Token} {more : List Token} {reported reported' : List Diagnostic} (h : P t.kind) :
    Passes P ⟨t :: more, reported⟩ ⟨more, reported'⟩ :=
  ⟨[t], rfl, fun _ hu => List.mem_singleton.mp hu ▸ h⟩

theorem length_le (h : Passes P c d) : d.rest.length ≤ c.rest.length := by
  obtain ⟨ts, hc, -⟩ := h
  rw [hc, List.length_append]
  exact Nat.le_add_left _ _

end Passes

/-- Where the tokens go on after a fault. -/
def resume? : List Token → Option (List Token)
  | [] => none
  | token :: more =>
    if token.kind == .endOfInput then some (token :: more) else boundary? token.kind more

theorem sync_run (c : Cursor) : sync c = match resume? c.rest with
    | some rest => .ok () ⟨rest, c.reported⟩
    | none => .error .ranOut c := by
  obtain ⟨rest, reported⟩ := c
  cases rest <;> rfl

theorem boundary?_suffix {previous : Kind} {ts rest : List Token}
    (h : boundary? previous ts = some rest) : rest <:+ ts := by
  obtain ⟨us, hus, -⟩ := boundary?_eq_some h
  exact ⟨us, hus.symm⟩

theorem resume?_suffix {ts rest : List Token} (h : resume? ts = some rest) : rest <:+ ts := by
  cases ts with
  | nil => cases h
  | cons token more =>
      rw [resume?] at h
      split at h
      · cases h
        exact List.suffix_rfl
      · exact (boundary?_suffix h).trans (List.suffix_cons token more)

/-- What is discarded does not depend on what stands behind the boundary. -/
theorem boundary?_append {previous : Kind} {ts left rest : List Token} (right : List Token)
    (h : boundary? previous (ts ++ left) = some rest) (hcut : left.length < rest.length) :
    ∃ us, rest = us ++ left ∧ boundary? previous (ts ++ right) = some (us ++ right) := by
  induction ts generalizing previous with
  | nil =>
      have := (boundary?_suffix h).length_le
      rw [List.nil_append] at this
      omega
  | cons token more ih =>
      rw [List.cons_append, boundary?] at h ⊢
      split at h
      case isTrue hstop =>
          cases h
          exact ⟨token :: more, rfl, by rw [if_pos hstop]; rfl⟩
      case isFalse hgo =>
          rw [if_neg hgo]
          exact ih h

theorem resume?_append {ts left rest : List Token} (right : List Token)
    (h : resume? (ts ++ left) = some rest) (hcut : left.length < rest.length) :
    ∃ us, rest = us ++ left ∧ resume? (ts ++ right) = some (us ++ right) := by
  cases ts with
  | nil =>
      have := (resume?_suffix h).length_le
      rw [List.nil_append] at this
      omega
  | cons token more =>
      rw [List.cons_append, resume?] at h ⊢
      split at h
      case isTrue hstop =>
          cases h
          exact ⟨token :: more, rfl, by rw [if_pos hstop]; rfl⟩
      case isFalse hgo =>
          rw [if_neg hgo]
          exact boundary?_append right h hcut

/-! ## The same cursor in two inputs -/

/-- Two cursors in inputs that are alike up to a point, behind which the one has `left` and the other
has `right`. What has been reported is alike too, apart from `old` and `old'`. -/
def Beside (left right : List Token) (old old' : List Diagnostic) (c c' : Cursor) : Prop :=
  ∃ ahead new, c = ⟨ahead ++ left, old ++ new⟩ ∧ c' = ⟨ahead ++ right, old' ++ new⟩

/-- If a rule has ended before that point in the one input, for another reason than its budget, then
it has ended in the same way in the other. -/
def Agrees {α : Type} (left right : List Token) (old old' : List Diagnostic) :
    EStateM.Result Halt Cursor α → EStateM.Result Halt Cursor α → Prop
  | .ok a d, r =>
      left.length < d.rest.length → ∃ d', r = .ok a d' ∧ Beside left right old old' d d'
  | .error (.fault diagnostic) d, r =>
      left.length < d.rest.length →
        ∃ d', r = .error (.fault diagnostic) d' ∧ Beside left right old old' d d'
  | .error .ranOut _, _ => True
  | .error .overBudget _, _ => True

section
variable {α β : Type} {left right : List Token} {old old' : List Diagnostic} {c c' : Cursor}

/-- Nothing is said about what a rule does when it gets past that point. -/
theorem agrees_past {r r' : EStateM.Result Halt Cursor α}
    (h : (landing r).rest.length ≤ left.length) : Agrees left right old old' r r' := by
  cases r with
  | ok a d => exact fun hcut => absurd h (Nat.not_le.mpr hcut)
  | error halt d =>
      cases halt with
      | ranOut => exact trivial
      | overBudget => exact trivial
      | fault diagnostic => exact fun hcut => absurd h (Nat.not_le.mpr hcut)

theorem Agrees.bind {r r' : Rule α} {f g : α → Rule β}
    (h : Agrees left right old old' (r c) (r' c'))
    (hf : ∀ a d d', Beside left right old old' d d' → Agrees left right old old' (f a d) (g a d'))
    (hlength : ∀ a d, (landing (f a d)).rest.length ≤ d.rest.length) :
    Agrees left right old old' ((r >>= f) c) ((r' >>= g) c') := by
  rw [bind_run, bind_run]
  cases hr : r c with
  | error halt d =>
      rw [hr] at h
      cases halt with
      | ranOut => exact trivial
      | overBudget => exact trivial
      | fault diagnostic =>
          intro hcut
          obtain ⟨d', hr', hd⟩ := h hcut
          exact ⟨d', by rw [hr'], hd⟩
  | ok a d =>
      rw [hr] at h
      -- Wherever the second rule ends, it is not before the end of the first.
      have hgoes (hcut : left.length < (landing (f a d)).rest.length) :
          ∃ d', r' c' = .ok a d' ∧ Beside left right old old' d d' :=
        h (Nat.lt_of_lt_of_le hcut (hlength a d))
      dsimp only
      cases hfa : f a d with
      | ok b e =>
          intro hcut
          obtain ⟨d', hr', hd⟩ := hgoes (by rwa [hfa])
          have hagree := hf a d d' hd
          rw [hfa] at hagree
          rw [hr']
          exact hagree hcut
      | error halt e =>
          cases halt with
          | ranOut => exact trivial
          | overBudget => exact trivial
          | fault diagnostic =>
              intro hcut
              obtain ⟨d', hr', hd⟩ := hgoes (by rwa [hfa])
              have hagree := hf a d d' hd
              rw [hfa] at hagree
              rw [hr']
              exact hagree hcut

theorem Agrees.orSync {r r' : Rule Stmt} (h : Agrees left right old old' (r c) (r' c')) :
    Agrees left right old old' (orSync r c) (orSync r' c') := by
  unfold Parse.orSync
  cases hr : r c with
  | ok stmt d =>
      rw [hr] at h
      intro hcut
      obtain ⟨d', hr', hd⟩ := h hcut
      exact ⟨d', by rw [hr'], hd⟩
  | error halt d =>
      rw [hr] at h
      cases halt with
      | ranOut => exact trivial
      | overBudget => exact trivial
      | fault diagnostic =>
          simp only [sync_run]
          cases hres : resume? d.rest with
          | none => exact trivial
          | some rest =>
              intro hcut
              have hcut : left.length < rest.length := hcut
              obtain ⟨d', hr', ahead, new, rfl, rfl⟩ :=
                h (Nat.lt_of_lt_of_le hcut (resume?_suffix hres).length_le)
              obtain ⟨us, rfl, hres'⟩ := resume?_append right hres hcut
              refine ⟨⟨us ++ right, old' ++ new ++ [diagnostic]⟩, ?_, us, new ++ [diagnostic], ?_, ?_⟩
              · rw [hr']
                simp only [hres']
              · rw [List.append_assoc]
              · rw [List.append_assoc]

end

theorem passes_orSync {P : Kind → Prop} (hall : ∀ k, P k) {decl : Rule Stmt} {c : Cursor}
    (h : Passes P c (landing (decl c))) : Passes P c (landing (orSync decl c)) := by
  unfold orSync
  cases hd : decl c with
  | ok stmt d =>
      rw [hd] at h
      exact h
  | error halt d =>
      rw [hd] at h
      cases halt with
      | ranOut => exact h
      | overBudget => exact h
      | fault diagnostic =>
          simp only [sync_run]
          cases hr : resume? d.rest with
          | none => exact h
          | some rest =>
              obtain ⟨us, hus⟩ := resume?_suffix hr
              exact h.trans ⟨us, hus.symm, fun t _ => hall t.kind⟩

/-- A rule that takes a token when it reads something. -/
def Advances {α : Type} (r : Rule α) : Prop :=
  ∀ c a d, r c = .ok a d → d.rest.length < c.rest.length

theorem declaration_advances (n : Nat) (inFunction : Bool) : Advances (declaration n inFunction) := by
  intro c s d h
  have hreads := (stmtRules n).declaration inFunction c
  unfold Reads at hreads
  rw [h] at hreads
  obtain ⟨ts, htook, hpos, -⟩ := hreads
  rw [htook.length]
  omega

namespace Script

/-- The first script is the second with some parts cut off, namely those for which its budgets do not
suffice. Every token that it takes is of a kind with `P`, and every turn in which a declaration is read
takes one. -/
inductive Below (P : Kind → Prop) : {α : Type} → Script α → Script α → Prop
  | done {α : Type} (a : α) : Below P (done a) (done a)
  | spent {α : Type} (p : Script α) : Below P spent p
  | refuse {α : Type} (fault : GrammarFault) (token : Token) :
      Below P (refuse fault token : Script α) (refuse fault token)
  | report {α : Type} {fault : GrammarFault} {token : Token} {p q : Script α} (h : Below P p q) :
      Below P (report fault token p) (report fault token q)
  | next {α : Type} {kinds : List Kind} {taken taken' other other' : Token → Script α}
      (hkinds : ∀ k ∈ kinds, P k) (htaken : ∀ t, Below P (taken t) (taken' t))
      (hother : ∀ t, Below P (other t) (other' t)) :
      Below P (next kinds taken other) (next kinds taken' other')
  | measure {α : Type} {more more' : Nat → Script α}
      (h : ∀ n m, n ≤ m → Below P (more n) (more' m)) : Below P (measure more) (measure more')
  | turn {α : Type} {closing : List Kind} {part part' : Script Stmt} {finish finish' : Script α}
      {more more' : Option Stmt → Script α} (hall : ∀ k, P k) (hadvances : Advances part.run)
      (hpart : Below P part part') (hfinish : Below P finish finish')
      (hmore : ∀ s, Below P (more s) (more' s)) :
      Below P (turn closing part finish more) (turn closing part' finish' more')

namespace Below
variable {α β : Type} {P : Kind → Prop}

theorem bind {p q : Script α} {f g : α → Script β} (h : Below P p q)
    (hf : ∀ a, Below P (f a) (g a)) : Below P (p >>= f) (q >>= g) := by
  show Below P (p.bind f) (q.bind g)
  induction h with
  | done a => exact hf a
  | spent p => exact .spent _
  | refuse fault token => exact .refuse fault token
  | report _ ih => exact .report (ih hf)
  | next hkinds _ _ ihTaken ihOther =>
      exact .next hkinds (fun t => ihTaken t hf) fun t => ihOther t hf
  | measure _ ih => exact .measure fun n m hnm => ih n m hnm hf
  | turn hall hadvances hpart _ _ _ ihFinish ihMore =>
      exact .turn hall hadvances hpart (ihFinish hf) fun s => ihMore s hf

theorem map {p q : Script α} (g : α → β) (h : Below P p q) : Below P (g <$> p) (g <$> q) :=
  h.bind fun a => .done (g a)

theorem mono {p q : Script α} (h : Below P p q) : Below (fun _ => True) p q := by
  induction h with
  | done a => exact .done a
  | spent p => exact .spent p
  | refuse fault token => exact .refuse fault token
  | report _ ih => exact .report ih
  | next _ _ _ ihTaken ihOther => exact .next (fun _ _ => trivial) ihTaken ihOther
  | measure _ ih => exact .measure ih
  | turn _ hadvances _ _ _ ihPart ihFinish ihMore =>
      exact .turn (fun _ => trivial) hadvances ihPart ihFinish ihMore

/-- What is passed on the way of a script are tokens that it may take. -/
theorem passes {p q : Script α} (h : Below P p q) (c : Cursor) : Passes P c (landing (p.run c)) := by
  induction h generalizing c with
  | done a => exact .refl c
  | spent p => exact .refl c
  | refuse fault token => exact .refl c
  | @report _ fault token _ _ _ ih =>
      exact ih { c with reported := c.reported ++ [fault.located token] }
  | @next _ kinds taken _ other _ hkinds _ _ ihTaken ihOther =>
      obtain ⟨rest, reported⟩ := c
      cases rest with
      | nil => exact .refl _
      | cons t ts =>
          rw [run_next_cons]
          split
          case isTrue ht =>
              have ht' : t.kind ∈ kinds := by simp_all
              exact (Passes.one (hkinds _ ht')).trans (ihTaken t ⟨ts, reported⟩)
          case isFalse => exact ihOther t _
  | measure _ ih => exact ih _ _ (Nat.le_refl _) c
  | @turn _ closing part part' finish finish' more more' hall _ _ _ _ ihPart ihFinish ihMore =>
      obtain ⟨rest, reported⟩ := c
      cases rest with
      | nil => exact .refl _
      | cons t ts =>
          rw [run_turn_cons]
          split
          case isTrue => exact ihFinish _
          case isFalse =>
              rw [bind_run]
              have hdecl := passes_orSync hall (ihPart ⟨t :: ts, reported⟩)
              cases hrun : orSync part.run ⟨t :: ts, reported⟩ with
              | ok stmt d =>
                  rw [hrun] at hdecl
                  exact hdecl.trans (ihMore stmt d)
              | error halt d =>
                  rw [hrun] at hdecl
                  exact hdecl

theorem beside {p q : Script α} (h : Below P p q) {left right : List Token}
    (hlen : left.length ≤ right.length) {old old' : List Diagnostic} {c c' : Cursor}
    (hc : Beside left right old old' c c') :
    Agrees left right old old' (p.run c) (q.run c') := by
  induction h generalizing c c' with
  | done a => exact fun _ => ⟨c', rfl, hc⟩
  | spent p => exact trivial
  | refuse fault token => exact fun _ => ⟨c', rfl, hc⟩
  | @report _ fault token _ _ _ ih =>
      obtain ⟨ahead, new, rfl, rfl⟩ := hc
      refine ih ⟨ahead, new ++ [fault.located token], ?_, ?_⟩
      · rw [← List.append_assoc]
      · rw [← List.append_assoc]
  | @next _ kinds taken taken' other other' hkinds htaken hother ihTaken ihOther =>
      obtain ⟨ahead, new, rfl, rfl⟩ := hc
      cases ahead with
      | nil =>
          -- The left side has reached the point already, and cannot get back before it.
          exact agrees_past ((Below.next hkinds htaken hother).passes _).length_le
      | cons t ahead =>
          rw [List.cons_append, List.cons_append, run_next_cons, run_next_cons]
          split
          · exact ihTaken t ⟨ahead, new, rfl, rfl⟩
          · exact ihOther t ⟨t :: ahead, new, rfl, rfl⟩
  | measure _ ih =>
      obtain ⟨ahead, new, rfl, rfl⟩ := hc
      -- At least as many tokens are ahead on the right side, so its budget is no smaller.
      refine ih _ _ ?_ ⟨ahead, new, rfl, rfl⟩
      simp only [List.length_append]
      omega
  | @turn _ closing part part' finish finish' more more' hall hadvances hpart hfinish hmore ihPart
      ihFinish ihMore =>
      obtain ⟨ahead, new, rfl, rfl⟩ := hc
      cases ahead with
      | nil =>
          exact agrees_past ((Below.turn hall hadvances hpart hfinish hmore).passes _).length_le
      | cons t ahead =>
          rw [List.cons_append, List.cons_append, run_turn_cons, run_turn_cons]
          split
          · exact ihFinish ⟨t :: ahead, new, rfl, rfl⟩
          · have hstmt := ihPart (c := ⟨t :: (ahead ++ left), old ++ new⟩) ⟨t :: ahead, new, rfl, rfl⟩
            refine Agrees.bind hstmt.orSync ?_ ?_
            · exact fun s d d' hd => ihMore s hd
            · exact fun s d => ((hmore s).passes d).length_le

end Below

/-! ## Larger budgets: expressions -/

/-- The kinds that may stand inside an expression or in front of a statement's last token. -/
abbrev BeforeEnd (kind : Kind) : Prop := kind ≠ .semicolon

section
variable {α : Type} {P : Kind → Prop}

theorem below_accept? {kinds : List Kind} (h : ∀ k ∈ kinds, P k) :
    Below P (accept? kinds) (accept? kinds) :=
  .next h (fun _ => .done _) fun _ => .done _

theorem below_expect {kind : Kind} (h : P kind) (what : String) :
    Below P (expect kind what) (expect kind what) :=
  .next (fun _ hk => List.mem_singleton.mp hk ▸ h) (fun _ => .done _) fun _ => .refuse _ _

theorem below_unlessNext {kind : Kind} {absent : α} {p q : Script α} (h : Below P p q) :
    Below P (unlessNext kind absent p) (unlessNext kind absent q) := by
  refine .next (fun _ hk => absurd hk List.not_mem_nil) (fun _ => h) fun t => ?_
  split
  · exact .done _
  · exact h

theorem below_behind {kind : Kind} (hk : P kind) {absent : α} {p q : Script α} (h : Below P p q) :
    Below P (behind kind absent p) (behind kind absent q) :=
  .next (fun _ h' => List.mem_singleton.mp h' ▸ hk) (fun _ => h) fun _ => .done _

theorem below_checkCount (fault : GrammarFault) (count : Nat) :
    Below P (checkCount fault count) (checkCount fault count) := by
  unfold checkCount
  split
  · exact .next (fun _ hk => absurd hk List.not_mem_nil) (fun _ => .done _) fun _ => .report (.done _)
  · exact .done _

end

/-- The rules for expressions, with a smaller and a larger budget. -/
structure ExprsBelow (n m : Nat) : Prop where
  expression : Below BeforeEnd (expression n) (expression m)
  binary : ∀ ls, (∀ l ∈ ls, ∀ k ∈ l.kinds, BeforeEnd k) →
    Below BeforeEnd (binary n ls) (binary m ls)
  binaryRest : ∀ l ls left, (∀ l' ∈ l :: ls, ∀ k ∈ l'.kinds, BeforeEnd k) →
    Below BeforeEnd (binaryRest n l ls left) (binaryRest m l ls left)
  unary : Below BeforeEnd (unary n) (unary m)
  call : Below BeforeEnd (call n) (call m)
  callRest : ∀ callee, Below BeforeEnd (callRest n callee) (callRest m callee)
  arguments : ∀ count, Below BeforeEnd (arguments n count) (arguments m count)
  primary : Below BeforeEnd (primary n) (primary m)

section
variable {n m : Nat} (ih : ExprsBelow n m)

include ih

theorem below_expression : Below BeforeEnd (expression (n + 1)) (expression (m + 1)) := by
  rw [expression, expression]
  refine (ih.binary levels (by decide)).bind fun left => ?_
  refine (below_accept? (by decide)).bind fun o => ?_
  cases o with
  | none => exact .done _
  | some equals =>
      refine ih.expression.bind fun value => ?_
      cases target? left with
      | none => exact .report (.done _)
      | some name => exact .done _

theorem below_binary (ls : List Level) (hls : ∀ l ∈ ls, ∀ k ∈ l.kinds, BeforeEnd k) :
    Below BeforeEnd (binary (n + 1) ls) (binary (m + 1) ls) := by
  cases ls with
  | nil =>
      rw [binary, binary]
      exact ih.unary
  | cons l ls =>
      rw [binary, binary]
      refine (ih.binary ls fun l' hl' => hls l' (List.mem_cons_of_mem l hl')).bind fun left => ?_
      exact ih.binaryRest l ls left hls

theorem below_binaryRest (l : Level) (ls : List Level) (left : Expr)
    (hls : ∀ l' ∈ l :: ls, ∀ k ∈ l'.kinds, BeforeEnd k) :
    Below BeforeEnd (binaryRest (n + 1) l ls left) (binaryRest (m + 1) l ls left) := by
  rw [binaryRest, binaryRest]
  refine (below_accept? (hls l List.mem_cons_self)).bind fun o => ?_
  cases o with
  | none => exact .done _
  | some op =>
      refine (ih.binary ls fun l' hl' => hls l' (List.mem_cons_of_mem l hl')).bind fun right => ?_
      exact ih.binaryRest l ls _ hls

theorem below_unary : Below BeforeEnd (unary (n + 1)) (unary (m + 1)) := by
  rw [unary, unary]
  refine (below_accept? (by decide)).bind fun o => ?_
  cases o with
  | none => exact ih.call
  | some op =>
      refine ih.unary.bind fun right => ?_
      split
      · exact .done _
      · exact .refuse _ _

theorem below_call : Below BeforeEnd (call (n + 1)) (call (m + 1)) := by
  rw [call, call]
  exact ih.primary.bind ih.callRest

theorem below_callRest (callee : Expr) :
    Below BeforeEnd (callRest (n + 1) callee) (callRest (m + 1) callee) := by
  rw [callRest, callRest]
  refine below_behind (by decide) ?_
  refine (below_unlessNext (ih.arguments 0)).bind fun args => ?_
  exact (below_expect (by decide) _).bind fun paren => ih.callRest _

theorem below_arguments (count : Nat) :
    Below BeforeEnd (arguments (n + 1) count) (arguments (m + 1) count) := by
  rw [arguments, arguments]
  refine (below_checkCount _ count).bind fun _ => ?_
  refine ih.expression.bind fun arg => ?_
  exact (below_behind (by decide) (ih.arguments _)).bind fun more => .done _

theorem below_primary : Below BeforeEnd (primary (n + 1)) (primary (m + 1)) := by
  rw [primary, primary]
  refine .next (by decide) (fun token => ?_) fun token => .refuse _ _
  cases constant? token with
  | some value => exact .done _
  | none =>
      refine ih.expression.bind fun inner => ?_
      exact (below_expect (by decide) _).bind fun _ => .done _

end

theorem exprsBelow {n m : Nat} (h : n ≤ m) : ExprsBelow n m := by
  induction n generalizing m with
  | zero =>
      constructor
      all_goals intros
      all_goals exact .spent _
  | succ n ih =>
      obtain ⟨m, rfl⟩ : ∃ k, m = k + 1 := ⟨m - 1, by omega⟩
      have ih := ih (Nat.le_of_succ_le_succ h)
      exact ⟨below_expression ih, below_binary ih, below_binaryRest ih, below_unary ih,
        below_call ih, below_callRest ih, below_arguments ih, below_primary ih⟩

theorem below_expr : Below BeforeEnd expr expr :=
  .measure fun n m h => (exprsBelow (by omega)).expression

/-! ## Larger budgets: statements -/

/-- The kinds that may stand anywhere. -/
abbrev Anywhere (_ : Kind) : Prop := True

theorem below_parameters {n m : Nat} (h : n ≤ m) (count : Nat) :
    Below BeforeEnd (parameters n count) (parameters m count) := by
  induction n generalizing m count with
  | zero => exact .spent _
  | succ n ih =>
      obtain ⟨m, rfl⟩ : ∃ k, m = k + 1 := ⟨m - 1, by omega⟩
      rw [parameters, parameters]
      refine (below_checkCount _ count).bind fun _ => ?_
      refine (below_expect (by decide) _).bind fun param => ?_
      refine (below_behind (by decide) ?_).bind fun more => .done _
      exact ih (Nat.le_of_succ_le_succ h) _

theorem below_optionalParameters :
    Below BeforeEnd (unlessNext .rightParen [] (measure fun ahead => parameters (16 * (ahead + 1)) 0))
      (unlessNext .rightParen [] (measure fun ahead => parameters (16 * (ahead + 1)) 0)) :=
  below_unlessNext (.measure fun n m h => below_parameters (by omega) 0)

theorem below_functionHead : Below BeforeEnd functionHead functionHead := by
  refine (below_expect (by decide) _).bind fun name => ?_
  refine (below_expect (by decide) _).bind fun _ => ?_
  refine below_optionalParameters.bind fun params => ?_
  refine (below_expect (by decide) _).bind fun _ => ?_
  exact (below_expect (by decide) _).bind fun _ => .done _

theorem below_condition (opening closing : String) :
    Below BeforeEnd (condition opening closing) (condition opening closing) := by
  refine (below_expect (by decide) _).bind fun _ => ?_
  refine below_expr.bind fun value => ?_
  exact (below_expect (by decide) _).bind fun _ => .done _

/-- The expression that a variable starts with. -/
theorem below_initializer :
    Below BeforeEnd (behind .equal none (some <$> expr)) (behind .equal none (some <$> expr)) :=
  below_behind (by decide) (below_expr.map some)

theorem below_optionalExpr (kind : Kind) :
    Below BeforeEnd (unlessNext kind none (some <$> expr)) (unlessNext kind none (some <$> expr)) :=
  below_unlessNext (below_expr.map some)

theorem below_semicolon (what : String) :
    Below Anywhere (expect .semicolon what) (expect .semicolon what) :=
  below_expect trivial what

theorem below_exprThenSemicolon (what : String) :
    Below Anywhere (exprThenSemicolon what) (exprThenSemicolon what) :=
  below_expr.mono.bind fun _ => (below_semicolon _).bind fun _ => .done _

theorem below_variableDeclaration : Below Anywhere variableDeclaration variableDeclaration := by
  refine (below_expect trivial _).bind fun name => ?_
  refine below_initializer.mono.bind fun initial => ?_
  exact (below_semicolon _).bind fun _ => .done _

theorem below_checkReturn (keyword : Token) (inFunction : Bool) :
    Below BeforeEnd (checkReturn keyword inFunction) (checkReturn keyword inFunction) := by
  unfold checkReturn
  split
  · exact .done _
  · exact .report (.done _)

theorem below_returnStatement (keyword : Token) (inFunction : Bool) :
    Below Anywhere (returnStatement keyword inFunction) (returnStatement keyword inFunction) := by
  refine (below_checkReturn keyword inFunction).mono.bind fun _ => ?_
  refine (below_optionalExpr _).mono.bind fun value => ?_
  exact (below_semicolon _).bind fun _ => .done _

theorem below_forInitial : Below Anywhere forInitial forInitial := by
  refine .next (fun _ _ => trivial) (fun token => ?_) fun token => ?_
  · split
    · exact .done _
    · exact below_variableDeclaration.map some
  · exact (below_exprThenSemicolon _).map _

theorem below_forClauses : Below Anywhere forClauses forClauses := by
  refine (below_expect trivial _).bind fun _ => ?_
  refine below_forInitial.bind fun initial => ?_
  refine (below_optionalExpr _).mono.bind fun condition => ?_
  refine (below_semicolon _).bind fun _ => ?_
  refine (below_optionalExpr _).mono.bind fun increment => ?_
  exact (below_expect trivial _).bind fun _ => .done _

/-- The rules for statements, with a smaller and a larger budget. -/
structure StmtsBelow (n m : Nat) : Prop where
  declaration : ∀ inFunction, Below Anywhere (declaration n inFunction) (declaration m inFunction)
  statement : ∀ inFunction, Below Anywhere (statement n inFunction) (statement m inFunction)
  block : ∀ inFunction, Below Anywhere (block n inFunction) (block m inFunction)

section
variable {n m : Nat} (ih : StmtsBelow n m) (inFunction : Bool)

include ih

theorem below_declaration :
    Below Anywhere (declaration (n + 1) inFunction) (declaration (m + 1) inFunction) := by
  rw [declaration, declaration]
  refine .next (fun _ _ => trivial) (fun token => ?_) fun token => ih.statement inFunction
  split
  · refine below_functionHead.mono.bind fun head => ?_
    exact (ih.block true).bind fun body => .done _
  · exact below_variableDeclaration

theorem below_statement :
    Below Anywhere (statement (n + 1) inFunction) (statement (m + 1) inFunction) := by
  have hstmt := ih.statement inFunction
  rw [statement, statement]
  refine .next (fun _ _ => trivial) (fun token => ?_) fun token => ?_
  · split
    · exact below_forClauses.bind fun clauses => hstmt.bind fun body => .done _
    · refine (below_condition _ _).mono.bind fun test => hstmt.bind fun thenDo => ?_
      exact (below_behind trivial (hstmt.map some)).bind fun elseDo => .done _
    · exact (below_exprThenSemicolon _).bind fun value => .done _
    · exact below_returnStatement token inFunction
    · exact (below_condition _ _).mono.bind fun test => hstmt.bind fun body => .done _
    · exact (ih.block inFunction).bind fun body => .done _
  · exact (below_exprThenSemicolon _).bind fun value => .done _

theorem below_block : Below Anywhere (block (n + 1) inFunction) (block (m + 1) inFunction) := by
  have hadvances : Advances (declaration n inFunction).run :=
    (stmtScripts n).declaration inFunction ▸ declaration_advances n inFunction
  rw [block, block]
  refine .turn (fun _ => trivial) hadvances (ih.declaration inFunction) ?_ fun stmt => ?_
  · exact (below_expect trivial _).bind fun _ => .done _
  · exact (ih.block inFunction).bind fun more => .done _

end

theorem stmtsBelow {n m : Nat} (h : n ≤ m) : StmtsBelow n m := by
  induction n generalizing m with
  | zero => exact ⟨fun _ => .spent _, fun _ => .spent _, fun _ => .spent _⟩
  | succ n ih =>
      obtain ⟨m, rfl⟩ : ∃ k, m = k + 1 := ⟨m - 1, by omega⟩
      have ih := ih (Nat.le_of_succ_le_succ h)
      exact ⟨below_declaration ih, below_statement ih, below_block ih⟩

theorem below_program {n m : Nat} (h : n ≤ m) : Below Anywhere (program n) (program m) := by
  induction n generalizing m with
  | zero => exact .spent _
  | succ n ih =>
      obtain ⟨m, rfl⟩ : ∃ k, m = k + 1 := ⟨m - 1, by omega⟩
      have hle : n ≤ m := Nat.le_of_succ_le_succ h
      have hadvances : Advances (declaration n false).run :=
        (stmtScripts n).declaration false ▸ declaration_advances n false
      rw [program, program]
      refine .turn (fun _ => trivial) hadvances ((stmtsBelow hle).declaration false) (.done _)
        fun stmt => ?_
      exact (ih hle).bind fun more => .done _

end Script

end LoxLang.Parse
