import LoxLang.Proofs.Grammar.Derivation
import LoxLang.Proofs.Parse.Reads
import LoxLang.Proofs.Tree.Like

set_option autoImplicit false

/-! # What the rules for expressions read

At every cursor, a rule for expressions takes at least one token, returns a well-formed tree made of
the tokens taken, and, if it has reported nothing on the way, these tokens are a phrase of its rank
with that tree. The rules call one another, so this is shown for all of them at once, by induction on
the budget (`exprRules`).

A rule does not run over a budget of sixteen for each token ahead and a few calls more. How many
more depends on the rule: those that a rule calls before it has taken a token need one less. -/

namespace LoxLang.Parse

open Grammar

/-! ## Ranks and levels -/

/-- The level of operators of a rank. -/
def rankLevel (r : Rank) : Level := ⟨r.operators, r.join⟩

/-- The ranks that have a level of binary operators. -/
def levelRanks : List Rank :=
  [.or, .and, .equality, .comparison, .addition, .multiplication]

theorem levels_eq : levels = levelRanks.map rankLevel := rfl

/-- The rank that a list of levels starts at; below the last one are the unary expressions. -/
def topRank (rs : List Rank) : Rank := rs.headD .unary

/-- Each rank of a list has the next one below it, and the last one has the unary expressions. -/
def Descends : List Rank → Prop
  | [] => True
  | r :: rs => r.tighter = topRank rs ∧ Descends rs

theorem descends_levelRanks : Descends levelRanks := by
  simp [Descends, levelRanks, topRank, Rank.tighter]

/-- Of the ranks with operators, `or` and `and` join their operands by logical nodes and the others by
binary ones; either way the operator fits. -/
theorem join_like {r : Rank} {ts : List Token} {l x : Expr} {op : Token}
    (hl : l.Like (.fitting ts) l) (hop : op.kind ∈ r.operators) (hmem : op ∈ ts)
    (hx : x.Like (.fitting ts) x) :
    (r.join l op x).Like (.fitting ts) (r.join l op x) := by
  have fit {ρ : Role} (h : ρ.fits op.kind = true) : (Likeness.fitting ts).token ρ op op :=
    ⟨rfl, hmem, h⟩
  cases r <;> simp only [Rank.operators, List.mem_cons, List.not_mem_nil, or_false] at hop
  case or => exact .logical hl (fit (by rw [hop]; rfl)) hx
  case and => exact .logical hl (fit (by rw [hop]; rfl)) hx
  case equality => exact .binary hl (fit (by rcases hop with h | h <;> rw [h] <;> rfl)) hx
  case comparison =>
      exact .binary hl (fit (by rcases hop with h | h | h | h <;> rw [h] <;> rfl)) hx
  case addition => exact .binary hl (fit (by rcases hop with h | h <;> rw [h] <;> rfl)) hx
  case multiplication => exact .binary hl (fit (by rcases hop with h | h <;> rw [h] <;> rfl)) hx

/-- A token that is a constant or a name is an expression on its own. -/
theorem constant_read {t : Token} {e : Expr} (h : constant? t = some e) :
    e.Like (.fitting [t]) e ∧ Phrase .primary [t] e ∧ t.kind ≠ .endOfInput := by
  unfold constant? at h
  split at h <;> simp only [Option.some.injEq, reduceCtorEq] at h <;> subst h
  case h_1 hk => exact ⟨.literal, .falseWord hk, by simp [hk]⟩
  case h_2 hk => exact ⟨.literal, .trueWord hk, by simp [hk]⟩
  case h_3 hk => exact ⟨.literal, .nilWord hk, by simp [hk]⟩
  case h_4 hk => exact ⟨.literal, .constant (Or.inl hk), by simp [hk]⟩
  case h_5 hk => exact ⟨.literal, .constant (Or.inr hk), by simp [hk]⟩
  case h_6 hk =>
      exact ⟨.name ⟨rfl, List.mem_singleton.mpr rfl, by rw [hk]; rfl⟩, .name hk, by simp [hk]⟩

/-! ## The statement for each rule -/

/-- What it is to have read an expression of a rank. -/
structure ReadAs (r : Rank) (c : Cursor) (ts : List Token) (e : Expr) (after : Cursor) : Prop where
  nonempty : 0 < ts.length
  formed : e.Like (.fitting ts) e
  derived : after.reported = c.reported → Phrase r ts e

/-- What it is to have read the rest of an expression behind a part `left` made of the tokens `us`. -/
structure ReadsOn (r : Rank) (us : List Token) (left : Expr) (c : Cursor) (ts : List Token)
    (e : Expr) (after : Cursor) : Prop where
  formed : left.Like (.fitting us) left → e.Like (.fitting (us ++ ts)) e
  derived : after.reported = c.reported → Phrase r us left → Phrase r (us ++ ts) e

/-- What it is to have read arguments when `count` have been read already. -/
structure ReadArgs (count : Nat) (c : Cursor) (ts : List Token) (es : List Expr)
    (after : Cursor) : Prop where
  formed : List.Forall₂ (Expr.Like (.fitting ts)) es es
  derived : after.reported = c.reported → Arguments ts es
  bounded : after.reported = c.reported → count ≤ 8 → count + es.length ≤ 8

/-- All rules for expressions with a budget of `n`. -/
structure ExprRules (n : Nat) : Prop where
  expression : ∀ c : Cursor,
    Reads (n < 16 * c.rest.length + 11) (ReadAs .assign c) (expression n) c
  binary : ∀ (rs : List Rank) (c : Cursor), Descends rs → rs.length ≤ 6 →
    Reads (n < 16 * c.rest.length + 4 + rs.length) (ReadAs (topRank rs) c)
      (binary n (rs.map rankLevel)) c
  binaryRest : ∀ (r : Rank) (rs : List Rank) (us : List Token) (left : Expr) (c : Cursor),
    Descends (r :: rs) → rs.length ≤ 5 →
    Reads (n < 16 * c.rest.length + 1) (ReadsOn r us left c)
      (binaryRest n (rankLevel r) (rs.map rankLevel) left) c
  unary : ∀ c : Cursor, Reads (n < 16 * c.rest.length + 3) (ReadAs .unary c) (unary n) c
  call : ∀ c : Cursor, Reads (n < 16 * c.rest.length + 2) (ReadAs .call c) (call n) c
  callRest : ∀ (us : List Token) (callee : Expr) (c : Cursor),
    Reads (n < 16 * c.rest.length + 1) (ReadsOn .call us callee c) (callRest n callee) c
  arguments : ∀ (count : Nat) (c : Cursor),
    Reads (n < 16 * c.rest.length + 12) (ReadArgs count c) (arguments n count) c
  primary : ∀ c : Cursor, Reads (n < 16 * c.rest.length + 1) (ReadAs .primary c) (primary n) c

/-- An expression of a tighter rank is one of the looser rank. -/
theorem ReadAs.loosen {r : Rank} {c : Cursor} {ts : List Token} {e : Expr} {after : Cursor}
    (h : ReadAs r.tighter c ts e after) : ReadAs r c ts e after :=
  ⟨h.nonempty, h.formed, fun hq => .operand (h.derived hq)⟩

/-- Having read a part and then on behind it is having read the whole. -/
theorem ReadAs.andOn {r : Rank} {c d after : Cursor} {us ts : List Token} {left e : Expr}
    (hleft : ReadAs r c us left d) (hus : Took us c d) (hts : Took ts d after)
    (h : ReadsOn r us left d ts e after) : ReadAs r c (us ++ ts) e after where
  nonempty := by
    have := hleft.nonempty
    rw [List.length_append]
    omega
  formed := h.formed hleft.formed
  derived := fun hq => by
    obtain ⟨hq₁, hq₂⟩ := hus.quiet hts hq
    exact h.derived hq₂ (hleft.derived hq₁)

/-! ## One rule at a time -/

section
variable {n : Nat} (ih : ExprRules n) (c : Cursor)

include ih

theorem expression_step :
    Reads (n + 1 < 16 * c.rest.length + 11) (ReadAs .assign c) (expression (n + 1)) c := by
  rw [expression, levels_eq]
  have hbinary := ih.binary levelRanks c descends_levelRanks (by simp [levelRanks])
  refine Reads.bind (hbinary.mono (fun h => ?_) (fun _ h => h)) ?_
  · simp only [levelRanks, List.length_cons, List.length_nil] at h
    omega
  intro ts left d hts hleft
  refine Reads.bind (reads_accept? (by simp)) ?_
  rintro us o d' hus ⟨hq', ⟨rfl, rfl, rfl, -⟩ | ⟨equals, rfl, rfl, he⟩⟩
  · refine reads_pure ?_
    simpa using ReadAs.loosen (r := .assign) hleft
  -- behind the equals sign stands another expression, and only then is the target looked at
  have hlen := (hts.trans hus).length
  refine Reads.bind ((ih.expression d').mono (fun h => ?_) (fun _ h => h)) ?_
  · simp only [List.length_append, List.length_cons, List.length_nil] at hlen
    omega
  intro vs value after hvs hvalue
  have hbefore := (hts.trans hus).trans hvs
  cases htarget : target? left with
  | some name =>
      obtain rfl : left = .name name := by
        cases left <;> simp_all [target?]
      refine reads_pure ⟨?_, ?_, fun hq => ?_⟩
      · rw [List.length_append]
        have hne := hleft.nonempty
        omega
      · cases hleft.formed with
        | name hname =>
            refine .assign ⟨rfl, ?_, hname.2.2⟩ ?_
            · simp [hname.2.1]
            · exact hvalue.formed.within (by simp +contextual)
      · obtain ⟨hq₁, hq₂⟩ := (hts.trans hus).quiet hvs hq
        obtain ⟨hq₃, -⟩ := hts.quiet hus hq₁
        obtain ⟨rfl, hname⟩ := (hleft.derived hq₃).eq_of_name rfl
        simpa using Phrase.assign hname (List.mem_singleton.mp he) (hvalue.derived hq₂)
  | none =>
      refine Reads.bind reads_report ?_
      rintro ws _ last hws ⟨rfl, -, hloud⟩
      refine reads_pure ⟨?_, ?_, fun hq => absurd (hbefore.quiet hws hq).2 hloud⟩
      · rw [List.length_append]
        have hne := hleft.nonempty
        omega
      · exact hleft.formed.within (by simp +contextual)

theorem binary_step (rs : List Rank) (hrs : Descends rs) (hlen : rs.length ≤ 6) :
    Reads (n + 1 < 16 * c.rest.length + 4 + rs.length) (ReadAs (topRank rs) c)
      (binary (n + 1) (rs.map rankLevel)) c := by
  cases rs with
  | nil => exact (ih.unary c).mono (fun h => by simp; omega) (fun _ h => h)
  | cons r rs =>
      rw [List.length_cons] at hlen
      refine Reads.bind ((ih.binary rs c hrs.2 (by omega)).mono (fun h => ?_) (fun _ h => h)) ?_
      · simp only [List.length_cons]
        omega
      intro us left d hus hleft
      have hleft' : ReadAs r c us left d := ReadAs.loosen (hrs.1 ▸ hleft)
      have hl := hus.length
      have hne := hleft.nonempty
      refine (ih.binaryRest r rs us left d hrs (by omega)).mono (fun h => by omega) ?_
      intro ts e after hts hon
      exact hleft'.andOn hus hts hon

theorem binaryRest_step (r : Rank) (rs : List Rank) (us : List Token) (left : Expr)
    (hrs : Descends (r :: rs)) (hlen : rs.length ≤ 5) :
    Reads (n + 1 < 16 * c.rest.length + 1) (ReadsOn r us left c)
      (binaryRest (n + 1) (rankLevel r) (rs.map rankLevel) left) c := by
  have hend : Kind.endOfInput ∉ (rankLevel r).kinds := by
    cases r <;> simp [rankLevel, Rank.operators]
  refine Reads.bind (reads_accept? hend) ?_
  rintro ts o d hts ⟨hq, ⟨rfl, rfl, rfl, -⟩ | ⟨op, rfl, rfl, hop⟩⟩
  · refine reads_pure ⟨?_, ?_⟩ <;> simp
  have hl := hts.length
  simp only [List.length_cons, List.length_nil] at hl
  refine Reads.bind ((ih.binary rs d hrs.2 (by omega)).mono (fun h => by omega) (fun _ h => h)) ?_
  intro vs right d' hvs hright
  have hl' := hvs.length
  -- the operator and its right operand join the left one, and the rest is read behind all three
  refine (ih.binaryRest r rs (us ++ op :: vs) (r.join left op right) d' hrs hlen).mono
    (fun h => by omega) ?_
  intro ws e after hws hon
  have happend : us ++ ([op] ++ (vs ++ ws)) = us ++ op :: vs ++ ws := by simp
  refine ⟨fun hleft => ?_, fun hquiet hleft => ?_⟩
  · rw [happend]
    refine hon.formed (join_like (hleft.within (by simp +contextual)) hop (by simp) ?_)
    exact hright.formed.within (by simp +contextual)
  · rw [happend]
    obtain ⟨hq₁, hq₂⟩ := (hts.trans hvs).quiet hws hquiet
    obtain ⟨-, hq₃⟩ := hts.quiet hvs hq₁
    exact hon.derived hq₂ (.operator hleft hop (hrs.1 ▸ hright.derived hq₃))

theorem unary_step :
    Reads (n + 1 < 16 * c.rest.length + 3) (ReadAs .unary c) (unary (n + 1)) c := by
  rw [unary]
  refine Reads.bind (reads_accept? (by simp [unaryKinds])) ?_
  rintro ts o d hts ⟨hq, ⟨rfl, rfl, rfl, -⟩ | ⟨op, rfl, rfl, hop⟩⟩
  · refine (ih.call d).mono (fun h => by omega) ?_
    intro us e after _ h
    exact ReadAs.loosen h
  have hl := hts.length
  simp only [List.length_cons, List.length_nil] at hl
  refine Reads.bind ((ih.unary d).mono (fun h => by omega) (fun _ h => h)) ?_
  intro us right after hus hright
  by_cases hsupport : supportsUnary op.kind = true
  · rw [if_pos hsupport]
    have hfits : op.kind = .bang ∨ op.kind = .minus := by simpa [supportsUnary] using hsupport
    refine reads_pure ⟨by simp, ?_, fun hquiet => ?_⟩
    · exact .unary ⟨rfl, by simp, hsupport⟩ (hright.formed.within (by simp +contextual))
    · simpa using Phrase.unary hfits (hright.derived (hts.quiet hus hquiet).2)
  · rw [if_neg hsupport]
    exact reads_refuse

theorem call_step : Reads (n + 1 < 16 * c.rest.length + 2) (ReadAs .call c) (call (n + 1)) c := by
  rw [call]
  refine Reads.bind ((ih.primary c).mono (fun h => by omega) (fun _ h => h)) ?_
  intro us callee d hus hcallee
  have hl := hus.length
  have hne := hcallee.nonempty
  have hcallee' : ReadAs .call c us callee d := ReadAs.loosen hcallee
  refine (ih.callRest us callee d).mono (fun h => by omega) ?_
  intro ts e after hts hon
  exact hcallee'.andOn hus hts hon

theorem callRest_step (us : List Token) (callee : Expr) :
    Reads (n + 1 < 16 * c.rest.length + 1) (ReadsOn .call us callee c)
      (callRest (n + 1) callee) c := by
  rw [callRest]
  refine reads_behind (by decide) (fun _ => ⟨?_, ?_⟩) ?_
  · simp
  · simp
  intro opening d hopening hd hq
  have hl := hd.length
  simp only [List.length_cons, List.length_nil] at hl
  -- either nothing stands between the parentheses or the arguments do
  have hargs : Reads (n + 1 < 16 * c.rest.length + 1)
      (fun ts args after => (ts = [] ∧ args = [] ∧ after = d) ∨ ReadArgs 0 d ts args after)
      (unlessNext .rightParen [] (arguments n 0)) d := by
    refine reads_unlessNext (fun _ => Or.inl ⟨rfl, rfl, rfl⟩) ?_
    exact (ih.arguments 0 d).mono (fun h => by omega) (fun _ h => Or.inr h)
  refine Reads.bind hargs ?_
  intro ts args d₁ hts hread
  refine Reads.bind (reads_expect (by decide)) ?_
  rintro _ closing d₂ hclosing ⟨rfl, hkind, hq₂⟩
  have hl₁ := hts.length
  have hl₂ := hclosing.length
  refine (ih.callRest (us ++ opening :: (ts ++ [closing])) (.call callee closing args) d₂).mono
    (fun h => by omega) ?_
  intro ws e after hws hon
  have happend : us ++ opening :: (ts ++ ([closing] ++ ws))
      = us ++ opening :: (ts ++ [closing]) ++ ws := by simp
  refine ⟨fun hcallee => ?_, fun hquiet hcallee => ?_⟩
  · rw [happend]
    refine hon.formed
      (.call (hcallee.within (by simp +contextual)) ⟨rfl, by simp, by rw [hkind]; rfl⟩ ?_)
    rcases hread with ⟨rfl, rfl, rfl⟩ | hread
    · exact .nil
    · exact Expr.likeAll_mono (Likeness.fitting_le (by simp +contextual)) hread.formed
  · rw [happend]
    obtain ⟨hq₁, hq₃⟩ := ((hd.trans hts).trans hclosing).quiet hws hquiet
    obtain ⟨hq₄, -⟩ := (hd.trans hts).quiet hclosing hq₁
    obtain ⟨-, hq₅⟩ := hd.quiet hts hq₄
    refine hon.derived hq₃ ?_
    rcases hread with ⟨rfl, rfl, rfl⟩ | hread
    · exact .callNone hcallee hopening hkind
    · have hbound := hread.bounded hq₅ (Nat.zero_le 8)
      exact .call hcallee hopening (hread.derived hq₅) (by omega) hkind

theorem arguments_step (count : Nat) :
    Reads (n + 1 < 16 * c.rest.length + 12) (ReadArgs count c) (arguments (n + 1) count) c := by
  rw [arguments]
  refine Reads.bind reads_checkCount ?_
  rintro _ _ d hd ⟨rfl, hrest, hcount⟩
  refine Reads.bind ((ih.expression d).mono (fun h => by rw [hrest] at h; omega) (fun _ h => h)) ?_
  intro ts arg d₁ hts harg
  have hl := (hd.trans hts).length
  have hne := harg.nonempty
  simp only [List.nil_append] at hl
  have hmore : Reads (n + 1 < 16 * c.rest.length + 12)
      (fun us more after => (us = [] ∧ more = [] ∧ after = d₁) ∨
        ∃ comma vs d₂, us = comma :: vs ∧ comma.kind = .comma ∧ Took [comma] d₁ d₂ ∧
          Took vs d₂ after ∧ ReadArgs (count + 1) d₂ vs more after)
      (behind .comma [] (arguments n (count + 1))) d₁ := by
    refine reads_behind (by decide) (fun _ => Or.inl ⟨rfl, rfl, rfl⟩) ?_
    intro comma d₂ hcomma hd₂ hq
    have hl₂ := hd₂.length
    refine (ih.arguments (count + 1) d₂).mono (fun h => by omega) ?_
    intro vs more after hvs hread
    exact Or.inr ⟨comma, vs, d₂, rfl, hcomma, hd₂, hvs, hread⟩
  refine Reads.bind hmore ?_
  rintro us more after hus (⟨rfl, rfl, rfl⟩ | ⟨comma, vs, d₂, rfl, hcomma, hd₂, hvs, hread⟩)
  · refine reads_pure ⟨?_, fun hq => ?_, fun hq hle => ?_⟩
    · simpa using harg.formed
    · simpa using Arguments.last (harg.derived (hd.quiet hts hq).2)
    · have hcount' := hcount (hd.quiet hts hq).1
      simp only [maxArguments] at hcount'
      simp only [List.length_cons, List.length_nil]
      omega
  · refine reads_pure ⟨?_, fun hq => ?_, fun hq hle => ?_⟩
    · refine .cons (harg.formed.within (by simp +contextual)) ?_
      exact Expr.likeAll_mono (Likeness.fitting_le (by simp +contextual)) hread.formed
    · obtain ⟨hq₁, hq₂⟩ := ((hd.trans hts).trans hd₂).quiet hvs hq
      obtain ⟨hq₃, -⟩ := (hd.trans hts).quiet hd₂ hq₁
      simpa using Arguments.more (harg.derived (hd.quiet hts hq₃).2) hcomma (hread.derived hq₂)
    · obtain ⟨hq₁, hq₂⟩ := ((hd.trans hts).trans hd₂).quiet hvs hq
      obtain ⟨hq₃, -⟩ := (hd.trans hts).quiet hd₂ hq₁
      have hcount' := hcount (hd.quiet hts hq₃).1
      simp only [maxArguments] at hcount'
      have hbound := hread.bounded hq₂ (by omega)
      simp only [List.length_cons]
      omega

theorem primary_step :
    Reads (n + 1 < 16 * c.rest.length + 1) (ReadAs .primary c) (primary (n + 1)) c := by
  rw [primary]
  refine reads_peek_bind fun {t more} h => ?_
  cases hconst : constant? t with
  | some value =>
      have hread : value.Like (.fitting [t]) value ∧ Phrase .primary [t] value ∧
          t.kind ≠ .endOfInput := constant_read hconst
      refine reads_skip_bind h hread.2.2 fun _ => reads_pure ?_
      exact ⟨by simp, hread.1, fun _ => hread.2.1⟩
  | none =>
      by_cases hparen : t.kind = .leftParen
      · rw [if_pos (beq_iff_eq.mpr hparen)]
        refine reads_skip_bind h (by rw [hparen]; decide) fun hd => ?_
        have hl : c.rest.length = more.length + 1 := by rw [h, List.length_cons]
        have hshort : n < 16 * more.length + 11 → n + 1 < 16 * c.rest.length + 1 := by omega
        refine Reads.bind ((ih.expression _).mono hshort (fun _ h => h)) ?_
        intro ts inner d₁ hts hinner
        refine Reads.bind (reads_expect (by decide)) ?_
        rintro _ closing after hclosing ⟨rfl, hkind, hq⟩
        refine reads_pure ⟨by simp, ?_, fun hquiet => ?_⟩
        · exact .group (hinner.formed.within (by simp +contextual))
        · obtain ⟨hq₁, -⟩ := (hd.trans hts).quiet hclosing hquiet
          simpa using Phrase.group hparen (hinner.derived (hd.quiet hts hq₁).2) hkind
      · rw [if_neg (fun hc => hparen (beq_iff_eq.mp hc))]
        exact reads_refuse

end

/-! ## All rules together -/

theorem exprRules (n : Nat) : ExprRules n := by
  induction n with
  | zero =>
      constructor
      · intro c
        rw [expression]
        exact reads_overBudget (by omega)
      · intro rs c _ _
        rw [binary]
        exact reads_overBudget (by omega)
      · intro r rs us left c _ _
        rw [binaryRest]
        exact reads_overBudget (by omega)
      · intro c
        rw [unary]
        exact reads_overBudget (by omega)
      · intro c
        rw [call]
        exact reads_overBudget (by omega)
      · intro us callee c
        rw [callRest]
        exact reads_overBudget (by omega)
      · intro count c
        rw [arguments]
        exact reads_overBudget (by omega)
      · intro c
        rw [primary]
        exact reads_overBudget (by omega)
  | succ n ih =>
      exact
        { expression := expression_step ih
          binary := fun rs c hrs hlen => binary_step ih c rs hrs hlen
          binaryRest := fun r rs us left c hrs hlen => binaryRest_step ih c r rs us left hrs hlen
          unary := unary_step ih
          call := call_step ih
          callRest := fun us callee c => callRest_step ih c us callee
          arguments := fun count c => arguments_step ih c count
          primary := primary_step ih }

/-- An expression is read without running over the budget. -/
theorem reads_expr {c : Cursor} : Reads False (ReadAs .assign c) expr c := by
  have hread := (exprRules (budget c)).expression c
  refine Reads.congr (hread.mono (fun h => ?_) (fun _ h => h)) rfl
  simp only [budget] at h
  omega

end LoxLang.Parse
