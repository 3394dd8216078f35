import LoxLang.Tree.Parse

set_option autoImplicit false

/-! # What a rule does to the cursor

Whatever a rule of the grammar reads, it takes tokens from the front, never the end of input, and it
only adds to what has been reported. `Reads short good r c` says so of the rule `r` at the cursor
`c`, together with what is special about `r`: if it succeeds then `good` holds of the tokens taken
and the result, if the budget is used up then `short` holds, and the tokens run out only if none of
them ends the input. The statements about the rules all have that form, and the lemmas here put them
together along the ways in which rules are put together. -/

namespace LoxLang.Parse

/-- No token of the list ends the input. -/
def Inner (ts : List Token) : Prop := ∀ t ∈ ts, t.kind ≠ .endOfInput

theorem inner_nil : Inner [] := fun _ h => absurd h List.not_mem_nil

theorem inner_cons {t : Token} {ts : List Token} :
    Inner (t :: ts) ↔ t.kind ≠ .endOfInput ∧ Inner ts := by
  simp only [Inner, List.mem_cons, forall_eq_or_imp]

theorem inner_singleton {t : Token} (h : t.kind ≠ .endOfInput) : Inner [t] :=
  inner_cons.mpr ⟨h, inner_nil⟩

/-- Where a list is cut at its first end of input, it is cut in one way only. -/
theorem inner_unique {ts us more rest : List Token} {t u : Token} (hts : Inner ts) (hus : Inner us)
    (ht : t.kind = .endOfInput) (hu : u.kind = .endOfInput)
    (h : ts ++ t :: more = us ++ u :: rest) : ts = us ∧ t = u ∧ more = rest := by
  induction ts generalizing us with
  | nil =>
      cases us with
      | nil => simpa using h
      | cons v vs =>
          obtain ⟨rfl, -⟩ := List.cons.inj h
          exact absurd ht (inner_cons.mp hus).1
  | cons v vs ih =>
      cases us with
      | nil =>
          obtain ⟨rfl, -⟩ := List.cons.inj h
          exact absurd hu (inner_cons.mp hts).1
      | cons w ws =>
          obtain ⟨rfl, htail⟩ := List.cons.inj h
          obtain ⟨rfl, heq⟩ := ih (inner_cons.mp hts).2 (inner_cons.mp hus).2 htail
          exact ⟨rfl, heq⟩

theorem inner_append {ts us : List Token} : Inner (ts ++ us) ↔ Inner ts ∧ Inner us := by
  simp only [Inner, List.mem_append, or_imp, forall_and]

/-- The cursor has moved over the tokens `ts`. -/
structure Took (ts : List Token) (c after : Cursor) : Prop where
  rest : c.rest = ts ++ after.rest
  inner : Inner ts
  reported : c.reported <+: after.reported

namespace Took

theorem refl (c : Cursor) : Took [] c c :=
  ⟨rfl, inner_nil, List.prefix_rfl⟩

theorem trans {ts us : List Token} {c d e : Cursor} (h : Took ts c d) (h' : Took us d e) :
    Took (ts ++ us) c e where
  rest := by rw [h.rest, h'.rest, List.append_assoc]
  inner := inner_append.mpr ⟨h.inner, h'.inner⟩
  reported := h.reported.trans h'.reported

/-- If nothing was reported on the whole way, then nothing was on its parts. -/
theorem quiet {ts us : List Token} {c d e : Cursor} (h : Took ts c d) (h' : Took us d e)
    (hq : e.reported = c.reported) :
    d.reported = c.reported ∧ e.reported = d.reported := by
  have hdc : d.reported <+: c.reported := hq ▸ h'.reported
  have hd : d.reported = c.reported := hdc.eq_of_length_le h.reported.length_le
  exact ⟨hd, hq.trans hd.symm⟩

theorem length {ts : List Token} {c d : Cursor} (h : Took ts c d) :
    c.rest.length = ts.length + d.rest.length := by
  rw [h.rest, List.length_append]

/-- The tokens ahead hold an end of input before the way if and only if they do behind it. -/
theorem inner_rest {ts : List Token} {c d : Cursor} (h : Took ts c d) :
    Inner c.rest ↔ Inner d.rest := by
  rw [h.rest, inner_append]
  exact and_iff_right h.inner

end Took

/-- How a rule may stop. -/
structure Halts (short : Prop) (c : Cursor) (halt : Halt) (after : Cursor) : Prop where
  took : ∃ ts, Took ts c after
  ranOut : halt = .ranOut → Inner c.rest
  overBudget : halt = .overBudget → short

/-- What a rule does at a cursor. -/
def Reads {α : Type} (short : Prop) (good : List Token → α → Cursor → Prop) (r : Rule α)
    (c : Cursor) : Prop :=
  match r c with
  | .ok a after => ∃ ts, Took ts c after ∧ good ts a after
  | .error halt after => Halts short c halt after

/-! ## Running rules one after the other -/

section
variable {α β : Type}

theorem bind_run (r : Rule α) (f : α → Rule β) (c : Cursor) :
    (r >>= f) c = match r c with
      | .ok a after => f a after
      | .error halt after => .error halt after := by
  show EStateM.bind r f c = _
  unfold EStateM.bind
  cases r c <;> rfl

theorem bind_eq_ok {r : Rule α} {f : α → Rule β} {b : β} {c e : Cursor}
    (h : (r >>= f) c = .ok b e) :
    ∃ a d, r c = .ok a d ∧ f a d = .ok b e := by
  rw [bind_run] at h
  cases hr : r c with
  | error halt d =>
      rw [hr] at h
      cases h
  | ok a d =>
      rw [hr] at h
      exact ⟨a, d, rfl, h⟩

theorem map_run (f : α → β) (r : Rule α) (c : Cursor) :
    (f <$> r) c = match r c with
      | .ok a after => .ok (f a) after
      | .error halt after => .error halt after := by
  show EStateM.map f r c = _
  unfold EStateM.map
  cases r c <;> rfl

variable {short short' : Prop} {good good' : List Token → α → Cursor → Prop}
  {goal : List Token → β → Cursor → Prop} {r : Rule α} {f : α → Rule β} {c : Cursor}

theorem Halts.after {halt : Halt} {ts : List Token} {d e : Cursor} (h : Took ts c d)
    (hh : Halts short d halt e) : Halts short c halt e where
  took := by
    obtain ⟨us, hus⟩ := hh.took
    exact ⟨ts ++ us, h.trans hus⟩
  ranOut := fun ho => h.inner_rest.mpr (hh.ranOut ho)
  overBudget := hh.overBudget

theorem Reads.mono (h : Reads short good r c) (hs : short → short')
    (hg : ∀ {ts : List Token} {a : α} {after : Cursor},
      Took ts c after → good ts a after → good' ts a after) :
    Reads short' good' r c := by
  unfold Reads at h ⊢
  cases hr : r c with
  | ok a after =>
      rw [hr] at h
      obtain ⟨ts, htook, hgood⟩ := h
      exact ⟨ts, htook, hg htook hgood⟩
  | error halt after =>
      rw [hr] at h
      exact ⟨h.took, h.ranOut, fun ho => hs (h.overBudget ho)⟩

/-- All that counts is what the rule does at that cursor. -/
theorem Reads.congr {r' : Rule α} (h : Reads short good r c) (hr : r' c = r c) :
    Reads short good r' c := by
  unfold Reads
  rw [hr]
  exact h

theorem reads_pure {a : α} (h : good [] a c) : Reads short good (pure a) c :=
  ⟨[], Took.refl c, h⟩

theorem reads_refuse {fault : GrammarFault} {t : Token} :
    Reads short good (refuse fault t) c :=
  ⟨⟨[], Took.refl c⟩, fun h => by simp at h, fun h => by simp at h⟩

theorem reads_overBudget (h : short) : Reads short good (throw .overBudget) c :=
  ⟨⟨[], Took.refl c⟩, fun h => by simp at h, fun _ => h⟩

/-- The second of two rules starts where the first one ended. -/
theorem Reads.bind (hr : Reads short good r c)
    (hf : ∀ {ts : List Token} {a : α} {d : Cursor}, Took ts c d → good ts a d →
      Reads short (fun us b after => goal (ts ++ us) b after) (f a) d) :
    Reads short goal (r >>= f) c := by
  unfold Reads at hr ⊢
  rw [bind_run]
  cases h : r c with
  | error halt after =>
      rw [h] at hr
      exact hr
  | ok a d =>
      rw [h] at hr
      obtain ⟨ts, htook, hgood⟩ := hr
      have hrest := hf htook hgood
      unfold Reads at hrest
      show match f a d with
        | .ok b after => ∃ us, Took us c after ∧ goal us b after
        | .error halt after => Halts short c halt after
      cases hfa : f a d with
      | ok b after =>
          rw [hfa] at hrest
          obtain ⟨us, hus, hgoal⟩ := hrest
          exact ⟨ts ++ us, htook.trans hus, hgoal⟩
      | error halt after =>
          rw [hfa] at hrest
          exact hrest.after htook

theorem Reads.map {g : α → β} (hr : Reads short good r c)
    (hg : ∀ {ts : List Token} {a : α} {d : Cursor},
      Took ts c d → good ts a d → goal ts (g a) d) :
    Reads short goal (g <$> r) c := by
  unfold Reads at hr ⊢
  rw [map_run]
  cases h : r c with
  | error halt after =>
      rw [h] at hr
      exact hr
  | ok a d =>
      rw [h] at hr
      obtain ⟨ts, htook, hgood⟩ := hr
      exact ⟨ts, htook, hg htook hgood⟩

end

/-! ## Single tokens -/

section
variable {α : Type} {short : Prop} {c : Cursor}

/-- Looking at the next token takes nothing. -/
theorem reads_peek :
    Reads short (fun ts t after => ts = [] ∧ after = c ∧ ∃ more, c.rest = t :: more) peek c := by
  unfold Reads peek
  cases h : c.rest with
  | nil =>
      refine ⟨⟨[], Took.refl c⟩, fun _ => ?_, fun ho => by simp at ho⟩
      rw [h]
      exact inner_nil
  | cons t more => exact ⟨[], Took.refl c, rfl, rfl, more, rfl⟩

/-- The tokens behind the next one, if that does not end the input. -/
theorem took_next {t : Token} {more : List Token} (h : c.rest = t :: more)
    (ht : t.kind ≠ .endOfInput) : Took [t] c { c with rest := more } :=
  ⟨h, inner_singleton ht, List.prefix_rfl⟩

theorem reads_skip {t : Token} {more : List Token} (h : c.rest = t :: more)
    (ht : t.kind ≠ .endOfInput) :
    Reads short (fun ts _ after => ts = [t] ∧ after = { c with rest := more }) skip c := by
  unfold Reads skip
  rw [h]
  exact ⟨[t], took_next h ht, rfl, rfl⟩

/-- A rule that looks at the next token before it does anything. -/
theorem reads_peek_bind {f : Token → Rule α} {good : List Token → α → Cursor → Prop}
    (hf : ∀ {t : Token} {more : List Token}, c.rest = t :: more → Reads short good (f t) c) :
    Reads short good (peek >>= f) c := by
  refine Reads.bind reads_peek ?_
  rintro ts t d htook ⟨rfl, rfl, more, h⟩
  exact hf h

/-- A rule that goes on behind the next token, which it has looked at. -/
theorem reads_skip_bind {t : Token} {more : List Token} {f : Unit → Rule α}
    {good : List Token → α → Cursor → Prop} (h : c.rest = t :: more) (ht : t.kind ≠ .endOfInput)
    (hf : Took [t] c { c with rest := more } →
      Reads short (fun us a after => good (t :: us) a after) (f ()) { c with rest := more }) :
    Reads short good (skip >>= f) c := by
  refine Reads.bind (reads_skip h ht) ?_
  rintro ts a d htook ⟨rfl, rfl⟩
  exact hf htook

theorem reads_sees (kind : Kind) :
    Reads short (fun ts b after => ts = [] ∧ after = c ∧
      ∃ t more, c.rest = t :: more ∧ b = (t.kind == kind)) (sees kind) c := by
  refine reads_peek_bind fun {t more} h => reads_pure ?_
  exact ⟨rfl, rfl, t, more, h, rfl⟩

theorem reads_accept? {kinds : List Kind} (hk : Kind.endOfInput ∉ kinds) :
    Reads short (fun ts o after => after.reported = c.reported ∧
      ((o = none ∧ ts = [] ∧ after = c ∧ ∃ t more, c.rest = t :: more ∧ t.kind ∉ kinds) ∨
        ∃ t, o = some t ∧ ts = [t] ∧ t.kind ∈ kinds)) (accept? kinds) c := by
  refine reads_peek_bind fun {t more} h => ?_
  by_cases ht : t.kind ∈ kinds
  · rw [if_pos (List.contains_iff_mem.mpr ht)]
    refine reads_skip_bind h (fun he => hk (he ▸ ht)) fun _ => reads_pure ?_
    exact ⟨rfl, Or.inr ⟨t, rfl, rfl, ht⟩⟩
  · rw [if_neg (fun hc => ht (List.contains_iff_mem.mp hc))]
    exact reads_pure ⟨rfl, Or.inl ⟨rfl, rfl, rfl, t, more, h, ht⟩⟩

/-- Taking a token of a kind that has to come next. -/
theorem reads_expect {kind : Kind} {what : String} (hk : kind ≠ .endOfInput) :
    Reads short (fun ts t after => ts = [t] ∧ t.kind = kind ∧ after.reported = c.reported)
      (expect kind what) c := by
  refine reads_peek_bind fun {t more} h => ?_
  by_cases ht : t.kind = kind
  · rw [if_pos (beq_iff_eq.mpr ht)]
    refine reads_skip_bind h (fun he => hk (ht.symm.trans he)) fun _ => reads_pure ?_
    exact ⟨rfl, ht, rfl⟩
  · rw [if_neg (fun hc => ht (beq_iff_eq.mp hc))]
    exact reads_refuse

/-! ## Parts that may be absent -/

variable {good : List Token → α → Cursor → Prop} {absent : α} {part : Rule α}

theorem reads_unlessNext {kind : Kind}
    (habsent : (∃ t more, c.rest = t :: more ∧ t.kind = kind) → good [] absent c)
    (hpart : Reads short good part c) : Reads short good (unlessNext kind absent part) c := by
  refine Reads.bind (reads_sees kind) ?_
  rintro ts b d htook ⟨rfl, rfl, t, more, h, rfl⟩
  by_cases ht : t.kind = kind
  · rw [if_pos (beq_iff_eq.mpr ht)]
    exact reads_pure (habsent ⟨t, more, h, ht⟩)
  · rw [if_neg (fun hc => ht (beq_iff_eq.mp hc))]
    exact hpart

theorem reads_behind {kind : Kind} (hk : kind ≠ .endOfInput)
    (habsent : (∃ t more, c.rest = t :: more ∧ t.kind ≠ kind) → good [] absent c)
    (hpart : ∀ {t : Token} {d : Cursor}, t.kind = kind → Took [t] c d →
      d.reported = c.reported → Reads short (fun us a after => good (t :: us) a after) part d) :
    Reads short good (behind kind absent part) c := by
  have hk' : Kind.endOfInput ∉ [kind] := fun h => hk (List.mem_singleton.mp h).symm
  have haccept : Reads short (fun ts b d => d.reported = c.reported ∧
      ((b = false ∧ ts = [] ∧ d = c ∧ ∃ t more, c.rest = t :: more ∧ t.kind ≠ kind) ∨
        ∃ t, b = true ∧ ts = [t] ∧ t.kind = kind)) (accept kind) c := by
    refine Reads.bind (reads_accept? hk') ?_
    rintro ts o d htook ⟨hq, ⟨rfl, rfl, rfl, t, more, h, ht⟩ | ⟨t, rfl, rfl, ht⟩⟩
    · refine reads_pure ⟨hq, Or.inl ⟨rfl, rfl, rfl, t, more, h, ?_⟩⟩
      exact fun he => ht (List.mem_singleton.mpr he)
    · exact reads_pure ⟨hq, Or.inr ⟨t, rfl, rfl, List.mem_singleton.mp ht⟩⟩
  refine Reads.bind haccept ?_
  rintro ts b d htook ⟨hq, ⟨rfl, rfl, rfl, hnext⟩ | ⟨t, rfl, rfl, ht⟩⟩
  · exact reads_pure (habsent hnext)
  · exact hpart ht htook hq

/-! ## Checks that do not stop the reading -/

theorem reads_report {fault : GrammarFault} {t : Token} :
    Reads short (fun ts _ after => ts = [] ∧ after.rest = c.rest ∧
      after.reported ≠ c.reported) (report fault t) c :=
  ⟨[], ⟨rfl, inner_nil, List.prefix_append _ _⟩, rfl, rfl, by simp⟩

/-- A check of the number of parameters or arguments takes nothing, and it reports something if the
number is the greatest there may be. -/
theorem reads_checkCount {fault : GrammarFault} {count : Nat} :
    Reads short (fun ts _ after => ts = [] ∧ after.rest = c.rest ∧
      (after.reported = c.reported → count ≠ maxArguments)) (checkCount fault count) c := by
  unfold checkCount
  by_cases h : count = maxArguments
  · rw [if_pos (beq_iff_eq.mpr h)]
    refine reads_peek_bind fun {t more} _ => reads_report.mono id ?_
    rintro ts _ after - ⟨hts, hrest, hq⟩
    exact ⟨hts, hrest, fun hq' => absurd hq' hq⟩
  · rw [if_neg (fun hc => h (beq_iff_eq.mp hc))]
    exact reads_pure ⟨rfl, rfl, fun _ => h⟩

end

end LoxLang.Parse
