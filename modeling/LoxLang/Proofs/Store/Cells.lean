import LoxLang.Proofs.Store.Forest

set_option autoImplicit false

/-! # Cells

A cell is what one scope has for one name. A name, as seen from a scope, stands for the cell at which
the search for it ends, and scopes that are nested in one another share the cells around them. So a
cell that is given a new value is seen from many scopes at once, and hidden from those that have a cell
of that name in between.

There are two ways to change a cell. To give a name a new value that is bound already leaves every
search as it was, so exactly the names that stand for that cell have the new value (`assign?_get?`). To
bind a name in a scope may end searches that went on outwards before. These are the searches that come
to the scope before any other one that binds the name (`Store.Reaches`, `define_get?`). -/

namespace LoxLang.Store

/-- What a scope itself has for a name. -/
def own? (store : Store) (scope : Nat) (name : String) : Option Value := do
  let here ← store.scopes[scope]?
  here.get? name

/-- Two names, each as seen from a scope, stand for one cell: the searches for them end in the same
scope and at the same name. -/
def SameCell (store : Store) (scope : Nat) (name : String) (other : Nat) (name' : String) : Prop :=
  name' = name ∧ ∃ owner, store.Search name scope (some owner) ∧ store.Search name' other (some owner)

/-- The way outwards from a scope comes to `target` before any other scope that binds the name. -/
inductive Reaches (store : Store) (name : String) (target : Nat) : Nat → Prop
  | here : Reaches store name target target
  | outwards {scope outer : Nat} {here : Scope} :
    store.scopes[scope]? = some here → here.binds name = false → here.enclosing = some outer →
    Reaches store name target outer → Reaches store name target scope

/-- A store in which one cell has been given a value, and that is otherwise the same. -/
structure Sets (before after : Store) (owner : Nat) (name : String) (value : Value) : Prop where
  size : after.scopes.size = before.scopes.size
  closures : after.closures = before.closures
  enclosing : ∀ scope, after.enclosing? scope = before.enclosing? scope
  own : ∀ scope other, after.own? scope other =
    if scope = owner ∧ other = name then some value else before.own? scope other

variable {store : Store} {scope other owner : Nat} {name name' : String} {value : Value}

/-! ## Cells and searches -/

theorem binds_iff_own? : store.Binds scope name ↔ (store.own? scope name).isSome = true := by
  cases hhere : store.scopes[scope]? with
  | none => simp [Binds, own?, hhere]
  | some here => simp [Binds, own?, hhere, Scope.binds]

/-- A name has the value of the cell it stands for. -/
theorem get?_eq_own? : store.get? scope name = (store.owner? name scope).bind (store.own? · name) :=
  rfl

/-- In a forest, the search for a name ends where `owner?` says. -/
theorem Forest.search_iff (h : store.Forest) :
    store.Search name scope (some owner) ↔ store.owner? name scope = some owner := by
  constructor
  · intro hsearch
    generalize hresult : some owner = result at hsearch
    induction hsearch with
    | found hhere hbinds =>
        cases hresult
        rw [owner?_eq _ _ _ _ hhere, if_pos hbinds]
    | lost _ _ _ => cases hresult
    | @outwards scope outer here result hhere hbinds houter _ ih =>
        have hlt : outer < scope := h.earlier (by simp [enclosing?, hhere, houter])
        rw [owner?_eq _ _ _ _ hhere, if_neg (by simp [hbinds]), houter]
        simpa only [if_pos hlt] using ih hresult
  · intro howner
    have hscope : scope < store.scopes.size := by
      refine Nat.lt_of_not_le fun hge => ?_
      rw [owner?_none _ _ _ (Array.getElem?_eq_none hge)] at howner
      cases howner
    exact howner ▸ h.search name hscope

/-- A search that ends at a scope comes to it before any other that binds the name. -/
theorem Search.reaches (h : store.Search name scope (some owner)) : store.Reaches name owner scope := by
  generalize hresult : some owner = result at h
  induction h with
  | found _ _ =>
      cases hresult
      exact .here
  | lost _ _ _ => cases hresult
  | outwards hhere hbinds houter _ ih => exact .outwards hhere hbinds houter (ih hresult)

/-- A name has a value exactly if the search for it ends at a scope that binds it. It does not matter
which value that is. -/
theorem Forest.get?_eq_some (h : store.Forest) :
    store.get? scope name = some value ↔
      ∃ owner, store.Search name scope (some owner) ∧ store.own? owner name = some value := by
  rw [get?_eq_own?, Option.bind_eq_some_iff]
  constructor
  · rintro ⟨owner, howner, hown⟩
    exact ⟨owner, h.search_iff.mpr howner, hown⟩
  · rintro ⟨owner, hsearch, hown⟩
    exact ⟨owner, h.search_iff.mp hsearch, hown⟩

theorem owner?_isSome_iff : (store.owner? name scope).isSome = true ↔
    (store.get? scope name).isSome = true := by
  rw [get?_eq_own?]
  cases howner : store.owner? name scope with
  | none => rfl
  | some owner =>
      have hown := binds_iff_own?.mp (owner?_binds howner)
      simp [hown]

/-! ## What a change does to the cells -/

theorem define_sets (hscope : scope < store.scopes.size) :
    store.Sets (store.define scope name value) scope name value where
  size := define_size store scope name value
  closures := rfl
  enclosing := by
    intro other
    unfold enclosing?
    rw [define_scopes]
    by_cases hother : other = scope
    · rw [if_pos hother]
      cases store.scopes[other]? with
      | none => rfl
      | some here => rfl
    · rw [if_neg hother]
  own := by
    intro other found
    unfold own?
    rw [define_scopes]
    by_cases hother : other = scope
    · subst hother
      have hhere : store.scopes[other]? = some store.scopes[other] := Array.getElem?_eq_getElem hscope
      simp [hhere, Scope.get?_define]
    · simp [hother]

/-- What sets a cell that was there already adds and removes no name. -/
theorem Sets.sameNames {after : Store} (h : store.Sets after owner name value)
    (hbinds : store.Binds owner name) (scope : Nat) (other : String) :
    after.Binds scope other ↔ store.Binds scope other := by
  rw [binds_iff_own?, binds_iff_own?, h.own]
  by_cases hcell : scope = owner ∧ other = name
  · obtain ⟨rfl, rfl⟩ := hcell
    simpa using binds_iff_own?.mp hbinds
  · rw [if_neg hcell]

/-! ## Assignments -/

/-- A new value for a name that is bound leaves every search as it was. -/
theorem owner?_redefine (hbinds : store.Binds owner name) :
    (store.define owner name value).owner? name' other = store.owner? name' other := by
  by_cases hother : other < store.scopes.size
  · exact (redefine_grows value hbinds).same_owner hother
  · have hnone : store.scopes[other]? = none := Array.getElem?_eq_none (by omega)
    have hnone' : (store.define owner name value).scopes[other]? = none := by
      rw [define_scopes]
      split <;> simp [hnone]
    rw [owner?_none _ _ _ hnone, owner?_none _ _ _ hnone']

theorem assign?_eq (howner : store.owner? name scope = some owner) :
    store.assign? scope name value = some (store.define owner name value) := by
  simp only [assign?, howner]

/-- The names that stand for the cell have the new value, and the others what they had. -/
theorem assign?_get? (h : store.Forest) (howner : store.owner? name scope = some owner)
    (other : Nat) (name' : String) :
    (store.SameCell scope name other name' →
      (store.define owner name value).get? other name' = some value) ∧
    (¬ store.SameCell scope name other name' →
      (store.define owner name value).get? other name' = store.get? other name') := by
  have hbinds : store.Binds owner name := owner?_binds howner
  have hlt : owner < store.scopes.size := by
    obtain ⟨here, hhere, -⟩ := hbinds
    exact (Array.getElem?_eq_some_iff.mp hhere).1
  have hsets : store.Sets (store.define owner name value) owner name value := define_sets hlt
  rw [get?_eq_own?, get?_eq_own?, owner?_redefine hbinds]
  constructor
  · rintro ⟨rfl, cell, hcell, hcell'⟩
    have hsame : cell = owner := by
      have hfound := h.search_iff.mp hcell
      rw [howner] at hfound
      exact (Option.some.inj hfound).symm
    rw [h.search_iff.mp hcell', Option.bind_some, hsets.own, if_pos ⟨hsame, rfl⟩]
  · intro hdifferent
    cases hfound : store.owner? name' other with
    | none => rfl
    | some cell =>
        rw [Option.bind_some, Option.bind_some, hsets.own, if_neg]
        rintro ⟨rfl, rfl⟩
        exact hdifferent ⟨rfl, cell, h.search_iff.mpr howner, h.search_iff.mpr hfound⟩

/-! ## Definitions -/

/-- A search that comes to the scope ends there once the scope binds the name. -/
theorem Reaches.owner?_define (h : store.Forest) (hscope : scope < store.scopes.size)
    (hreaches : store.Reaches name scope other) :
    (store.define scope name value).owner? name other = some scope := by
  -- wherever the search stands, it is at the scope or goes on as before
  have hends : (store.define scope name value).owner? name scope = some scope := by
    have hname : (store.define scope name value).Binds scope name :=
      (binds_define hscope).mpr (Or.inl ⟨rfl, rfl⟩)
    obtain ⟨here, hhere, hbinds⟩ := hname
    rw [owner?_eq _ _ _ _ hhere, if_pos hbinds]
  induction hreaches with
  | here => exact hends
  | @outwards inner outer here hhere hbinds houter _ ih =>
      by_cases hinner : inner = scope
      · rw [hinner]
        exact hends
      · have hlt : outer < inner := h.earlier (by simp [enclosing?, hhere, houter])
        have hhere' : (store.define scope name value).scopes[inner]? = some here := by
          rw [define_scopes, if_neg hinner, hhere]
        rw [owner?_eq _ _ _ _ hhere', if_neg (by simp [hbinds]), houter]
        simpa only [if_pos hlt] using ih

/-- Every other search goes the way it went. -/
theorem owner?_define_other (hother : ¬ (name' = name ∧ store.Reaches name scope other)) :
    (store.define scope name value).owner? name' other = store.owner? name' other := by
  induction other using Nat.strongRecOn with
  | ind other ih =>
      cases hhere : store.scopes[other]? with
      | none =>
          have hhere' : (store.define scope name value).scopes[other]? = none := by
            rw [define_scopes]
            split <;> simp [hhere]
          rw [owner?_none _ _ _ hhere, owner?_none _ _ _ hhere']
      | some here =>
          -- the scope binds the name that is looked for if and only if it did before
          have hsame : ∃ later, (store.define scope name value).scopes[other]? = some later ∧
              later.enclosing = here.enclosing ∧ later.binds name' = here.binds name' := by
            rw [define_scopes, hhere]
            by_cases hscope : other = scope
            · have hne : name' ≠ name := by
                rintro rfl
                exact hother ⟨rfl, hscope ▸ .here⟩
              refine ⟨here.define name value, if_pos hscope, rfl, ?_⟩
              rw [Scope.binds_define, decide_eq_false hne, Bool.false_or]
            · exact ⟨here, if_neg hscope, rfl, rfl⟩
          obtain ⟨later, hlater, henclosing, hbinds⟩ := hsame
          rw [owner?_eq _ _ _ _ hlater, owner?_eq _ _ _ _ hhere, hbinds, henclosing]
          by_cases hfound : here.binds name' = true
          · rw [if_pos hfound, if_pos hfound]
          · rw [if_neg hfound, if_neg hfound]
            cases houter : here.enclosing with
            | none => rfl
            | some outer =>
                dsimp only
                by_cases hlt : outer < other
                · rw [if_pos hlt, if_pos hlt]
                  refine ih outer hlt ?_
                  rintro ⟨rfl, hreaches⟩
                  exact hother ⟨rfl, .outwards hhere (by simpa using hfound) houter hreaches⟩
                · rw [if_neg hlt, if_neg hlt]

/-- From the scopes that come to it first, the name has the new value; from elsewhere, and for other
names, nothing changes. -/
theorem define_get? (h : store.Forest) (hscope : scope < store.scopes.size) (other : Nat)
    (name' : String) :
    (name' = name ∧ store.Reaches name scope other →
      (store.define scope name value).get? other name' = some value) ∧
    (¬ (name' = name ∧ store.Reaches name scope other) →
      (store.define scope name value).get? other name' = store.get? other name') := by
  have hsets : store.Sets (store.define scope name value) scope name value := define_sets hscope
  rw [get?_eq_own?, get?_eq_own?]
  constructor
  · rintro ⟨rfl, hreaches⟩
    rw [hreaches.owner?_define h hscope, Option.bind_some, hsets.own, if_pos ⟨rfl, rfl⟩]
  · intro hother
    rw [owner?_define_other hother]
    cases hfound : store.owner? name' other with
    | none => rfl
    | some cell =>
        rw [Option.bind_some, Option.bind_some, hsets.own, if_neg]
        rintro ⟨rfl, rfl⟩
        exact hother ⟨rfl, (h.search_iff.mpr hfound).reaches⟩

end LoxLang.Store
