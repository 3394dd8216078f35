import LoxLang.Proofs.Store

set_option autoImplicit false

/-! # How a store grows

Whatever is done to a store, its scopes stay, each inside the same scope as before, and no name that a
scope binds is lost. `Store.Grows` says that, and which scopes gain which names at most. From it
follows what matters to those who look names up: a name that can be found from a scope can be found
from there later on (`Store.Finds.later`). -/

namespace LoxLang

/-- Whether a scope of the store itself binds a name. -/
def Store.Binds (store : Store) (scope : Nat) (name : String) : Prop :=
  ∃ here : Scope, store.scopes[scope]? = some here ∧ here.binds name = true

/-- A scope later on. It may have gained some of the names in `may`. -/
structure Scope.Grows (may : String → Prop) (a b : Scope) : Prop where
  enclosing : b.enclosing = a.enclosing
  keeps : ∀ name, a.binds name = true → b.binds name = true
  gains : ∀ name, b.binds name = true → a.binds name = true ∨ may name

/-- A store later on, with every scope it had. -/
def Store.Grows (may : Nat → String → Prop) (a b : Store) : Prop :=
  ∀ (scope : Nat) (here : Scope), a.scopes[scope]? = some here →
    ∃ later, b.scopes[scope]? = some later ∧ here.Grows (may scope) later

/-- No name in any scope. -/
def nowhere : Nat → String → Prop :=
  fun _ _ => False

/-- Some names in one scope. -/
def within (scope : Nat) (names : List String) : Nat → String → Prop :=
  fun other name => other = scope ∧ name ∈ names

/-- Any names in the scopes that are made from now on. -/
def beyond (store : Store) : Nat → String → Prop :=
  fun scope _ => store.scopes.size ≤ scope

/-- A store later on, whatever names it has gained. -/
def Store.Later (a b : Store) : Prop :=
  a.Grows (fun _ _ => True) b

theorem Scope.binds_define (scope : Scope) (name other : String) (value : Value) :
    (scope.define name value).binds other = (decide (other = name) || scope.binds other) := by
  unfold Scope.binds
  rw [Scope.get?_define]
  by_cases h : other = name
  · simp [h]
  · simp [h]

namespace Scope.Grows

variable {may may' : String → Prop} {a b c : Scope}

theorem refl (may : String → Prop) (a : Scope) : a.Grows may a :=
  ⟨rfl, fun _ h => h, fun _ h => Or.inl h⟩

theorem trans (hab : a.Grows may b) (hbc : b.Grows may c) : a.Grows may c where
  enclosing := hbc.enclosing.trans hab.enclosing
  keeps := fun name h => hbc.keeps name (hab.keeps name h)
  gains := by
    intro name h
    rcases hbc.gains name h with hb | hmay
    · exact hab.gains name hb
    · exact Or.inr hmay

theorem mono (h : a.Grows may b) (hmay : ∀ name, may name → may' name) : a.Grows may' b where
  enclosing := h.enclosing
  keeps := h.keeps
  gains := fun name hb => (h.gains name hb).imp_right (hmay name)

end Scope.Grows

namespace Store

variable {may may' : Nat → String → Prop} {a b c : Store} {scope : Nat}

theorem Grows.refl (may : Nat → String → Prop) (a : Store) : a.Grows may a :=
  fun _ here hhere => ⟨here, hhere, .refl _ _⟩

theorem Grows.trans (hab : a.Grows may b) (hbc : b.Grows may c) : a.Grows may c := by
  intro scope here hhere
  obtain ⟨later, hlater, hgrows⟩ := hab scope here hhere
  obtain ⟨last, hlast, hgrows'⟩ := hbc scope later hlater
  exact ⟨last, hlast, hgrows.trans hgrows'⟩

theorem Grows.mono (h : a.Grows may b) (hmay : ∀ scope name, may scope name → may' scope name) :
    a.Grows may' b := by
  intro scope here hhere
  obtain ⟨later, hlater, hgrows⟩ := h scope here hhere
  exact ⟨later, hlater, hgrows.mono (hmay scope)⟩

theorem Grows.later (h : a.Grows may b) : a.Later b :=
  h.mono fun _ _ _ => trivial

theorem Grows.anywhere (h : a.Grows nowhere b) : a.Grows may b :=
  h.mono fun _ _ hno => hno.elim

theorem Grows.size_le (h : a.Grows may b) : a.scopes.size ≤ b.scopes.size := by
  refine Nat.le_of_not_lt fun hsize => ?_
  obtain ⟨later, hlater, -⟩ := h b.scopes.size _ (Array.getElem?_eq_getElem hsize)
  rw [Array.getElem?_eq_none (Nat.le_refl _)] at hlater
  cases hlater

/-- What only scopes gain that were not there before, is gained nowhere. -/
theorem Grows.fresh (h : a.Grows (beyond a) b) : a.Grows nowhere b := by
  intro n here hhere
  obtain ⟨later, hlater, hgrows⟩ := h n here hhere
  have hlt : n < a.scopes.size := (Array.getElem?_eq_some_iff.mp hhere).1
  refine ⟨later, hlater, hgrows.mono fun name hname => ?_⟩
  have hle : a.scopes.size ≤ n := hname
  omega

theorem Grows.binds {name : String} (h : a.Grows may b) (hbinds : a.Binds scope name) :
    b.Binds scope name := by
  obtain ⟨here, hhere, hname⟩ := hbinds
  obtain ⟨later, hlater, hgrows⟩ := h scope here hhere
  exact ⟨later, hlater, hgrows.keeps name hname⟩

/-- A name that is found from a scope is found from there later on. -/
theorem Grows.owner {name : String} (h : a.Grows may b)
    (hname : (a.owner? name scope).isSome = true) : (b.owner? name scope).isSome = true := by
  induction scope using Nat.strongRecOn with
  | ind scope ih =>
      cases hhere : a.scopes[scope]? with
      | none =>
          rw [owner?_none _ _ _ hhere] at hname
          cases hname
      | some here =>
          obtain ⟨later, hlater, hgrows⟩ := h scope here hhere
          rw [owner?_eq _ _ _ _ hhere] at hname
          rw [owner?_eq _ _ _ _ hlater, hgrows.enclosing]
          by_cases hlaterBinds : later.binds name = true
          · rw [if_pos hlaterBinds]
            rfl
          · have hhereBinds : ¬ here.binds name = true :=
              fun hbinds => hlaterBinds (hgrows.keeps name hbinds)
            rw [if_neg hhereBinds] at hname
            rw [if_neg hlaterBinds]
            cases houter : here.enclosing with
            | none =>
                rw [houter] at hname
                cases hname
            | some outer =>
                rw [houter] at hname
                dsimp only at hname ⊢
                by_cases hlt : outer < scope
                · rw [if_pos hlt] at hname ⊢
                  exact ih outer hlt hname
                · rw [if_neg hlt] at hname
                  cases hname

/-- Where no name is gained, each name is found where it was. -/
theorem Grows.same_owner {name : String} (h : a.Grows nowhere b) (hscope : scope < a.scopes.size) :
    b.owner? name scope = a.owner? name scope := by
  induction scope using Nat.strongRecOn with
  | ind scope ih =>
      obtain ⟨later, hlater, hgrows⟩ := h scope _ (Array.getElem?_eq_getElem hscope)
      have hbinds : later.binds name = a.scopes[scope].binds name := by
        rw [Bool.eq_iff_iff]
        exact ⟨fun hname => (hgrows.gains name hname).resolve_right id, hgrows.keeps name⟩
      rw [owner?_eq _ _ _ _ hlater, owner?_eq _ _ _ _ (Array.getElem?_eq_getElem hscope), hbinds,
        hgrows.enclosing]
      cases houter : a.scopes[scope].enclosing with
      | none => rfl
      | some outer =>
          dsimp only
          by_cases hlt : outer < scope
          · rw [if_pos hlt, if_pos hlt, ih outer hlt (by omega)]
          · rw [if_neg hlt, if_neg hlt]

/-! ## The changes -/

theorem binds_define {name other : String} {value : Value} {n : Nat} (h : scope < a.scopes.size) :
    (a.define scope name value).Binds n other ↔
      (n = scope ∧ other = name) ∨ a.Binds n other := by
  unfold Binds
  rw [define_scopes]
  by_cases hn : n = scope
  · subst hn
    have hhere : a.scopes[n]? = some (a.scopes[n]) := Array.getElem?_eq_getElem h
    simp [hhere, Scope.binds_define]
  · simp [hn]

theorem define_grows (a : Store) (scope : Nat) (name : String) (value : Value) :
    a.Grows (within scope [name]) (a.define scope name value) := by
  intro n here hhere
  rw [define_scopes]
  by_cases hn : n = scope
  · rw [if_pos hn, hhere]
    refine ⟨here.define name value, rfl, rfl, fun other h => ?_, fun other h => ?_⟩
    · rw [Scope.binds_define, h, Bool.or_true]
    · rw [Scope.binds_define, Bool.or_eq_true, decide_eq_true_eq] at h
      rcases h with h | h
      · exact Or.inr ⟨hn, by simp [h]⟩
      · exact Or.inl h
  · rw [if_neg hn]
    exact ⟨here, hhere, .refl _ _⟩

/-- The scope in which a name is found binds it. -/
theorem owner?_binds {name : String} {owner : Nat} (h : a.owner? name scope = some owner) :
    a.Binds owner name := by
  induction scope using Nat.strongRecOn with
  | ind scope ih =>
      cases hhere : a.scopes[scope]? with
      | none =>
          rw [owner?_none _ _ _ hhere] at h
          cases h
      | some here =>
          rw [owner?_eq _ _ _ _ hhere] at h
          by_cases hbinds : here.binds name = true
          · rw [if_pos hbinds] at h
            cases h
            exact ⟨here, hhere, hbinds⟩
          · rw [if_neg hbinds] at h
            split at h
            case h_1 => cases h
            case h_2 outer houter =>
                by_cases hlt : outer < scope
                · rw [if_pos hlt] at h
                  exact ih outer hlt h
                · rw [if_neg hlt] at h
                  cases h

/-- Giving a name that is bound a new value adds no name. -/
theorem redefine_grows {name : String} (value : Value) (h : a.Binds scope name) :
    a.Grows nowhere (a.define scope name value) := by
  intro n here hhere
  obtain ⟨later, hlater, hgrows⟩ := define_grows a scope name value n here hhere
  refine ⟨later, hlater, hgrows.enclosing, hgrows.keeps, fun other hother => ?_⟩
  rcases hgrows.gains other hother with hold | ⟨rfl, hname⟩
  · exact Or.inl hold
  · obtain ⟨here', hhere', hbinds⟩ := h
    cases hhere.symm.trans hhere'
    rw [List.mem_singleton.mp hname]
    exact Or.inl hbinds

theorem newScope_grows (a : Store) (enclosing : Option Nat) :
    a.Grows nowhere (a.newScope enclosing).2 := by
  intro n here hhere
  have hlt : n < a.scopes.size := (Array.getElem?_eq_some_iff.mp hhere).1
  rw [newScope_scopes, if_neg (by omega)]
  exact ⟨here, hhere, .refl _ _⟩

theorem defineAll_grows (a : Store) (scope : Nat) (bindings : List (String × Value)) :
    a.Grows (within scope (bindings.map Prod.fst)) (a.defineAll scope bindings) := by
  induction bindings generalizing a with
  | nil => exact .refl _ _
  | cons binding more ih =>
      obtain ⟨name, value⟩ := binding
      have hfirst : a.Grows (within scope (((name, value) :: more).map Prod.fst))
          (a.define scope name value) := by
        refine (define_grows a scope name value).mono fun n other h => ⟨h.1, ?_⟩
        rw [List.mem_singleton.mp h.2]
        exact List.mem_cons_self
      have hmore := ih (a.define scope name value)
      exact hfirst.trans (hmore.mono fun n other h => ⟨h.1, List.mem_cons_of_mem _ h.2⟩)

theorem defineAll_binds {bindings : List (String × Value)} {name : String}
    (hscope : scope < a.scopes.size) (hname : name ∈ bindings.map Prod.fst) :
    (a.defineAll scope bindings).Binds scope name := by
  induction bindings generalizing a with
  | nil => cases hname
  | cons binding more ih =>
      obtain ⟨first, value⟩ := binding
      have hscope' : scope < (a.define scope first value).scopes.size := by simpa using hscope
      rcases List.mem_cons.mp hname with hfirst | hmore
      · have hbinds : (a.define scope first value).Binds scope name :=
          (binds_define hscope).mpr (Or.inl ⟨rfl, hfirst⟩)
        exact (defineAll_grows _ scope more).binds hbinds
      · exact ih hscope' hmore

/-! ## Finding names -/

/-- There is such a scope, and the names are bound in it or around it. -/
structure Finds (store : Store) (scope : Nat) (names : List String) : Prop where
  isScope : scope < store.scopes.size
  owner : ∀ name ∈ names, (store.owner? name scope).isSome = true

theorem Binds.owner {name : String} (h : a.Binds scope name) :
    (a.owner? name scope).isSome = true := by
  obtain ⟨here, hhere, hbinds⟩ := h
  rw [owner?_eq _ _ _ _ hhere, if_pos hbinds]
  rfl

theorem Finds.later {names : List String} (h : a.Finds scope names) (hab : a.Later b) :
    b.Finds scope names where
  isScope := Nat.lt_of_lt_of_le h.isScope hab.size_le
  owner := fun name hname => hab.owner (h.owner name hname)

/-- What is found from a scope is found from a new one inside it. -/
theorem Finds.inner {names : List String} (h : a.Finds scope names) :
    (a.newScope (some scope)).2.Finds a.scopes.size names where
  isScope := by simp
  owner := by
    intro name hname
    have hnew : (a.newScope (some scope)).2.scopes[a.scopes.size]? = some ⟨some scope, []⟩ := by
      rw [newScope_scopes, if_pos rfl]
    have hempty : ¬ (⟨some scope, []⟩ : Scope).binds name = true := by
      simp [Scope.binds, Scope.get?]
    rw [owner?_eq _ _ _ _ hnew, if_neg hempty]
    dsimp only
    rw [if_pos h.isScope]
    exact (newScope_grows a (some scope)).owner (h.owner name hname)

/-- The names that the scope itself binds are found besides. -/
theorem Finds.binding {names more : List String} (h : a.Finds scope names)
    (hmore : ∀ name ∈ more, name ∈ names ∨ a.Binds scope name) : a.Finds scope more where
  isScope := h.isScope
  owner := by
    intro name hname
    rcases hmore name hname with hname | hbinds
    · exact h.owner name hname
    · exact hbinds.owner

end Store

end LoxLang
