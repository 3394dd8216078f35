import LoxLang.Store

set_option autoImplicit false

/-! # The store as a map

What each change of the store does to every scope and every name, so that nothing else has to look at
how scopes are kept. -/

namespace LoxLang

namespace Scope

theorem lookup_cons_eq (name : String) (value : Value) (more : List (String × Value))
    (other : String) :
    ((name, value) :: more).lookup other =
      if other = name then some value else more.lookup other := by
  rw [List.lookup_cons]
  by_cases h : other = name
  · rw [if_pos h, beq_iff_eq.mpr h]
  · rw [if_neg h, beq_eq_false_iff_ne.mpr h]

theorem lookup_put (name : String) (value : Value) (bindings : List (String × Value))
    (other : String) :
    (put name value bindings).lookup other =
      if other = name then some value else bindings.lookup other := by
  induction bindings with
  | nil => exact lookup_cons_eq name value [] other
  | cons binding more ih =>
      obtain ⟨bound, old⟩ := binding
      unfold put
      by_cases hbound : bound = name
      · rw [if_pos (by simpa using hbound), lookup_cons_eq, lookup_cons_eq, hbound]
        by_cases h : other = name <;> simp [h]
      · rw [if_neg (by simpa using hbound), lookup_cons_eq, lookup_cons_eq, ih]
        by_cases h : other = bound
        · simp [h, hbound]
        · simp [h]

theorem get?_define (scope : Scope) (name : String) (value : Value) (other : String) :
    (scope.define name value).get? other = if other = name then some value else scope.get? other :=
  lookup_put name value scope.bindings other

end Scope

namespace Store

variable (store : Store) (scope : Nat) (name : String) (value : Value)

theorem define_scopes (other : Nat) :
    (store.define scope name value).scopes[other]? =
      if other = scope then store.scopes[other]?.map (·.define name value)
      else store.scopes[other]? := by
  unfold define
  rw [Array.getElem?_modify]
  by_cases h : scope = other
  · rw [if_pos h, if_pos h.symm]
  · rw [if_neg h, if_neg (Ne.symm h)]

@[simp] theorem define_size :
    (store.define scope name value).scopes.size = store.scopes.size := by
  simp [define]

@[simp] theorem define_closures : (store.define scope name value).closures = store.closures := rfl

theorem newScope_scopes (enclosing : Option Nat) (other : Nat) :
    (store.newScope enclosing).2.scopes[other]? =
      if other = store.scopes.size then some ⟨enclosing, []⟩ else store.scopes[other]? := by
  simp only [newScope, Array.getElem?_push]

@[simp] theorem newScope_size (enclosing : Option Nat) :
    (store.newScope enclosing).2.scopes.size = store.scopes.size + 1 := by
  simp [newScope]

@[simp] theorem newScope_closures (enclosing : Option Nat) :
    (store.newScope enclosing).2.closures = store.closures := rfl

@[simp] theorem newScope_fst (enclosing : Option Nat) :
    (store.newScope enclosing).1 = store.scopes.size := rfl

/-- A name is looked for in a scope and then in the scopes around it. -/
theorem owner?_eq (here : Scope) (h : store.scopes[scope]? = some here) :
    store.owner? name scope =
      if here.binds name then some scope
      else match here.enclosing with
        | none => none
        | some outer => if outer < scope then store.owner? name outer else none := by
  rw [owner?]
  generalize store.scopes[scope]? = found at h
  subst h
  rfl

theorem owner?_none (h : store.scopes[scope]? = none) : store.owner? name scope = none := by
  rw [owner?]
  simp only [h]

/-! ## Values in the store -/

/-- A value that some scope binds a name to. -/
def Holds : Prop :=
  ∃ (scope : Nat) (here : Scope) (name : String),
    store.scopes[scope]? = some here ∧ here.get? name = some value

variable {store scope name value}

/-- Binding a name brings one value in and no other. -/
theorem holds_define {other : Value} (h : (store.define scope name value).Holds other) :
    other = value ∨ store.Holds other := by
  obtain ⟨n, here, found, hhere, hfound⟩ := h
  rw [define_scopes] at hhere
  by_cases hn : n = scope
  · rw [if_pos hn] at hhere
    obtain ⟨before, hbefore, rfl⟩ := Option.map_eq_some_iff.mp hhere
    rw [Scope.get?_define] at hfound
    by_cases hname : found = name
    · rw [if_pos hname] at hfound
      exact Or.inl (Option.some.inj hfound).symm
    · rw [if_neg hname] at hfound
      exact Or.inr ⟨n, before, found, hbefore, hfound⟩
  · rw [if_neg hn] at hhere
    exact Or.inr ⟨n, here, found, hhere, hfound⟩

/-- A new scope holds nothing. -/
theorem holds_newScope {enclosing : Option Nat} {other : Value}
    (h : (store.newScope enclosing).2.Holds other) : store.Holds other := by
  obtain ⟨n, here, found, hhere, hfound⟩ := h
  rw [newScope_scopes] at hhere
  by_cases hn : n = store.scopes.size
  · rw [if_pos hn] at hhere
    cases hhere
    cases hfound
  · rw [if_neg hn] at hhere
    exact ⟨n, here, found, hhere, hfound⟩

theorem holds_of_get? (h : store.get? scope name = some value) : store.Holds value := by
  simp only [get?, bind, Option.bind_eq_some_iff] at h
  obtain ⟨owner, -, here, hhere, hvalue⟩ := h
  exact ⟨owner, here, name, hhere, hvalue⟩

end Store

end LoxLang
