import LoxLang.Proofs.Store.Growth

set_option autoImplicit false

/-! # The store as a forest

Every scope names the scope around it by a number, and every function names the scope of its
declaration. `Store.Forest` says that these numbers lead somewhere: a scope stands in none, or in one
that was made before it, and the functions that are bound were declared in scopes that there are.

What that is good for is looking names up. A search goes outwards from scope to scope and asks at each
whether it binds the name (`Store.Search`). It has nothing to tell it when to give up, so it comes to
an end only where the way outwards does (`Store.Climb`), and in a forest that is always so
(`Store.Forest.climb`, `Store.Forest.search`). -/

namespace LoxLang

/-- The scope in which a function was declared. -/
def Value.home? : Value → Option Nat
  | .closure _ function => some function.scope
  | _ => none

/-- A value that, if it is a function, was declared in a scope that there is. -/
def Value.Lives (store : Store) (value : Value) : Prop :=
  ∀ scope, value.home? = some scope → scope < store.scopes.size

namespace Store

/-- The numbers of scopes in a store lead to scopes that there are. -/
structure Forest (store : Store) : Prop where
  /-- The scope around a scope was made before it. -/
  earlier : ∀ {scope outer : Nat}, store.enclosing? scope = some outer → outer < scope
  /-- The functions that are bound were declared in scopes that there are. -/
  lives : ∀ {value : Value}, store.Holds value → value.Lives store

/-- Every scope is still there, inside the same scope as before. -/
def KeepsLinks (a b : Store) : Prop :=
  ∀ scope < a.scopes.size, scope < b.scopes.size ∧ b.enclosing? scope = a.enclosing? scope

/-- So many steps outwards from a scope lead to one that stands in no other. -/
inductive Climb (store : Store) : Nat → Nat → Prop
  | top {scope : Nat} {here : Scope} :
    store.scopes[scope]? = some here → here.enclosing = none → Climb store scope 0
  | outwards {scope outer steps : Nat} {here : Scope} :
    store.scopes[scope]? = some here → here.enclosing = some outer → Climb store outer steps →
    Climb store scope (steps + 1)

/-- The search for a name from a scope outwards, which is over at a scope that binds the name or,
without a result, at a scope that stands in no other. -/
inductive Search (store : Store) (name : String) : Nat → Option Nat → Prop
  | found {scope : Nat} {here : Scope} :
    store.scopes[scope]? = some here → here.binds name = true → Search store name scope (some scope)
  | lost {scope : Nat} {here : Scope} :
    store.scopes[scope]? = some here → here.binds name = false → here.enclosing = none →
    Search store name scope none
  | outwards {scope outer : Nat} {here : Scope} {result : Option Nat} :
    store.scopes[scope]? = some here → here.binds name = false → here.enclosing = some outer →
    Search store name outer result → Search store name scope result

/-- From every scope the way outwards and every search come to an end. What the search for a name
finds is its owner. -/
def Walkable (store : Store) : Prop :=
  ∀ scope < store.scopes.size, (∃ steps, store.Climb scope steps) ∧
    ∀ name, store.Search name scope (store.owner? name scope)

variable {a b store : Store} {scope : Nat}

/-! ## Later stores -/

theorem Later.keepsLinks (h : a.Later b) : a.KeepsLinks b := by
  intro scope hscope
  have hhere : a.scopes[scope]? = some a.scopes[scope] := Array.getElem?_eq_getElem hscope
  obtain ⟨later, hlater, hgrows⟩ := h scope _ hhere
  refine ⟨Nat.lt_of_lt_of_le hscope (Grows.size_le h), ?_⟩
  calc b.enclosing? scope
      = later.enclosing := by simp [enclosing?, hlater]
    _ = a.scopes[scope].enclosing := hgrows.enclosing
    _ = a.enclosing? scope := by simp [enclosing?, hhere]

/-- A scope that has another one around it has been made. -/
theorem lt_of_enclosing? {outer : Nat} (h : store.enclosing? scope = some outer) :
    scope < store.scopes.size := by
  obtain ⟨here, hhere, -⟩ := Option.bind_eq_some_iff.mp h
  exact (Array.getElem?_eq_some_iff.mp hhere).1

end Store

namespace Value

variable {a b : Store} {value : Value}

theorem lives_of_ne {store : Store} (h : ∀ i f, value ≠ .closure i f) : value.Lives store := by
  cases value with
  | closure i f => exact absurd rfl (h i f)
  | _ =>
      intro scope hscope
      cases hscope

theorem Lives.later (h : value.Lives a) (hab : a.Later b) : value.Lives b :=
  fun scope hscope => Nat.lt_of_lt_of_le (h scope hscope) (Store.Grows.size_le hab)

end Value

namespace Store.Forest

variable {store : Store} {scope : Nat} {name : String} {value : Value}

/-! ## Walking outwards -/

/-- The scope around a scope has a lower number, so the way outwards ends. -/
theorem climb (h : store.Forest) (hscope : scope < store.scopes.size) :
    ∃ steps, store.Climb scope steps := by
  induction scope using Nat.strongRecOn with
  | ind scope ih =>
      have hhere : store.scopes[scope]? = some store.scopes[scope] :=
        Array.getElem?_eq_getElem hscope
      cases houter : store.scopes[scope].enclosing with
      | none => exact ⟨0, .top hhere houter⟩
      | some outer =>
          have hlt : outer < scope := h.earlier (by simp [enclosing?, hhere, houter])
          obtain ⟨steps, hsteps⟩ := ih outer hlt (by omega)
          exact ⟨steps + 1, .outwards hhere houter hsteps⟩

/-- Each step of a search leads to a scope with a lower number, and `owner?` follows it. -/
theorem search (h : store.Forest) (name : String) (hscope : scope < store.scopes.size) :
    store.Search name scope (store.owner? name scope) := by
  induction scope using Nat.strongRecOn with
  | ind scope ih =>
      have hhere : store.scopes[scope]? = some store.scopes[scope] :=
        Array.getElem?_eq_getElem hscope
      rw [owner?_eq _ _ _ _ hhere]
      cases hbinds : store.scopes[scope].binds name with
      | true => exact .found hhere hbinds
      | false =>
          cases houter : store.scopes[scope].enclosing with
          | none => exact .lost hhere hbinds houter
          | some outer =>
              have hlt : outer < scope := h.earlier (by simp [enclosing?, hhere, houter])
              -- the guard of `owner?` lets every link of a forest pass
              simp only [Bool.false_eq_true, if_false, if_pos hlt]
              exact .outwards hhere hbinds houter (ih outer hlt (by omega))

theorem walkable (h : store.Forest) : store.Walkable :=
  fun _ hscope => ⟨h.climb hscope, fun name => h.search name hscope⟩

/-! ## The changes -/

theorem define (h : store.Forest) (hvalue : value.Lives store) :
    (store.define scope name value).Forest := by
  have hlater : store.Later (store.define scope name value) :=
    (define_grows store scope name value).later
  constructor
  · intro inner outer houter
    have hinner : inner < store.scopes.size := by simpa using lt_of_enclosing? houter
    rw [(hlater.keepsLinks inner hinner).2] at houter
    exact h.earlier houter
  · intro found hfound
    rcases holds_define hfound with rfl | hheld
    · exact hvalue.later hlater
    · exact (h.lives hheld).later hlater

theorem defineAll {bindings : List (String × Value)} (h : store.Forest)
    (hvalues : ∀ binding ∈ bindings, binding.2.Lives store) :
    (store.defineAll scope bindings).Forest := by
  induction bindings generalizing store with
  | nil => exact h
  | cons binding more ih =>
      obtain ⟨first, value⟩ := binding
      have hlater : store.Later (store.define scope first value) :=
        (define_grows store scope first value).later
      have hfirst : value.Lives store := hvalues (first, value) List.mem_cons_self
      refine ih (h.define hfirst) fun other hother => ?_
      exact (hvalues other (List.mem_cons_of_mem _ hother)).later hlater

/-- A new scope stands in none, or in one that there is. -/
theorem newScope (h : store.Forest) {enclosing : Option Nat}
    (henclosing : ∀ outer, enclosing = some outer → outer < store.scopes.size) :
    (store.newScope enclosing).2.Forest := by
  have hlater : store.Later (store.newScope enclosing).2 := (newScope_grows store enclosing).later
  constructor
  · intro inner outer houter
    have hsize : inner < store.scopes.size + 1 := by simpa using lt_of_enclosing? houter
    by_cases hnew : inner = store.scopes.size
    · have hhere : (store.newScope enclosing).2.scopes[inner]? = some ⟨enclosing, []⟩ := by
        rw [newScope_scopes, if_pos hnew]
      have hlink : enclosing = some outer := by simpa [enclosing?, hhere] using houter
      rw [hnew]
      exact henclosing outer hlink
    · rw [(hlater.keepsLinks inner (by omega)).2] at houter
      exact h.earlier houter
  · intro found hfound
    exact (h.lives (holds_newScope hfound)).later hlater

/-- Counting the functions changes no scope. -/
theorem newClosure (h : store.Forest) :
    ({ store with closures := store.closures + 1 } : Store).Forest :=
  ⟨fun houter => h.earlier houter, fun hfound => h.lives hfound⟩

end Store.Forest

end LoxLang
