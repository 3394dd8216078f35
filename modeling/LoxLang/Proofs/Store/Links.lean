import LoxLang.Proofs.Eval.Pairing
import LoxLang.Proofs.Store.Forest

set_option autoImplicit false

/-! # Scopes that correspond under different numbers

Two runs can do the same and still number their scopes differently, if one of them makes a scope where
the other one makes none. As long as such a scope binds no name it makes no difference: whoever looks
for a name from there goes on to the scope around it.

`Links` records which scopes of two stores are twins and which have been made on one side only. Scopes
from which the two sides see the same need not be twins, but they lead to twins through scopes that
bind nothing (`Links.Sees`). From such scopes a name is found in twins or not at all
(`Links.StoreRel.owner`), with values that correspond. -/

namespace LoxLang

/-- Functions with the same text, declared in scopes that correspond. -/
structure SameCode (sees : Nat → Nat → Prop) (f g : Closure) : Prop where
  name : g.name = f.name
  params : g.params = f.params
  body : g.body = f.body
  scope : sees f.scope g.scope

/-- How the scopes of two stores correspond. -/
structure Links where
  /-- Scopes that bind the same names. -/
  twin : Nat → Nat → Prop
  /-- Scopes that only the left side has, each with the scope around it. -/
  left : Nat → Nat → Prop
  /-- Scopes that only the right side has. -/
  right : Nat → Nat → Prop

namespace Links

/-- Scopes from which both sides see the same. -/
inductive Sees (W : Links) : Nat → Nat → Prop
  | twin {n m : Nat} : W.twin n m → Sees W n m
  | left {n m outer : Nat} : W.left n outer → Sees W outer m → Sees W n m
  | right {n m outer : Nat} : W.right m outer → Sees W n outer → Sees W n m

/-- Values that correspond. -/
abbrev ValueRel (W : Links) : Value → Value → Prop :=
  Value.Rel (SameCode W.Sees)

/-- Links later on, when more scopes have been made. -/
structure Grows (W V : Links) : Prop where
  twin : ∀ {n m : Nat}, W.twin n m → V.twin n m
  left : ∀ {n outer : Nat}, W.left n outer → V.left n outer
  right : ∀ {m outer : Nat}, W.right m outer → V.right m outer

/-- Twins with their numbers. The scopes around them see the same. -/
structure ScopeRel (W : Links) (n m : Nat) (here there : Scope) : Prop where
  bindings : ∀ name, Option.Rel W.ValueRel (here.get? name) (there.get? name)
  enclosing : Option.Rel (fun outer outer' => (outer < n ∧ outer' < m) ∧ W.Sees outer outer')
    here.enclosing there.enclosing

/-- Scopes of a store that bind nothing, each inside the one that is given with it. -/
def Blank (blank : Nat → Nat → Prop) (store : Store) : Prop :=
  ∀ n outer, blank n outer → outer < n ∧ store.scopes[n]? = some ⟨some outer, []⟩

/-- Stores whose scopes correspond. -/
structure StoreRel (W : Links) (a b : Store) : Prop where
  closures : b.closures = a.closures
  twins : ∀ {n m : Nat}, W.twin n m → ∃ here there : Scope,
    a.scopes[n]? = some here ∧ b.scopes[m]? = some there ∧ W.ScopeRel n m here there
  /-- No scope has two twins. -/
  same : ∀ {n m n' m' : Nat}, W.twin n m → W.twin n' m' → (n' = n ↔ m' = m)
  left : Blank W.left a
  right : Blank W.right b
  leftApart : ∀ {n m outer : Nat}, W.twin n m → ¬ W.left n outer
  rightApart : ∀ {n m outer : Nat}, W.twin n m → ¬ W.right m outer

/-- States that correspond. -/
structure StateRel (W : Links) (s t : State) : Prop where
  store : W.StoreRel s.store t.store
  depth : t.depth = s.depth
  output : t.output = s.output
  nativeCalls : t.nativeCalls = s.nativeCalls

/-! ## Later links -/

section
variable {W V U : Links} {n m : Nat}

theorem optionRel_mono {α β : Type} {R S : α → β → Prop} {o : Option α} {o' : Option β}
    (h : Option.Rel R o o') (hRS : ∀ a b, R a b → S a b) : Option.Rel S o o' := by
  cases h with
  | none => exact .none
  | some h => exact .some (hRS _ _ h)

theorem Grows.refl (W : Links) : W.Grows W :=
  ⟨id, id, id⟩

theorem Grows.trans (hWV : W.Grows V) (hVU : V.Grows U) : W.Grows U :=
  ⟨hVU.twin ∘ hWV.twin, hVU.left ∘ hWV.left, hVU.right ∘ hWV.right⟩

theorem Sees.grows (h : W.Sees n m) (hWV : W.Grows V) : V.Sees n m := by
  induction h with
  | twin h => exact .twin (hWV.twin h)
  | left h _ ih => exact .left (hWV.left h) ih
  | right h _ ih => exact .right (hWV.right h) ih

theorem sameCode_grows {f g : Closure} (h : SameCode W.Sees f g) (hWV : W.Grows V) :
    SameCode V.Sees f g :=
  { h with scope := h.scope.grows hWV }

theorem valueRel_grows {v w : Value} (h : W.ValueRel v w) (hWV : W.Grows V) : V.ValueRel v w :=
  h.mono fun _ _ hfg => sameCode_grows hfg hWV

theorem ScopeRel.grows {here there : Scope} (h : W.ScopeRel n m here there) (hWV : W.Grows V) :
    V.ScopeRel n m here there where
  bindings := fun name => optionRel_mono (h.bindings name) fun _ _ hv => valueRel_grows hv hWV
  enclosing := optionRel_mono h.enclosing fun _ _ houter => ⟨houter.1, houter.2.grows hWV⟩

end

/-! ## Names -/

section
variable {W : Links} {a b : Store} {n m : Nat}

theorem ScopeRel.binds {here there : Scope} (h : W.ScopeRel n m here there) (name : String) :
    there.binds name = here.binds name := by
  unfold Scope.binds
  rcases optionRel_cases (h.bindings name) with ⟨hhere, hthere⟩ | ⟨v, w, hhere, hthere, -⟩
  · rw [hhere, hthere]
  · rw [hhere, hthere]
    rfl

theorem ScopeRel.define {here there : Scope} (h : W.ScopeRel n m here there) (name : String)
    {v w : Value} (hv : W.ValueRel v w) :
    W.ScopeRel n m (here.define name v) (there.define name w) where
  bindings := by
    intro other
    rw [Scope.get?_define, Scope.get?_define]
    by_cases heq : other = name
    · rw [if_pos heq, if_pos heq]
      exact .some hv
    · rw [if_neg heq, if_neg heq]
      exact h.bindings other
  enclosing := h.enclosing

theorem Blank.owner {blank : Nat → Nat → Prop} {outer : Nat} (h : Blank blank a)
    (hn : blank n outer) (name : String) : a.owner? name n = a.owner? name outer := by
  obtain ⟨hlt, hhere⟩ := h n outer hn
  have hbinds : Scope.binds ⟨some outer, []⟩ name = false := rfl
  rw [Store.owner?_eq _ _ _ _ hhere, hbinds]
  exact if_pos hlt

/-- From scopes that see the same, a name is found in twins or not at all. -/
theorem StoreRel.owner (h : W.StoreRel a b) (name : String) (hsees : W.Sees n m) :
    Option.Rel W.twin (a.owner? name n) (b.owner? name m) := by
  -- Each step outwards is one to a scope with a smaller number, on one side or on both.
  induction hsum : n + m using Nat.strongRecOn generalizing n m with
  | ind sum ih =>
      subst hsum
      cases hsees with
      | twin htwin =>
          obtain ⟨here, there, hhere, hthere, hrel⟩ := h.twins htwin
          rw [Store.owner?_eq _ _ _ _ hhere, Store.owner?_eq _ _ _ _ hthere, hrel.binds name]
          by_cases hbinds : here.binds name = true
          · rw [if_pos hbinds, if_pos hbinds]
            exact .some htwin
          · rw [if_neg hbinds, if_neg hbinds]
            rcases optionRel_cases hrel.enclosing with
              ⟨hn, hm⟩ | ⟨outer, outer', hn, hm, ⟨hlt, hlt'⟩, houter⟩
            · rw [hn, hm]
              exact .none
            · rw [hn, hm]
              dsimp only
              rw [if_pos hlt, if_pos hlt']
              exact ih (outer + outer') (by omega) houter rfl
      | @left _ _ outer hleft houter =>
          rw [h.left.owner hleft name]
          have hlt : outer < n := (h.left _ _ hleft).1
          exact ih (outer + m) (by omega) houter rfl
      | @right _ _ outer hright houter =>
          rw [h.right.owner hright name]
          have hlt : outer < m := (h.right _ _ hright).1
          exact ih (n + outer) (by omega) houter rfl

theorem StoreRel.get (h : W.StoreRel a b) (name : String) (hsees : W.Sees n m) :
    Option.Rel W.ValueRel (a.get? n name) (b.get? m name) := by
  unfold Store.get?
  rcases optionRel_cases (h.owner name hsees) with ⟨ha, hb⟩ | ⟨owner, owner', ha, hb, htwin⟩
  · rw [ha, hb]
    exact .none
  · obtain ⟨here, there, hhere, hthere, hrel⟩ := h.twins htwin
    simp only [ha, hb, Option.bind_eq_bind, Option.bind_some, hhere, hthere]
    exact hrel.bindings name

theorem StoreRel.exist (h : W.StoreRel a b) (hsees : W.Sees n m) :
    n < a.scopes.size ∧ m < b.scopes.size := by
  induction hsees with
  | twin htwin =>
      obtain ⟨here, there, hhere, hthere, -⟩ := h.twins htwin
      exact ⟨(Array.getElem?_eq_some_iff.mp hhere).1, (Array.getElem?_eq_some_iff.mp hthere).1⟩
  | left hleft _ ih => exact ⟨(Array.getElem?_eq_some_iff.mp (h.left _ _ hleft).2).1, ih.2⟩
  | right hright _ ih => exact ⟨ih.1, (Array.getElem?_eq_some_iff.mp (h.right _ _ hright).2).1⟩

end

/-! ## Bindings -/

section
variable {W : Links} {a b : Store} {n m : Nat}

theorem Blank.define {blank : Nat → Nat → Prop} (h : Blank blank a)
    (hn : ∀ outer, ¬ blank n outer) (name : String) (v : Value) :
    Blank blank (a.define n name v) := by
  intro k outer hk
  have hne : k ≠ n := by
    rintro rfl
    exact hn outer hk
  rw [Store.define_scopes, if_neg hne]
  exact h k outer hk

/-- A binding in twins leaves stores that correspond. -/
theorem StoreRel.define (h : W.StoreRel a b) (htwin : W.twin n m) (name : String) {v w : Value}
    (hv : W.ValueRel v w) : W.StoreRel (a.define n name v) (b.define m name w) where
  closures := h.closures
  twins := by
    intro i j hij
    obtain ⟨here, there, hhere, hthere, hrel⟩ := h.twins hij
    rw [Store.define_scopes, Store.define_scopes]
    by_cases hi : i = n
    · have hj : j = m := (h.same htwin hij).1 hi
      rw [if_pos hi, if_pos hj, hhere, hthere]
      exact ⟨_, _, rfl, rfl, hrel.define name hv⟩
    · have hj : j ≠ m := fun hj => hi ((h.same htwin hij).2 hj)
      rw [if_neg hi, if_neg hj]
      exact ⟨here, there, hhere, hthere, hrel⟩
  same := h.same
  left := h.left.define (fun _ => h.leftApart htwin) name v
  right := h.right.define (fun _ => h.rightApart htwin) name w
  leftApart := h.leftApart
  rightApart := h.rightApart

/-- The same names, with values that correspond. -/
def BindingsRel (W : Links) : List (String × Value) → List (String × Value) → Prop :=
  List.Forall₂ fun p q => q.1 = p.1 ∧ W.ValueRel p.2 q.2

theorem StoreRel.defineAll {bs bs' : List (String × Value)} (h : W.StoreRel a b)
    (htwin : W.twin n m) (hbs : W.BindingsRel bs bs') :
    W.StoreRel (a.defineAll n bs) (b.defineAll m bs') := by
  induction hbs generalizing a b with
  | nil => exact h
  | @cons p q _ _ hpq _ ih =>
      obtain ⟨name, v⟩ := p
      obtain ⟨name', w⟩ := q
      obtain ⟨rfl, hv⟩ := hpq
      exact ih (h.define htwin _ hv)

/-- Counting a new function changes no scope. -/
theorem StoreRel.newClosure (h : W.StoreRel a b) :
    W.StoreRel { a with closures := a.closures + 1 } { b with closures := b.closures + 1 } where
  closures := congrArg (· + 1) h.closures
  twins := h.twins
  same := h.same
  left := h.left
  right := h.right
  leftApart := h.leftApart
  rightApart := h.rightApart

end

/-! ## New scopes -/

/-- Two more scopes that are twins. -/
def addTwin (W : Links) (n m : Nat) : Links :=
  { W with twin := fun i j => W.twin i j ∨ (i = n ∧ j = m) }

/-- One more scope of the left side. -/
def addLeft (W : Links) (n outer : Nat) : Links :=
  { W with left := fun i o => W.left i o ∨ (i = n ∧ o = outer) }

/-- One more scope of the right side. -/
def addRight (W : Links) (m outer : Nat) : Links :=
  { W with right := fun j o => W.right j o ∨ (j = m ∧ o = outer) }

section
variable (W : Links) (n m outer : Nat)

theorem grows_addTwin : W.Grows (W.addTwin n m) :=
  ⟨Or.inl, id, id⟩

theorem grows_addLeft : W.Grows (W.addLeft n outer) :=
  ⟨id, Or.inl, id⟩

theorem grows_addRight : W.Grows (W.addRight m outer) :=
  ⟨id, id, Or.inl⟩

end

section
variable {W : Links} {a b : Store} {n m : Nat}

theorem newScope_old {here : Scope} (h : a.scopes[n]? = some here) (enclosing : Option Nat) :
    (a.newScope enclosing).2.scopes[n]? = some here := by
  have hlt : n < a.scopes.size := (Array.getElem?_eq_some_iff.mp h).1
  rw [Store.newScope_scopes, if_neg (by omega)]
  exact h

theorem newScope_new (enclosing : Option Nat) :
    (a.newScope enclosing).2.scopes[a.scopes.size]? = some ⟨enclosing, []⟩ := by
  rw [Store.newScope_scopes, if_pos rfl]

theorem Blank.newScope {blank : Nat → Nat → Prop} (h : Blank blank a) (enclosing : Option Nat) :
    Blank blank (a.newScope enclosing).2 :=
  fun n outer hn => ⟨(h n outer hn).1, newScope_old (h n outer hn).2 enclosing⟩

/-- A new scope binds nothing. -/
theorem Blank.add {blank : Nat → Nat → Prop} (h : Blank blank a) (hn : n < a.scopes.size) :
    Blank (fun i o => blank i o ∨ (i = a.scopes.size ∧ o = n)) (a.newScope (some n)).2 := by
  rintro i o (hold | ⟨rfl, rfl⟩)
  · exact h.newScope _ i o hold
  · exact ⟨hn, newScope_new _⟩

theorem Blank.ne_size {blank : Nat → Nat → Prop} {outer : Nat} (h : Blank blank a)
    (hn : blank n outer) : n ≠ a.scopes.size :=
  Nat.ne_of_lt (Array.getElem?_eq_some_iff.mp (h n outer hn).2).1

theorem StoreRel.ne_size (h : W.StoreRel a b) (htwin : W.twin n m) :
    n ≠ a.scopes.size ∧ m ≠ b.scopes.size := by
  obtain ⟨hn, hm⟩ := h.exist (.twin htwin)
  exact ⟨Nat.ne_of_lt hn, Nat.ne_of_lt hm⟩

/-- A new scope on both sides makes new twins. -/
theorem StoreRel.newScope (h : W.StoreRel a b) (hsees : W.Sees n m) :
    (W.addTwin a.scopes.size b.scopes.size).StoreRel (a.newScope (some n)).2
      (b.newScope (some m)).2 where
  closures := h.closures
  twins := by
    have hgrows := W.grows_addTwin a.scopes.size b.scopes.size
    rintro i j (hij | ⟨rfl, rfl⟩)
    · obtain ⟨here, there, hhere, hthere, hrel⟩ := h.twins hij
      exact ⟨here, there, newScope_old hhere _, newScope_old hthere _, hrel.grows hgrows⟩
    · exact ⟨_, _, newScope_new _, newScope_new _, fun _ => .none,
        .some ⟨h.exist hsees, hsees.grows hgrows⟩⟩
  same := by
    rintro i j i' j' (hij | ⟨rfl, rfl⟩) (hij' | ⟨rfl, rfl⟩)
    · exact h.same hij hij'
    -- The new scopes have numbers that no twin had before.
    · have hne := h.ne_size hij
      exact ⟨fun heq => absurd heq.symm hne.1, fun heq => absurd heq.symm hne.2⟩
    · have hne := h.ne_size hij'
      exact ⟨fun heq => absurd heq hne.1, fun heq => absurd heq hne.2⟩
    · exact ⟨fun _ => rfl, fun _ => rfl⟩
  left := h.left.newScope _
  right := h.right.newScope _
  leftApart := by
    rintro i j outer (hij | ⟨rfl, rfl⟩) hleft
    · exact h.leftApart hij hleft
    · exact h.left.ne_size hleft rfl
  rightApart := by
    rintro i j outer (hij | ⟨rfl, rfl⟩) hright
    · exact h.rightApart hij hright
    · exact h.right.ne_size hright rfl

/-- A new scope on the left side only. -/
theorem StoreRel.newLeft (h : W.StoreRel a b) (hn : n < a.scopes.size) :
    (W.addLeft a.scopes.size n).StoreRel (a.newScope (some n)).2 b where
  closures := h.closures
  twins := by
    intro i j hij
    obtain ⟨here, there, hhere, hthere, hrel⟩ := h.twins hij
    exact ⟨here, there, newScope_old hhere _, hthere, hrel.grows (W.grows_addLeft _ _)⟩
  same := h.same
  left := h.left.add hn
  right := h.right
  leftApart := by
    rintro i j outer hij (hleft | ⟨rfl, rfl⟩)
    · exact h.leftApart hij hleft
    · exact (h.ne_size hij).1 rfl
  rightApart := h.rightApart

/-- A new scope on the right side only. -/
theorem StoreRel.newRight (h : W.StoreRel a b) (hm : m < b.scopes.size) :
    (W.addRight b.scopes.size m).StoreRel a (b.newScope (some m)).2 where
  closures := h.closures
  twins := by
    intro i j hij
    obtain ⟨here, there, hhere, hthere, hrel⟩ := h.twins hij
    exact ⟨here, there, hhere, newScope_old hthere _, hrel.grows (W.grows_addRight _ _)⟩
  same := h.same
  left := h.left
  right := h.right.add hm
  leftApart := h.leftApart
  rightApart := by
    rintro i j outer hij (hright | ⟨rfl, rfl⟩)
    · exact h.rightApart hij hright
    · exact (h.ne_size hij).2 rfl

end

/-! ## One store on both sides -/

/-- Every scope of a store is its own twin. -/
def self (store : Store) : Links where
  twin := fun n m => m = n ∧ n < store.scopes.size
  left := fun _ _ => False
  right := fun _ _ => False

theorem self_sees {store : Store} {n : Nat} (h : n < store.scopes.size) : (self store).Sees n n :=
  .twin ⟨rfl, h⟩

/-- In a forest, all that the scopes lead to is there. -/
theorem self_storeRel {store : Store} (h : store.Forest) : (self store).StoreRel store store where
  closures := rfl
  twins := by
    rintro n m ⟨rfl, hm⟩
    have hhere : store.scopes[m]? = some store.scopes[m] := Array.getElem?_eq_getElem hm
    refine ⟨_, _, hhere, hhere, fun name => ?_, ?_⟩
    · cases hvalue : store.scopes[m].get? name with
      | none => exact .none
      | some value =>
          have hlives : value.Lives store := h.lives ⟨m, _, name, hhere, hvalue⟩
          refine .some (Value.rel_self value fun i f heq => ⟨rfl, rfl, rfl, self_sees ?_⟩)
          rw [heq] at hlives
          exact hlives f.scope rfl
    · cases houter : store.scopes[m].enclosing with
      | none => exact .none
      | some outer =>
          have hlt : outer < m := h.earlier (by simp [Store.enclosing?, hhere, houter])
          exact .some ⟨⟨hlt, hlt⟩, self_sees (Nat.lt_trans hlt hm)⟩
  same := by
    rintro n m n' m' ⟨rfl, -⟩ ⟨rfl, -⟩
    exact Iff.rfl
  left := fun _ _ => False.elim
  right := fun _ _ => False.elim
  leftApart := fun _ => id
  rightApart := fun _ => id

theorem self_stateRel {s : State} (h : s.store.Forest) : (self s.store).StateRel s s :=
  ⟨self_storeRel h, rfl, rfl, rfl⟩

end Links

end LoxLang
