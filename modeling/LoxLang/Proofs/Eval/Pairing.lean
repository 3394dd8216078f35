import LoxLang.Eval.State
import LoxLang.Proofs.Store
import LoxLang.Proofs.Tree.Like

set_option autoImplicit false

/-! # States that correspond

Many facts about evaluation compare two runs: of the same tree in two stores, of two trees in the
same store, or of one tree with itself. A `Pairing` says which trees, scopes and lines of output
correspond, and with that which values, scopes, stores and states do.

Scopes keep their numbers from one side to the other. Only the scopes of a region take part: they
enclose one another, hold the functions that can be called, and are the only ones that evaluation in
one of them reads or changes. The scopes outside stay as they are on either side, which is what makes
the region a frame. All scopes that are still to be made belong to it. -/

namespace LoxLang

/-- Values that correspond when functions do as `C` says. -/
inductive Value.Rel (C : Closure → Closure → Prop) : Value → Value → Prop
  | nil : Value.Rel C .nil .nil
  | bool (b : Bool) : Value.Rel C (.bool b) (.bool b)
  | number (x : Float) : Value.Rel C (.number x) (.number x)
  | string (s : String) : Value.Rel C (.string s) (.string s)
  | closure (identity : Nat) {f g : Closure} :
    C f g → Value.Rel C (.closure identity f) (.closure identity g)
  | native (index : Nat) : Value.Rel C (.native index) (.native index)

namespace Value.Rel

variable {C D : Closure → Closure → Prop} {v w v' w' : Value}

theorem mono (hCD : ∀ f g, C f g → D f g) (h : Value.Rel C v w) : Value.Rel D v w := by
  cases h with
  | nil => exact .nil
  | bool b => exact .bool b
  | number x => exact .number x
  | string s => exact .string s
  | closure i h => exact .closure i (hCD _ _ h)
  | native i => exact .native i

theorem isTruthy (h : Value.Rel C v w) : w.isTruthy = v.isTruthy := by
  cases h <;> rfl

/-- Functions are told apart by their numbers, which values that correspond share. -/
theorem same (h : Value.Rel C v w) (h' : Value.Rel C v' w') : w.same w' = v.same v' := by
  cases h <;> cases h' <;> rfl

theorem text (hC : ∀ f g, C f g → g.name.lexeme = f.name.lexeme) (h : Value.Rel C v w) :
    w.text = v.text := by
  cases h with
  | closure i h => simp only [Value.text, hC _ _ h]
  | _ => rfl

/-- A literal has no function in it. -/
theorem literal (x : Literal) : Value.Rel C x.toValue x.toValue := by
  cases x with
  | nil => exact .nil
  | bool b => exact .bool b
  | number x => exact .number x
  | string s => exact .string s

end Value.Rel

/-- A value that is no function corresponds to itself, and a function does if it does as a
function. -/
theorem Value.rel_self {C : Closure → Closure → Prop} (v : Value)
    (h : ∀ i f, v = .closure i f → C f f) : Value.Rel C v v := by
  cases v with
  | nil => exact .nil
  | bool b => exact .bool b
  | number x => exact .number x
  | string s => exact .string s
  | closure i f => exact .closure i (h i f rfl)
  | native i => exact .native i

/-- Options that correspond are both absent or both there. -/
theorem optionRel_cases {α β : Type} {R : α → β → Prop} {o : Option α} {o' : Option β}
    (h : Option.Rel R o o') :
    (o = none ∧ o' = none) ∨ ∃ a b, o = some a ∧ o' = some b ∧ R a b := by
  cases h with
  | none => exact Or.inl ⟨rfl, rfl⟩
  | some h => exact Or.inr ⟨_, _, rfl, rfl, h⟩

/-- What corresponds in two states. -/
structure Pairing where
  like : Likeness
  /-- The scopes that evaluation can get at. -/
  region : Nat → Prop
  /-- The other scopes on either side, which stay as they are. -/
  leftOutside : Nat → Option Scope
  rightOutside : Nat → Option Scope
  output : Array Line → Array Line → Prop
  /-- The numbers of calls of native functions made so far on either side. -/
  moment : Nat → Nat → Prop

namespace Pairing

variable (P : Pairing)

/-- Functions that correspond: declared in the same scope of the region by trees that are alike. -/
structure ClosureRel (f g : Closure) : Prop where
  scope : g.scope = f.scope
  inside : P.region f.scope
  name : P.like.token .name f.name g.name
  params : List.Forall₂ (P.like.token .name) f.params g.params
  body : List.Forall₂ (Stmt.Like P.like) f.body g.body

/-- Values that correspond. -/
abbrev ValueRel : Value → Value → Prop := Value.Rel P.ClosureRel

/-- Scopes that correspond. -/
structure ScopeRel (a b : Scope) : Prop where
  enclosing : b.enclosing = a.enclosing
  inside : ∀ outer, a.enclosing = some outer → P.region outer
  bindings : ∀ name, Option.Rel P.ValueRel (a.get? name) (b.get? name)

/-- Stores that correspond. -/
structure StoreRel (a b : Store) : Prop where
  size : b.scopes.size = a.scopes.size
  closures : b.closures = a.closures
  fresh : ∀ n, a.scopes.size ≤ n → P.region n
  scopes : ∀ n, P.region n → Option.Rel P.ScopeRel a.scopes[n]? b.scopes[n]?
  leftFrame : ∀ n, ¬ P.region n → a.scopes[n]? = P.leftOutside n
  rightFrame : ∀ n, ¬ P.region n → b.scopes[n]? = P.rightOutside n

/-- States that correspond, with `depth` calls active. -/
structure StateRel (depth : Nat) (s t : State) : Prop where
  store : P.StoreRel s.store t.store
  leftDepth : s.depth = depth
  rightDepth : t.depth = depth
  output : P.output s.output t.output
  moment : P.moment s.nativeCalls t.nativeCalls

variable {P}

/-! ## Scopes -/

namespace ScopeRel

variable {a b : Scope}

theorem binds (h : P.ScopeRel a b) (name : String) : b.binds name = a.binds name := by
  unfold Scope.binds
  rcases optionRel_cases (h.bindings name) with ⟨ha, hb⟩ | ⟨v, w, ha, hb, -⟩
  · rw [ha, hb]
  · rw [ha, hb]
    rfl

theorem define (h : P.ScopeRel a b) (name : String) {v w : Value} (hv : P.ValueRel v w) :
    P.ScopeRel (a.define name v) (b.define name w) where
  enclosing := h.enclosing
  inside := h.inside
  bindings := by
    intro other
    rw [Scope.get?_define, Scope.get?_define]
    by_cases heq : other = name
    · rw [if_pos heq, if_pos heq]
      exact .some hv
    · rw [if_neg heq, if_neg heq]
      exact h.bindings other

end ScopeRel

/-! ## Stores -/

namespace StoreRel

variable {a b : Store} {scope : Nat}

/-- From a scope of the region, both sides find a name in the same scope, which belongs to it. -/
theorem owner (h : P.StoreRel a b) (name : String) (hscope : P.region scope) :
    b.owner? name scope = a.owner? name scope ∧
      ∀ owner, a.owner? name scope = some owner → P.region owner := by
  induction scope using Nat.strongRecOn with
  | ind scope ih =>
      rcases optionRel_cases (h.scopes scope hscope) with ⟨ha, hb⟩ | ⟨here, here', ha, hb, hhere⟩
      · rw [Store.owner?_none _ _ _ ha, Store.owner?_none _ _ _ hb]
        exact ⟨rfl, fun _ howner => nomatch howner⟩
      · rw [Store.owner?_eq _ _ _ _ ha, Store.owner?_eq _ _ _ _ hb, hhere.binds name,
          hhere.enclosing]
        by_cases hbinds : here.binds name = true
        · rw [if_pos hbinds, if_pos hbinds]
          refine ⟨rfl, fun owner howner => ?_⟩
          cases howner
          exact hscope
        · rw [if_neg hbinds, if_neg hbinds]
          cases houter : here.enclosing with
          | none => exact ⟨rfl, fun _ howner => nomatch howner⟩
          | some outer =>
              dsimp only
              by_cases hlt : outer < scope
              · rw [if_pos hlt, if_pos hlt]
                exact ih outer hlt (hhere.inside outer houter)
              · rw [if_neg hlt, if_neg hlt]
                exact ⟨rfl, fun _ howner => nomatch howner⟩

/-- Names have values that correspond. -/
theorem get (h : P.StoreRel a b) (name : String) (hscope : P.region scope) :
    Option.Rel P.ValueRel (a.get? scope name) (b.get? scope name) := by
  obtain ⟨howner, hregion⟩ := h.owner name hscope
  unfold Store.get?
  rw [howner]
  cases ha : a.owner? name scope with
  | none => exact .none
  | some owner =>
      simp only [Option.bind_eq_bind, Option.bind_some]
      rcases optionRel_cases (h.scopes owner (hregion owner ha)) with
        ⟨hl, hr⟩ | ⟨here, here', hl, hr, hhere⟩
      · rw [hl, hr]
        exact .none
      · rw [hl, hr]
        exact hhere.bindings name

/-- A binding in a scope of the region leaves stores that correspond. -/
theorem define (h : P.StoreRel a b) (name : String) {v w : Value} (hscope : P.region scope)
    (hv : P.ValueRel v w) : P.StoreRel (a.define scope name v) (b.define scope name w) where
  size := by simpa using h.size
  closures := h.closures
  fresh := by simpa using h.fresh
  scopes := by
    intro n hn
    rw [Store.define_scopes, Store.define_scopes]
    by_cases heq : n = scope
    · rw [if_pos heq, if_pos heq]
      rcases optionRel_cases (h.scopes n hn) with ⟨ha, hb⟩ | ⟨here, here', ha, hb, hhere⟩
      · rw [ha, hb]
        exact .none
      · rw [ha, hb]
        exact .some (hhere.define name hv)
    · rw [if_neg heq, if_neg heq]
      exact h.scopes n hn
  leftFrame := by
    intro n hn
    have hne : n ≠ scope := fun heq => hn (heq ▸ hscope)
    rw [Store.define_scopes, if_neg hne]
    exact h.leftFrame n hn
  rightFrame := by
    intro n hn
    have hne : n ≠ scope := fun heq => hn (heq ▸ hscope)
    rw [Store.define_scopes, if_neg hne]
    exact h.rightFrame n hn

/-- A new scope inside the region, or inside none, belongs to it. -/
theorem newScope (h : P.StoreRel a b) (enclosing : Option Nat)
    (henclosing : ∀ outer, enclosing = some outer → P.region outer) :
    P.StoreRel (a.newScope enclosing).2 (b.newScope enclosing).2 where
  size := by simpa using h.size
  closures := h.closures
  fresh := by
    intro n hn
    rw [Store.newScope_size] at hn
    exact h.fresh n (by omega)
  scopes := by
    intro n hn
    rw [Store.newScope_scopes, Store.newScope_scopes, h.size]
    by_cases heq : n = a.scopes.size
    · rw [if_pos heq, if_pos heq]
      exact .some ⟨rfl, henclosing, fun name => .none⟩
    · rw [if_neg heq, if_neg heq]
      exact h.scopes n hn
  leftFrame := by
    intro n hn
    have hne : n ≠ a.scopes.size := fun heq => hn (h.fresh n (by omega))
    rw [Store.newScope_scopes, if_neg hne]
    exact h.leftFrame n hn
  rightFrame := by
    intro n hn
    have hsize := h.size
    have hne : n ≠ b.scopes.size := fun heq => hn (h.fresh n (by omega))
    rw [Store.newScope_scopes, if_neg hne]
    exact h.rightFrame n hn

/-- Counting a new function changes no scope. -/
theorem newClosure (h : P.StoreRel a b) :
    P.StoreRel { a with closures := a.closures + 1 } { b with closures := b.closures + 1 } where
  size := h.size
  closures := by
    show b.closures + 1 = a.closures + 1
    rw [h.closures]
  fresh := h.fresh
  scopes := h.scopes
  leftFrame := h.leftFrame
  rightFrame := h.rightFrame

end StoreRel

/-! ## No scope left out -/

/-- All scopes take part, and the native functions are called in step. -/
def everywhere (like : Likeness) (output : Array Line → Array Line → Prop) : Pairing where
  like := like
  region := fun _ => True
  leftOutside := fun _ => none
  rightOutside := fun _ => none
  output := output
  moment := Eq

/-- A store corresponds to itself if every function in it does. -/
theorem storeRel_self {like : Likeness} {output : Array Line → Array Line → Prop} {store : Store}
    (h : ∀ (scope : Nat) (here : Scope) (name : String) (i : Nat) (f : Closure),
      store.scopes[scope]? = some here → here.get? name = some (.closure i f) →
      (everywhere like output).ClosureRel f f) :
    (everywhere like output).StoreRel store store := by
  refine ⟨rfl, rfl, fun _ _ => trivial, fun scope _ => ?_, fun _ hn => absurd trivial hn,
    fun _ hn => absurd trivial hn⟩
  cases hhere : store.scopes[scope]? with
  | none => exact .none
  | some here =>
      refine .some ⟨rfl, fun _ _ => trivial, fun name => ?_⟩
      cases hvalue : here.get? name with
      | none => exact .none
      | some value =>
          refine .some (Value.rel_self value fun i f heq => ?_)
          subst heq
          exact h scope here name i f hhere hvalue

end Pairing

end LoxLang
