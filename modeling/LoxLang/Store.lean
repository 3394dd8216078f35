import LoxLang.Value

set_option autoImplicit false

/-! # The store of scopes

A scope binds names to values and may be enclosed by another scope. Scopes are numbered in the order
of their creation and live in one store; a scope is enclosed by one that was there before it, so
following the enclosing scopes comes to an end. A name means the nearest binding: `Store.owner?`
finds the scope that holds it, and reading and assigning both go through it. -/

namespace LoxLang

/-- The bindings of one scope and the number of the scope around it. -/
structure Scope where
  enclosing : Option Nat
  bindings : List (String × Value)

namespace Scope

/-- The value that the scope itself binds a name to. -/
def get? (scope : Scope) (name : String) : Option Value :=
  scope.bindings.lookup name

/-- Whether the scope itself binds a name. -/
def binds (scope : Scope) (name : String) : Bool :=
  (scope.get? name).isSome

/-- A list of bindings in which a name has a given value. -/
def put (name : String) (value : Value) : List (String × Value) → List (String × Value)
  | [] => [(name, value)]
  | (other, old) :: more =>
    if other == name then (other, value) :: more else (other, old) :: put name value more

/-- Binds a name in the scope; an earlier binding of the name there is overwritten. -/
def define (scope : Scope) (name : String) (value : Value) : Scope :=
  { scope with bindings := put name value scope.bindings }

end Scope

/-- All scopes, and how many function values have been made. -/
structure Store where
  scopes : Array Scope
  closures : Nat

namespace Store

/-- The store before anything has happened. -/
def empty : Store := ⟨#[], 0⟩

/-- Adds a scope; its number is the number of scopes before. -/
def newScope (store : Store) (enclosing : Option Nat) : Nat × Store :=
  (store.scopes.size, { store with scopes := store.scopes.push ⟨enclosing, []⟩ })

/-- The number of the nearest scope, from `scope` outwards, that binds a name. -/
def owner? (store : Store) (name : String) (scope : Nat) : Option Nat :=
  match store.scopes[scope]? with
  | none => none
  | some here =>
    if here.binds name then some scope
    else match here.enclosing with
      | none => none
      | some outer => if outer < scope then store.owner? name outer else none
termination_by scope

/-- The value of a name as seen from a scope. -/
def get? (store : Store) (scope : Nat) (name : String) : Option Value := do
  let owner ← store.owner? name scope
  let holder ← store.scopes[owner]?
  holder.get? name

/-- Binds a name in a scope. -/
def define (store : Store) (scope : Nat) (name : String) (value : Value) : Store :=
  { store with scopes := store.scopes.modify scope (·.define name value) }

/-- Gives the nearest binding of a name a new value; `none` if the name is not bound. -/
def assign? (store : Store) (scope : Nat) (name : String) (value : Value) : Option Store :=
  match store.owner? name scope with
  | some owner => some (store.define owner name value)
  | none => none

/-- The scope around a scope. -/
def enclosing? (store : Store) (scope : Nat) : Option Nat := do
  let here ← store.scopes[scope]?
  here.enclosing

/-- Binds names to values in turn; a later name overwrites an earlier one that is equal. -/
def defineAll (store : Store) (scope : Nat) : List (String × Value) → Store
  | [] => store
  | (name, value) :: more => (store.define scope name value).defineAll scope more

end Store

end LoxLang
