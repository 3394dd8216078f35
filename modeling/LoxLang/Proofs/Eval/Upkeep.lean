import LoxLang.Eval
import LoxLang.Proofs.Eval.Sim
import LoxLang.Proofs.Store.Growth
import LoxLang.Proofs.Tree.Parts

set_option autoImplicit false

/-! # What evaluation keeps up

An `Upkeep` says which trees may be evaluated in which scopes, which functions a store may hold, and
in which ways evaluation may stop. All of that can depend on the store, which grows on the way, and
has to last when it does.

If an upkeep fits together (`Upkeep.Lawful`: the parts of a tree that may be evaluated may be evaluated
where they are, and a function that may be called has a body that may be executed in the scope of the
call), then evaluation keeps it up: from a store with such functions, a tree that may be evaluated
stops in none but the allowed ways and leaves a store with such functions (`evalWith_ends`,
`execWith_ends`, `invoke_ends`). On the way the store only grows, and in the end as many calls are
active as in the beginning, whatever the upkeep. -/

namespace LoxLang

/-- What evaluation has to keep up. -/
structure Upkeep where
  setting : Setting
  /-- The functions that may be called. -/
  closure : Store → Closure → Prop
  /-- The expressions that may be evaluated in a scope. -/
  expr : Store → Nat → Expr → Prop
  /-- The statements that may be executed in a scope. -/
  stmt : Store → Nat → Stmt → Prop
  /-- The lists of statements that may be executed in a scope. -/
  stmts : Store → Nat → List Stmt → Prop
  /-- The ways in which evaluation may stop. -/
  stop : Stop → Prop

/-! ## Operators -/

namespace Eval

/-- What applying an operator can come to: a value that is no function, an operand of the wrong sort,
or that there is no such operator. -/
def Operation (op : Token) (x : Eval Value) : Prop :=
  (∃ value, x = pure value ∧ ∀ i f, value ≠ .closure i f) ∨
    (∃ fault, x = refuse fault op ∧ fault.cause = .typeMismatch) ∨
    x = throw (.defect .unknownOperator)

theorem operation_pure {op : Token} {value : Value} (h : ∀ i f, value ≠ .closure i f) :
    Operation op (pure value) :=
  Or.inl ⟨value, rfl, h⟩

theorem operation_refuse {op : Token} {fault : RuntimeFault} (h : fault.cause = .typeMismatch) :
    Operation op (refuse fault op) :=
  Or.inr (Or.inl ⟨fault, rfl, h⟩)

theorem applyBinary_operation (op : Token) (left right : Value) :
    Operation op (applyBinary op left right) := by
  unfold applyBinary
  split
  case h_1 => exact operation_pure (by simp)
  case h_2 => exact operation_pure (by simp)
  case h_3 =>
      split
      case h_1 => exact operation_pure (by simp)
      case h_2 => exact operation_pure (by simp)
      case h_3 => exact operation_refuse rfl
  case h_4 =>
      split
      case h_1 x y =>
          cases hvalue : arithmetic? op.kind x y with
          | some value =>
              have hne : ∀ i f, value ≠ .closure i f := by
                obtain ⟨z, rfl⟩ | ⟨b, rfl⟩ := Sim.arithmetic?_value hvalue <;> simp
              exact operation_pure hne
          | none => exact Or.inr (Or.inr rfl)
      case h_2 => exact operation_refuse rfl

theorem applyUnary_operation (op : Token) (value : Value) :
    Operation op (applyUnary op value) := by
  unfold applyUnary
  split
  case h_1 => exact operation_pure (by simp)
  case h_2 =>
      split
      case h_1 => exact operation_pure (by simp)
      case h_2 => exact operation_refuse rfl
  case h_3 => exact Or.inr (Or.inr rfl)

end Eval

namespace Upkeep

/-- A value that, if it is a function, may be called. -/
def ValueOk (U : Upkeep) (store : Store) (value : Value) : Prop :=
  ∀ i f, value = .closure i f → U.closure store f

/-- All functions in the store may be called. -/
def StoreOk (U : Upkeep) (store : Store) : Prop :=
  ∀ (scope : Nat) (here : Scope) (name : String) (value : Value),
    store.scopes[scope]? = some here → here.get? name = some value → U.ValueOk store value

/-- What an upkeep has to satisfy. -/
structure Lawful (U : Upkeep) : Prop where
  closureLater : ∀ {a b : Store} {f : Closure}, a.Later b → U.closure a f → U.closure b f
  exprLater : ∀ {a b : Store} {scope : Nat} {e : Expr},
    a.Later b → U.expr a scope e → U.expr b scope e
  stmtLater : ∀ {a b : Store} {scope : Nat} {s : Stmt},
    a.Later b → U.stmt a scope s → U.stmt b scope s
  part : ∀ {st : Store} {scope : Nat} {e : Expr},
    U.expr st scope e → ∀ e' ∈ e.parts, U.expr st scope e'
  /-- A name that is read, or assigned to, may be missing only if that is a way to stop. -/
  name : ∀ {st : Store} {scope : Nat} {t : Token}, U.expr st scope (.name t) →
    st.owner? t.lexeme scope = none →
    U.stop (.failure ((RuntimeFault.undefinedVariable t.lexeme).located t))
  assign : ∀ {st : Store} {scope : Nat} {t : Token} {e : Expr}, U.expr st scope (.assign t e) →
    st.owner? t.lexeme scope = none →
    U.stop (.failure ((RuntimeFault.undefinedVariable t.lexeme).located t))
  exprIn : ∀ {st : Store} {scope : Nat} {s : Stmt},
    U.stmt st scope s → ∀ e ∈ s.exprs, U.expr st scope e
  branch : ∀ {st : Store} {scope : Nat} {s : Stmt},
    U.stmt st scope s → ∀ s' ∈ s.branches, U.stmt st scope s'
  block : ∀ {st : Store} {scope : Nat} {body : List Stmt}, U.stmt st scope (.block body) →
    U.stmts (st.newScope (some scope)).2 st.scopes.size body
  function : ∀ {st : Store} {scope : Nat} {name : Token} {params : List Token} {body : List Stmt}
    {value : Value}, U.stmt st scope (.function name params body) →
    U.closure (st.define scope name.lexeme value) ⟨name, params, body, scope⟩
  /-- A loop may reach the bound only if that is a way to stop. -/
  loop : ∀ {st : Store} {scope : Nat} {e : Expr} {s : Stmt},
    U.stmt st scope (.loop e s) → U.stop .exhausted
  first : ∀ {st : Store} {scope : Nat} {s : Stmt} {more : List Stmt},
    U.stmts st scope (s :: more) → U.stmt st scope s
  /-- The statements behind one that has been executed find the names that it has declared. -/
  rest : ∀ {a b : Store} {scope : Nat} {s : Stmt} {more : List Stmt},
    U.stmts a scope (s :: more) → a.Later b →
    (scope < b.scopes.size → ∀ name ∈ s.declared, b.Binds scope name) → U.stmts b scope more
  /-- The body of a function is executed in a scope of its own that binds the parameters. -/
  enter : ∀ {st : Store} {f : Closure} {args : List Value} {bindings : List (String × Value)},
    U.closure st f → Eval.bindings? f.params args = some bindings →
    U.stmts ((st.newScope (some f.scope)).2.defineAll st.scopes.size bindings) st.scopes.size f.body
  native : ∀ native ∈ U.setting.natives, ∀ (st : Store) (n : Nat) (args : List Value) (value : Value),
    (∀ arg ∈ args, U.ValueOk st arg) → native.run n args = .value value → U.ValueOk st value
  /-- A native function may fail to answer only if that is a way to stop. -/
  pending : ∀ native ∈ U.setting.natives, ∀ (n : Nat) (args : List Value),
    native.run n args = .pending → U.stop .exhausted
  /-- All other ways to stop are allowed. -/
  others : ∀ stop, stop ≠ .exhausted →
    (∀ token message, stop ≠ .failure (.runtime token .undefinedVariable message)) → U.stop stop

/-- A state to evaluate from, with so many calls active. -/
structure Ready (U : Upkeep) (depth : Nat) (s : State) : Prop where
  depth : s.depth = depth
  store : U.StoreOk s.store

/-- What evaluation from one state leaves in another, if no scope gains other names than those in
`may`. -/
structure Leaves (U : Upkeep) (may : Nat → String → Prop) (s t : State) : Prop where
  depth : t.depth = s.depth
  grows : s.store.Grows may t.store
  store : U.StoreOk t.store

/-- How evaluation from a state ends. -/
def Ends (U : Upkeep) {α : Type} (may : Nat → String → Prop) (good : Store → α → Prop) (s : State) :
    EStateM.Result Stop State α → Prop
  | .ok a t => U.Leaves may s t ∧ good t.store a
  | .error e t => U.Leaves may s t ∧ U.stop e

/-- A flow that returns a function that may be called, if it returns one. -/
def FlowOk (U : Upkeep) (store : Store) : Flow → Prop
  | .normal => True
  | .returning value => U.ValueOk store value

/-- How a statement ends: if it did not return, the names that it declares are bound. -/
def Done (U : Upkeep) (scope : Nat) (names : List String) (store : Store) (flow : Flow) : Prop :=
  U.FlowOk store flow ∧
    (flow = .normal → scope < store.scopes.size → ∀ name ∈ names, store.Binds scope name)

/-- The meaning of calls that become active at some depth. -/
def InvokeOk (U : Upkeep) (depth : Nat) (invoke : Eval.Invoke) : Prop :=
  ∀ {s : State} {f : Closure} {args : List Value}, depth < U.setting.maxDepth →
    U.Ready (depth + 1) s → U.closure s.store f → (∀ arg ∈ args, U.ValueOk s.store arg) →
    U.Ends nowhere U.ValueOk s (invoke f args s)

open Eval

variable {U : Upkeep} {α β : Type} {may may' : Nat → String → Prop} {good : Store → α → Prop}
  {goal : Store → β → Prop} {depth scope : Nat} {s t r : State}

/-! ## Running one after the other -/

theorem Ready.leaves (h : U.Ready depth s) (may : Nat → String → Prop) : U.Leaves may s s :=
  ⟨rfl, .refl _ _, h.store⟩

theorem Leaves.ready (h : U.Leaves may s t) (hs : U.Ready depth s) : U.Ready depth t :=
  ⟨h.depth.trans hs.depth, h.store⟩

theorem Leaves.later (h : U.Leaves may s t) : s.store.Later t.store :=
  h.grows.later

theorem Leaves.trans (h : U.Leaves may s t) (h' : U.Leaves may t r) : U.Leaves may s r :=
  ⟨h'.depth.trans h.depth, h.grows.trans h'.grows, h'.store⟩

theorem Leaves.mono (h : U.Leaves may s t)
    (hmay : ∀ scope name, may scope name → may' scope name) : U.Leaves may' s t :=
  ⟨h.depth, h.grows.mono hmay, h.store⟩

/-- What is left is the same if it is left by way of another state. -/
theorem Ends.after {result : EStateM.Result Stop State α} (h : U.Ends may good t result)
    (hst : U.Leaves may s t) : U.Ends may good s result := by
  cases result with
  | ok a r => exact ⟨hst.trans h.1, h.2⟩
  | error e r => exact ⟨hst.trans h.1, h.2⟩

theorem Ends.mono {result : EStateM.Result Stop State α} {better : Store → α → Prop}
    (h : U.Ends may good s result) (hmay : ∀ scope name, may scope name → may' scope name)
    (hgood : ∀ store a, good store a → better store a) : U.Ends may' better s result := by
  cases result with
  | ok a r => exact ⟨h.1.mono hmay, hgood _ _ h.2⟩
  | error e r => exact ⟨h.1.mono hmay, h.2⟩

/-- What adds no name anywhere adds only such names as are allowed. -/
theorem Ends.anywhere {result : EStateM.Result Stop State α} (h : U.Ends nowhere good s result) :
    U.Ends may good s result :=
  h.mono (fun _ _ hno => hno.elim) fun _ _ => id

theorem Ends.bind {x : Eval α} {f : α → Eval β} (hx : U.Ends may good s (x s))
    (hf : ∀ a t, U.Leaves may s t → good t.store a → U.Ends may goal t (f a t)) :
    U.Ends may goal s ((x >>= f) s) := by
  rw [bind_run]
  cases hxs : x s with
  | ok a t =>
      rw [hxs] at hx
      exact (hf a t hx.1 hx.2).after hx.1
  | error e t =>
      rw [hxs] at hx
      exact hx

theorem ends_pure {a : α} (hs : U.Ready depth s) (h : good s.store a) :
    U.Ends may good s ((pure a : Eval α) s) :=
  ⟨hs.leaves may, h⟩

theorem ends_throw {stop : Stop} (hs : U.Ready depth s) (h : U.stop stop) :
    U.Ends may good s ((throw stop : Eval α) s) :=
  ⟨hs.leaves may, h⟩

/-- Whichever way a test goes. -/
theorem ends_ifTruthy {value : Value} {x y : Eval α} (hx : U.Ends may good s (x s))
    (hy : U.Ends may good s (y s)) :
    U.Ends may good s ((if value.isTruthy then x else y) s) := by
  by_cases htrue : value.isTruthy = true
  · rw [if_pos htrue]
    exact hx
  · rw [if_neg htrue]
    exact hy

/-! ## Values -/

theorem valueOk_of_ne {store : Store} {value : Value} (h : ∀ i f, value ≠ .closure i f) :
    U.ValueOk store value :=
  fun i f hvalue => absurd hvalue (h i f)

section
variable (hU : U.Lawful)

include hU

theorem Lawful.valueLater {a b : Store} {value : Value} (hab : a.Later b) (h : U.ValueOk a value) :
    U.ValueOk b value :=
  fun i f hvalue => hU.closureLater hab (h i f hvalue)

theorem Lawful.refusal {fault : RuntimeFault} (h : fault.cause ≠ .undefinedVariable)
    (token : Token) : U.stop (.failure (fault.located token)) := by
  refine hU.others _ (by simp) fun t message heq => h ?_
  simp only [RuntimeFault.located, Stop.failure.injEq, Diagnostic.runtime.injEq] at heq
  exact heq.2.1

theorem Lawful.defect (defect : TreeDefect) : U.stop (.defect defect) :=
  hU.others _ (by simp) (by simp)

/-! ## Changes of the store -/

omit hU in
theorem StoreOk.held {store : Store} {value : Value} (hstore : U.StoreOk store)
    (h : store.Holds value) : U.ValueOk store value := by
  obtain ⟨scope, here, name, hhere, hvalue⟩ := h
  exact hstore scope here name value hhere hvalue

theorem storeOk_newScope {store : Store} (h : U.StoreOk store) (enclosing : Option Nat) :
    U.StoreOk (store.newScope enclosing).2 := by
  intro n here name value hhere hvalue
  have hheld : store.Holds value := Store.holds_newScope ⟨n, here, name, hhere, hvalue⟩
  exact hU.valueLater (Store.newScope_grows store enclosing).later (h.held hheld)

theorem storeOk_define {store : Store} (h : U.StoreOk store) {name : String} {value : Value}
    (hvalue : U.ValueOk (store.define scope name value) value) :
    U.StoreOk (store.define scope name value) := by
  intro n here other found hhere hfound
  rcases Store.holds_define ⟨n, here, other, hhere, hfound⟩ with rfl | hheld
  · exact hvalue
  · exact hU.valueLater (Store.define_grows store scope name value).later (h.held hheld)

theorem storeOk_defineAll {store : Store} (h : U.StoreOk store) {bindings : List (String × Value)}
    (hvalues : ∀ binding ∈ bindings, U.ValueOk store binding.2) :
    U.StoreOk (store.defineAll scope bindings) := by
  induction bindings generalizing store with
  | nil => exact h
  | cons binding more ih =>
      obtain ⟨name, value⟩ := binding
      have hlater : store.Later (store.define scope name value) :=
        (Store.define_grows store scope name value).later
      have hfirst : U.ValueOk store value := hvalues (name, value) List.mem_cons_self
      refine ih (storeOk_define hU h (hU.valueLater hlater hfirst)) fun other hother => ?_
      exact hU.valueLater hlater (hvalues other (List.mem_cons_of_mem _ hother))

theorem ends_define {name : String} {value : Value} (hs : U.Ready depth s)
    (hvalue : U.ValueOk (s.store.define scope name value) value) :
    U.Ends (within scope [name]) (U.Done scope [name]) s
      ((define scope name value >>= fun _ => pure Flow.normal) s) := by
  refine ⟨⟨rfl, Store.define_grows _ _ _ _, storeOk_define hU hs.store hvalue⟩, trivial, ?_⟩
  intro _ hscope other hother
  rw [List.mem_singleton.mp hother]
  have hlt : scope < s.store.scopes.size := by simpa using hscope
  exact (Store.binds_define hlt).mpr (Or.inl ⟨rfl, rfl⟩)

/-! ## Single steps -/

omit hU in
/-- A name that has no value is bound in no scope around. -/
theorem owner?_of_get?_none {store : Store} {name : String}
    (h : store.get? scope name = none) : store.owner? name scope = none := by
  cases howner : store.owner? name scope with
  | none => rfl
  | some owner =>
      obtain ⟨here, hhere, hbinds⟩ := Store.owner?_binds howner
      obtain ⟨value, hvalue⟩ := Option.isSome_iff_exists.mp hbinds
      have hget : store.get? scope name = some value := by
        simp [Store.get?, howner, hhere, hvalue]
      rw [hget] at h
      cases h

theorem ends_get {token : Token} (hs : U.Ready depth s) (h : U.expr s.store scope (.name token)) :
    U.Ends may U.ValueOk s (Eval.get scope token s) := by
  unfold Eval.get
  cases hget : s.store.get? scope token.lexeme with
  | some value => exact ⟨hs.leaves _, hs.store.held (Store.holds_of_get? hget)⟩
  | none => exact ends_throw hs (hU.name h (owner?_of_get?_none hget))

theorem ends_assign {token : Token} {e : Expr} {value : Value} (hs : U.Ready depth s)
    (h : U.expr s.store scope (.assign token e)) (hvalue : U.ValueOk s.store value) :
    U.Ends nowhere (fun _ _ => True) s (assign scope token value s) := by
  unfold assign
  cases howner : s.store.owner? token.lexeme scope with
  | none => exact ends_throw hs (hU.assign h howner)
  | some owner =>
      -- The name is bound in that scope already, so the scope gains nothing.
      have hgrows := Store.redefine_grows value (Store.owner?_binds howner)
      exact ⟨⟨rfl, hgrows, storeOk_define hU hs.store (hU.valueLater hgrows.later hvalue)⟩, trivial⟩

theorem ends_operation {op : Token} {x : Eval Value} (h : Operation op x) (hs : U.Ready depth s) :
    U.Ends may U.ValueOk s (x s) := by
  rcases h with ⟨value, rfl, hvalue⟩ | ⟨fault, rfl, hcause⟩ | rfl
  · exact ends_pure hs (valueOk_of_ne hvalue)
  · exact ends_throw hs (hU.refusal (by simp [hcause]) op)
  · exact ends_throw hs (hU.defect _)

/-! ## Calls -/

/-- A call counts as active while its body runs, so its end finds as many active calls as its
beginning. -/
theorem ends_active {paren : Token} {body : Eval α} (hs : U.Ready depth s)
    (h : depth < U.setting.maxDepth → U.Ready (depth + 1) { s with depth := depth + 1 } →
      U.Ends may good { s with depth := depth + 1 } (body { s with depth := depth + 1 })) :
    U.Ends may good s (active U.setting paren body s) := by
  unfold active
  rw [hs.depth]
  by_cases hlimit : U.setting.maxDepth ≤ depth
  · rw [if_pos hlimit]
    exact ends_throw hs (hU.refusal (by simp [RuntimeFault.cause]) paren)
  · rw [if_neg hlimit]
    have hends := h (Nat.lt_of_not_le hlimit) ⟨rfl, hs.store⟩
    have hleave {t : State} (ht : U.Leaves may { s with depth := depth + 1 } t) :
        U.Leaves may s { t with depth := t.depth - 1 } := by
      have hdepth : t.depth = depth + 1 := ht.depth
      exact ⟨by simp [hdepth, hs.depth], ht.grows, ht.store⟩
    cases hbody : body { s with depth := depth + 1 } with
    | ok a t =>
        rw [hbody] at hends
        exact ⟨hleave hends.1, hends.2⟩
    | error e t =>
        rw [hbody] at hends
        exact ⟨hleave hends.1, hends.2⟩

theorem ends_callNative {native : Native} {args : List Value} (hs : U.Ready depth s)
    (hnative : native ∈ U.setting.natives) (hargs : ∀ arg ∈ args, U.ValueOk s.store arg) :
    U.Ends may U.ValueOk s (callNative native args s) := by
  let counted : State := { s with nativeCalls := s.nativeCalls + 1 }
  show U.Ends may U.ValueOk s (answer (native.run s.nativeCalls args) counted)
  have hleaves : U.Leaves may s counted := ⟨rfl, .refl _ _, hs.store⟩
  refine Ends.after ?_ hleaves
  have hcounted : U.Ready depth counted := hleaves.ready hs
  cases hreply : native.run s.nativeCalls args with
  | value value =>
      exact ends_pure hcounted (hU.native native hnative s.store _ args value hargs hreply)
  | failure message => exact ends_throw hcounted (hU.others _ (by simp) (by simp))
  | breakdown => exact ends_throw hcounted (hU.others _ (by simp) (by simp))
  | pending => exact ends_throw hcounted (hU.pending native hnative _ args hreply)

theorem ends_callWith {inv : Invoke} (hinv : U.InvokeOk depth inv) {paren : Token}
    {callee : Value} {target : Callable} {args : List Value} (hs : U.Ready depth s)
    (htarget : callable? U.setting callee = some target) (hcallee : U.ValueOk s.store callee)
    (hargs : ∀ arg ∈ args, U.ValueOk s.store arg) :
    U.Ends nowhere U.ValueOk s (callWith U.setting inv paren target args s) := by
  unfold callWith
  by_cases harity : (args.length : Int) = target.arity
  · rw [if_pos harity]
    refine ends_active hU hs fun hdepth hready => ?_
    cases callee with
    | closure i f =>
        cases htarget
        exact hinv hdepth hready (hcallee i f rfl) hargs
    | native index =>
        obtain ⟨native, hnative, rfl⟩ := Option.map_eq_some_iff.mp htarget
        exact ends_callNative hU hready (Array.mem_of_getElem? hnative) hargs
    | _ => cases htarget
  · rw [if_neg harity]
    exact ends_throw hs (hU.refusal (by simp [RuntimeFault.cause]) paren)

end

/-! ## Expressions -/

mutual

theorem evalWith_ends (hU : U.Lawful) {inv : Invoke} (hinv : U.InvokeOk depth inv) :
    ∀ (e : Expr) {s : State}, U.Ready depth s → U.expr s.store scope e →
      U.Ends nowhere U.ValueOk s (evalWith U.setting inv scope e s)
  | .missing, s, hs, _ => by
      rw [evalWith]
      exact ends_throw hs (hU.defect _)
  | .assign token value, s, hs, h => by
      rw [evalWith]
      refine (evalWith_ends hU hinv value hs (hU.part h _ (by simp [Expr.parts]))).bind
        fun v t ht hv => ?_
      have hassign := hU.exprLater ht.later h
      refine (ends_assign hU (ht.ready hs) hassign hv).bind fun _ r hr _ => ?_
      exact ends_pure (hr.ready (ht.ready hs)) (hU.valueLater hr.later hv)
  | .binary left op right, s, hs, h => by
      rw [evalWith]
      refine (evalWith_ends hU hinv left hs (hU.part h _ (by simp [Expr.parts]))).bind
        fun v t ht hv => ?_
      have hright := hU.part (hU.exprLater ht.later h) right (by simp [Expr.parts])
      refine (evalWith_ends hU hinv right (ht.ready hs) hright).bind fun w r hr _ => ?_
      exact ends_operation hU (applyBinary_operation op v w) (hr.ready (ht.ready hs))
  | .call callee paren args, s, hs, h => by
      rw [evalWith]
      refine (evalWith_ends hU hinv callee hs (hU.part h _ (by simp [Expr.parts]))).bind
        fun f t ht hf => ?_
      have hready := ht.ready hs
      cases htarget : callable? U.setting f with
      | none => exact ends_throw hready (hU.refusal (by simp [RuntimeFault.cause]) paren)
      | some target =>
          have hparts : ∀ e ∈ args, U.expr t.store scope e := fun e he =>
            hU.part (hU.exprLater ht.later h) e (List.mem_cons_of_mem _ he)
          refine (evalAllWith_ends hU hinv args hready hparts).bind fun values r hr hvalues => ?_
          exact ends_callWith hU hinv (hr.ready hready) htarget (hU.valueLater hr.later hf) hvalues
  | .group inner, s, hs, h => by
      rw [evalWith]
      exact evalWith_ends hU hinv inner hs (hU.part h _ (by simp [Expr.parts]))
  | .literal value, s, hs, _ => by
      rw [evalWith]
      exact ends_pure hs (valueOk_of_ne (by cases value <;> simp [Literal.toValue]))
  | .logical left op right, s, hs, h => by
      rw [evalWith]
      refine (evalWith_ends hU hinv left hs (hU.part h _ (by simp [Expr.parts]))).bind
        fun v t ht hv => ?_
      have hready := ht.ready hs
      have hright := hU.part (hU.exprLater ht.later h) right (by simp [Expr.parts])
      have hends := evalWith_ends hU hinv right hready hright
      cases op.kind with
      | kwOr => exact ends_ifTruthy (ends_pure hready hv) hends
      | kwAnd => exact ends_ifTruthy hends (ends_pure hready hv)
      | _ => exact ends_throw hready (hU.defect _)
  | .unary op right, s, hs, h => by
      rw [evalWith]
      refine (evalWith_ends hU hinv right hs (hU.part h _ (by simp [Expr.parts]))).bind
        fun v t ht _ => ?_
      exact ends_operation hU (applyUnary_operation op v) (ht.ready hs)
  | .name token, s, hs, h => by
      rw [evalWith]
      exact ends_get hU hs h

theorem evalAllWith_ends (hU : U.Lawful) {inv : Invoke} (hinv : U.InvokeOk depth inv) :
    ∀ (es : List Expr) {s : State}, U.Ready depth s → (∀ e ∈ es, U.expr s.store scope e) →
      U.Ends nowhere (fun store values => ∀ value ∈ values, U.ValueOk store value) s
        (evalAllWith U.setting inv scope es s)
  | [], s, hs, _ => by
      rw [evalAllWith]
      exact ends_pure hs (by simp)
  | e :: more, s, hs, h => by
      rw [evalAllWith]
      refine (evalWith_ends hU hinv e hs (h e List.mem_cons_self)).bind fun v t ht hv => ?_
      have hmore : ∀ e' ∈ more, U.expr t.store scope e' := fun e' he' =>
        hU.exprLater ht.later (h e' (List.mem_cons_of_mem _ he'))
      refine (evalAllWith_ends hU hinv more (ht.ready hs) hmore).bind fun vs r hr hvs => ?_
      refine ends_pure (hr.ready (ht.ready hs)) fun value hvalue => ?_
      rcases List.mem_cons.mp hvalue with rfl | hvalue
      · exact hU.valueLater hr.later hv
      · exact hvs value hvalue

end

theorem evalOptional_ends (hU : U.Lawful) {inv : Invoke} (hinv : U.InvokeOk depth inv)
    (e : Option Expr) {s : State} (hs : U.Ready depth s)
    (h : ∀ e' ∈ e.toList, U.expr s.store scope e') :
    U.Ends nowhere U.ValueOk s (evalOptional U.setting inv scope e s) := by
  cases e with
  | none => exact ends_pure hs (valueOk_of_ne (by simp))
  | some e => exact evalWith_ends hU hinv e hs (h e (by simp))

/-! ## Statements -/

theorem repeatWhile_ends {test : Eval Value} {body : Eval Flow} {turns : Nat}
    (hstop : U.stop .exhausted) (hs : U.Ready depth s)
    (htest : ∀ t, s.store.Later t.store → U.Ready depth t → U.Ends nowhere U.ValueOk t (test t))
    (hbody : ∀ t, s.store.Later t.store → U.Ready depth t → U.Ends may U.FlowOk t (body t)) :
    U.Ends may U.FlowOk s (repeatWhile test body turns s) := by
  induction turns generalizing s with
  | zero => exact ends_throw hs hstop
  | succ turns ih =>
      rw [repeatWhile]
      refine (htest s (.refl _ _) hs).anywhere.bind fun v t ht _ => ?_
      have hready := ht.ready hs
      refine ends_ifTruthy ?_ (ends_pure hready trivial)
      refine (hbody t ht.later hready).bind fun flow r hr hflow => ?_
      cases flow with
      | normal =>
          -- The next turn starts from a later store, where test and body still do as they should.
          have hlater : s.store.Later r.store := ht.later.trans hr.later
          exact ih (hr.ready hready) (fun t' ht' => htest t' (hlater.trans ht'))
            fun t' ht' => hbody t' (hlater.trans ht')
      | returning value => exact ends_pure (hr.ready hready) hflow

/-- A statement that declares nothing itself is done when it has ended. -/
theorem Ends.done {result : EStateM.Result Stop State Flow} (h : U.Ends may U.FlowOk s result) :
    U.Ends may (U.Done scope []) s result :=
  h.mono (fun _ _ => id) fun _ _ hflow => ⟨hflow, by simp⟩

theorem Ends.flow {result : EStateM.Result Stop State Flow} {names : List String}
    (h : U.Ends may (U.Done scope names) s result) : U.Ends may U.FlowOk s result :=
  h.mono (fun _ _ => id) fun _ _ hdone => hdone.1

theorem declareFunction_ends (hU : U.Lawful) {inv : Invoke} {turns : Nat} {name : Token}
    {params : List Token} {body : List Stmt} (hs : U.Ready depth s)
    (h : U.stmt s.store scope (.function name params body)) :
    U.Ends (within scope [name.lexeme]) (U.Done scope [name.lexeme]) s
      (execWith U.setting inv turns scope (.function name params body) s) := by
  rw [execWith, bind_run]
  let counted : State := { s with store := { s.store with closures := s.store.closures + 1 } }
  -- Counting the functions changes no scope.
  have hcounted : U.Leaves (within scope [name.lexeme]) s counted :=
    ⟨rfl, .refl _ s.store, fun n here other value hhere hvalue =>
      hU.valueLater (.refl _ s.store) (hs.store n here other value hhere hvalue)⟩
  have hfunction := hU.stmtLater hcounted.later h
  refine (ends_define hU (hcounted.ready hs) fun i f hvalue => ?_).after hcounted
  cases hvalue
  exact hU.function hfunction

theorem ends_write {text : String} {echo : Bool} (hs : U.Ready depth s) :
    U.Ends may (fun _ _ => True) s (write text echo s) :=
  ⟨⟨rfl, .refl _ _, hs.store⟩, trivial⟩

theorem ends_echo {e : Expr} {value : Value} (hs : U.Ready depth s) :
    U.Ends may (fun _ _ => True) s (Eval.echo U.setting e value s) := by
  unfold Eval.echo
  by_cases hecho : (U.setting.echo && !e.isAssign) = true
  · rw [if_pos hecho]
    exact ends_write hs
  · rw [if_neg hecho]
    exact ends_pure hs trivial

/-- The state in which what stands in a scope of its own is executed. -/
def entered (s : State) (enclosing : Nat) : State :=
  { s with store := (s.store.newScope (some enclosing)).2 }

theorem entered_leaves (hU : U.Lawful) (hs : U.Ready depth s) (enclosing : Nat) :
    U.Leaves nowhere s (entered s enclosing) :=
  ⟨rfl, Store.newScope_grows _ _, storeOk_newScope hU hs.store _⟩

/-- What is executed in a new scope adds no name to those that were there before. -/
theorem Ends.inNewScope {result : EStateM.Result Stop State α}
    (h : U.Ends (beyond s.store) good t result) (hst : U.Leaves nowhere s t) :
    U.Ends may good s result := by
  have hends : U.Ends (beyond s.store) good s result :=
    h.after (hst.mono fun _ _ hno => hno.elim)
  cases result with
  | ok a r => exact ⟨⟨hends.1.depth, hends.1.grows.fresh.anywhere, hends.1.store⟩, hends.2⟩
  | error e r => exact ⟨⟨hends.1.depth, hends.1.grows.fresh.anywhere, hends.1.store⟩, hends.2⟩

/-- The names of the new scope lie beyond those that were there before. -/
theorem within_beyond {store : Store} {names : List String} (n : Nat) (name : String)
    (h : within store.scopes.size names n name) : beyond store n name :=
  Nat.le_of_eq h.1.symm

mutual

theorem execWith_ends (hU : U.Lawful) {inv : Invoke} (hinv : U.InvokeOk depth inv) (turns : Nat) :
    ∀ (stmt : Stmt) {scope : Nat} {s : State}, U.Ready depth s → U.stmt s.store scope stmt →
      U.Ends (within scope stmt.gains) (U.Done scope stmt.declared) s
        (execWith U.setting inv turns scope stmt s)
  | .missing, _, s, hs, _ => by
      rw [execWith]
      exact ends_throw hs (hU.defect _)
  | .block body, scope, s, hs, h => by
      rw [execWith, bind_run]
      have hentered := entered_leaves hU hs scope
      have hbody := execAllWith_ends hU hinv turns body (hentered.ready hs) (hU.block h)
      exact ((hbody.mono within_beyond fun _ _ => id).inNewScope hentered).done
  | .expression value, scope, s, hs, h => by
      rw [execWith]
      have hvalue := evalWith_ends hU hinv value hs (hU.exprIn h _ (by simp [Stmt.exprs]))
      refine hvalue.anywhere.bind fun v t ht _ => ?_
      have hready := ht.ready hs
      refine (ends_echo hready).bind fun _ r hr _ => ?_
      exact ends_pure (hr.ready hready) ⟨trivial, by simp [Stmt.declared]⟩
  | .function name params body, scope, s, hs, h => declareFunction_ends hU hs h
  | .branch condition thenDo none, scope, s, hs, h => by
      rw [execWith]
      have htest := evalWith_ends hU hinv condition hs (hU.exprIn h _ (by simp [Stmt.exprs]))
      refine htest.anywhere.bind fun v t ht _ => ?_
      have hready := ht.ready hs
      have hthen := hU.branch (hU.stmtLater ht.later h) thenDo (by simp [Stmt.branches])
      have hthenEnds := execWith_ends hU hinv turns thenDo hready hthen
      have hnormal : U.FlowOk t.store .normal := trivial
      exact (ends_ifTruthy hthenEnds.flow (ends_pure hready hnormal)).done
  | .branch condition thenDo (some elseDo), scope, s, hs, h => by
      rw [execWith]
      have htest := evalWith_ends hU hinv condition hs (hU.exprIn h _ (by simp [Stmt.exprs]))
      refine htest.anywhere.bind fun v t ht _ => ?_
      have hready := ht.ready hs
      have hthen := hU.branch (hU.stmtLater ht.later h) thenDo (by simp [Stmt.branches])
      have helse := hU.branch (hU.stmtLater ht.later h) elseDo (by simp [Stmt.branches])
      have hthenEnds := execWith_ends hU hinv turns thenDo hready hthen
      have helseEnds := execWith_ends hU hinv turns elseDo hready helse
      refine (ends_ifTruthy (hthenEnds.flow.mono ?_ fun _ _ => id)
        (helseEnds.flow.mono ?_ fun _ _ => id)).done
      · exact fun n name hn => ⟨hn.1, by simp [Stmt.gains, hn.2]⟩
      · exact fun n name hn => ⟨hn.1, by simp [Stmt.gains, hn.2]⟩
  | .print value, scope, s, hs, h => by
      rw [execWith]
      have hvalue := evalWith_ends hU hinv value hs (hU.exprIn h _ (by simp [Stmt.exprs]))
      refine hvalue.anywhere.bind fun v t ht _ => ?_
      have hready := ht.ready hs
      refine (ends_write hready).bind fun _ r hr _ => ?_
      exact ends_pure (hr.ready hready) ⟨trivial, by simp [Stmt.declared]⟩
  | .ret _ value, scope, s, hs, h => by
      rw [execWith]
      have hvalue := evalOptional_ends hU hinv value hs fun e he => hU.exprIn h e he
      refine hvalue.anywhere.bind fun v t ht hv => ?_
      exact ends_pure (ht.ready hs) ⟨hv, by simp⟩
  | .declare name initial, scope, s, hs, h => by
      rw [execWith]
      have hvalue := evalOptional_ends hU hinv initial hs fun e he => hU.exprIn h e he
      refine hvalue.anywhere.bind fun v t ht hv => ?_
      have hlater := (Store.define_grows t.store scope name.lexeme v).later
      exact ends_define hU (ht.ready hs) (hU.valueLater hlater hv)
  | .loop condition body, scope, s, hs, h => by
      rw [execWith]
      refine (repeatWhile_ends (hU.loop h) hs (fun t ht hready => ?_) fun t ht hready => ?_).done
      · have htest := hU.exprIn (hU.stmtLater ht h) condition (by simp [Stmt.exprs])
        exact evalWith_ends hU hinv condition hready htest
      · have hbody := hU.branch (hU.stmtLater ht h) body (by simp [Stmt.branches])
        exact (execWith_ends hU hinv turns body hready hbody).flow

theorem execAllWith_ends (hU : U.Lawful) {inv : Invoke} (hinv : U.InvokeOk depth inv)
    (turns : Nat) :
    ∀ (stmts : List Stmt) {scope : Nat} {s : State}, U.Ready depth s → U.stmts s.store scope stmts →
      U.Ends (within scope (Stmt.allGains stmts)) U.FlowOk s
        (execAllWith U.setting inv turns scope stmts s)
  | [], _, s, hs, _ => by
      rw [execAllWith]
      exact ends_pure hs trivial
  | stmt :: more, scope, s, hs, h => by
      rw [execAllWith]
      have hfirst := execWith_ends hU hinv turns stmt hs (hU.first h)
      refine (hfirst.mono ?_ fun _ _ => id).bind fun flow t ht hdone => ?_
      · exact fun n name hn => ⟨hn.1, by simp [Stmt.allGains, hn.2]⟩
      cases flow with
      | normal =>
          have hrest := execAllWith_ends hU hinv turns more (ht.ready hs)
            (hU.rest h ht.later (hdone.2 rfl))
          refine hrest.mono (fun n name hn => ⟨hn.1, ?_⟩) fun _ _ => id
          have hmem : name ∈ Stmt.allGains more := hn.2
          simp only [Stmt.allGains, List.flatMap_cons, List.mem_append] at hmem ⊢
          exact Or.inr hmem
      | returning value => exact ends_pure (ht.ready hs) hdone.1

end

/-! ## The knot -/

/-- Either the bound leaves enough for all calls that can still become active, or reaching it is
allowed. -/
def Enough (U : Upkeep) (depth bound : Nat) : Prop :=
  U.setting.maxDepth ≤ depth + bound ∨ U.stop .exhausted

/-- The parameters are bound to the arguments. -/
theorem mem_bindings? {params : List Token} {args : List Value} {bindings : List (String × Value)}
    (h : bindings? params args = some bindings) : ∀ binding ∈ bindings, binding.2 ∈ args := by
  induction params generalizing args bindings with
  | nil =>
      rw [bindings?] at h
      cases h
      simp
  | cons param params ih =>
      cases args with
      | nil => simp [bindings?] at h
      | cons arg args =>
          rw [bindings?] at h
          obtain ⟨more, hmore, rfl⟩ := Option.map_eq_some_iff.mp h
          intro binding hbinding
          rcases List.mem_cons.mp hbinding with rfl | hbinding
          · exact List.mem_cons_self
          · exact List.mem_cons_of_mem _ (ih hmore binding hbinding)

theorem ends_bindAll (hU : U.Lawful) {f : Closure} {args : List Value} (hs : U.Ready depth s)
    (hf : U.closure s.store f) (hargs : ∀ arg ∈ args, U.ValueOk s.store arg) :
    U.Ends (beyond s.store) (fun store _ => U.stmts store s.store.scopes.size f.body)
      (entered s f.scope)
      (bindAll s.store.scopes.size f.params args (entered s f.scope)) := by
  have hentered := entered_leaves hU hs f.scope
  have hready := hentered.ready hs
  unfold bindAll
  cases hbindings : bindings? f.params args with
  | none => exact ends_throw hready (hU.defect _)
  | some bindings =>
      have hvalues : ∀ binding ∈ bindings, U.ValueOk (entered s f.scope).store binding.2 :=
        fun binding hbinding =>
          hU.valueLater hentered.later (hargs _ (mem_bindings? hbindings binding hbinding))
      have hgrows := Store.defineAll_grows (entered s f.scope).store s.store.scopes.size bindings
      exact ⟨⟨rfl, hgrows.mono within_beyond, storeOk_defineAll hU hready.store hvalues⟩,
        hU.enter hf hbindings⟩

theorem invoke_ends (hU : U.Lawful) {bound : Nat} (hbound : U.Enough depth bound) :
    U.InvokeOk depth (invoke U.setting bound) := by
  induction bound generalizing depth with
  | zero =>
      intro s f args hdepth hs _ _
      rcases hbound with hbound | hstop
      · -- A call became active although as many were active as may be.
        omega
      · exact ends_throw hs hstop
  | succ bound ih =>
      intro s f args hdepth hs hf hargs
      have hinv : U.InvokeOk (depth + 1) (invoke U.setting bound) := by
        refine ih (hbound.imp_left fun hle => ?_)
        omega
      rw [invoke, bind_run]
      have hentered := entered_leaves hU hs f.scope
      have hready := hentered.ready hs
      refine Ends.inNewScope ?_ hentered
      refine (ends_bindAll hU hs hf hargs).bind fun _ t ht hbody => ?_
      have hbodyEnds := execAllWith_ends hU hinv bound f.body (ht.ready hready) hbody
      refine (hbodyEnds.mono within_beyond fun _ _ => id).bind fun flow r hr hflow => ?_
      cases flow with
      | normal => exact ends_pure (hr.ready (ht.ready hready)) (valueOk_of_ne (by simp))
      | returning value => exact ends_pure (hr.ready (ht.ready hready)) hflow

/-! ## Whole runs -/

variable {bound : Nat}

theorem execAll_ends (hU : U.Lawful) (hbound : U.Enough depth bound) {stmts : List Stmt}
    (hs : U.Ready depth s) (h : U.stmts s.store scope stmts) :
    U.Ends (within scope (Stmt.allGains stmts)) U.FlowOk s
      (execAll U.setting bound scope stmts s) :=
  execAllWith_ends hU (invoke_ends hU hbound) bound stmts hs h

end Upkeep

end LoxLang
