import LoxLang.Proofs.Eval.Moments
import LoxLang.Proofs.Store.Forest

set_option autoImplicit false

/-! # Evaluation in a forest

Not all functions that evaluation knows of are in the store. Some are in its hands: what is called, the
arguments of a call, a value that is returned. They name scopes too, and so does a tree together with
the scope in which it is evaluated. `Task.Lives` says of what a task starts from, and `Task.Yields` of
what it results in, that all of these scopes have been made.

A task that starts so in a forest leaves a forest with every scope where it was, and yields what lives
there (`Task.keeps`). So does every moment in the course of it begin (`Moment.During.lives`). One task
is dealt with along its plan, which is sound if each of its steps leaves what the rest of it starts
from (`Plan.Sound`); it takes no look at the trees, which may have defects. -/

namespace LoxLang

open Eval

/-- Something to call, declared in a scope that there is, or a native function that makes no function
values. -/
def Eval.Callable.Lives (store : Store) : Callable → Prop
  | .closure function => function.scope < store.scopes.size
  | .native function => function.Passive

/-- A flow whose value, if it returns one, lives. -/
def Flow.Lives (store : Store) : Flow → Prop
  | .normal => True
  | .returning value => value.Lives store

namespace Task

/-- What the task starts from lives. -/
def Lives (store : Store) : {α : Type} → Task α → Prop
  | _, .expr scope _ => scope < store.scopes.size
  | _, .exprs scope _ => scope < store.scopes.size
  | _, .stmt scope _ => scope < store.scopes.size
  | _, .stmts scope _ => scope < store.scopes.size
  | _, .turns scope _ _ _ => scope < store.scopes.size
  | _, .call _ callee args => callee.Lives store ∧ ∀ arg ∈ args, arg.Lives store
  | _, .active callee args => callee.Lives store ∧ ∀ arg ∈ args, arg.Lives store

/-- What the task results in lives. -/
def Yields (store : Store) : {α : Type} → Task α → α → Prop
  | _, .expr _ _, value => value.Lives store
  | _, .exprs _ _, values => ∀ value ∈ values, value.Lives store
  | _, .stmt _ _, flow => flow.Lives store
  | _, .stmts _ _, flow => flow.Lives store
  | _, .turns _ _ _ _, flow => flow.Lives store
  | _, .call _ _ _, value => value.Lives store
  | _, .active _ _, value => value.Lives store

end Task

/-- A state with a forest for its store, in which every scope is where it was. -/
structure State.Leads (s t : State) : Prop where
  forest : t.store.Forest
  later : s.store.Later t.store

/-- How a computation from a state ends. -/
def Eval.Keeps {α : Type} (good : State → α → Prop) (s : State) :
    EStateM.Result Stop State α → Prop
  | .ok a t => s.Leads t ∧ good t a
  | .error _ t => s.Leads t

/-- A plan that, carried out from a state, comes only to tasks that start from what lives, provided
that these yield what does, and in the end to what is good. -/
def Plan.Sound {α : Type} (good : Store → α → Prop) : Plan α → State → Prop
  | .done x, s => Keeps (fun t a => good t.store a) s (x s)
  | .op x more, s => Keeps (fun t b => (more b).Sound good t) s (x s)
  | .sub _ part more, s =>
    part.Lives s.store ∧
      ∀ b t, s.Leads t → part.Yields t.store b → (more b).Sound good t

section
variable {s t r : State}

theorem State.leads_refl (h : s.store.Forest) : s.Leads s :=
  ⟨h, .refl _ _⟩

theorem State.Leads.trans (hst : s.Leads t) (htr : t.Leads r) : s.Leads r :=
  ⟨htr.forest, hst.later.trans htr.later⟩

/-- Names are looked up in it along the same ways as before, and to an end. -/
theorem State.Leads.stands (h : s.Leads t) :
    t.store.Forest ∧ t.store.Walkable ∧ s.store.KeepsLinks t.store :=
  ⟨h.forest, h.forest.walkable, Store.Later.keepsLinks h.later⟩

/-- A scope that has been made stays. -/
theorem State.Leads.scope {scope : Nat} (h : s.Leads t) (hscope : scope < s.store.scopes.size) :
    scope < t.store.scopes.size :=
  Nat.lt_of_lt_of_le hscope (Store.Grows.size_le h.later)

theorem State.Leads.values {values : List Value} (h : s.Leads t)
    (hvalues : ∀ value ∈ values, value.Lives s.store) : ∀ value ∈ values, value.Lives t.store :=
  fun value hvalue => (hvalues value hvalue).later h.later

theorem Eval.Callable.Lives.later {callee : Callable} (hcallee : callee.Lives s.store)
    (h : s.Leads t) : callee.Lives t.store := by
  cases callee with
  | closure function => exact h.scope hcallee
  | native function => exact hcallee

end

/-! ## Single steps -/

namespace Eval

section
variable {α : Type} {good : State → α → Prop} {s : State} (hs : s.store.Forest)

include hs

theorem keeps_pure {a : α} (h : good s a) : Keeps good s ((pure a : Eval α) s) :=
  ⟨State.leads_refl hs, h⟩

theorem keeps_throw (stop : Stop) : Keeps good s ((throw stop : Eval α) s) :=
  State.leads_refl hs

end

variable {s : State} (hs : s.store.Forest) {scope : Nat}

include hs

theorem keeps_operation {good : State → Value → Prop} {op : Token} {x : Eval Value}
    (h : Operation op x) (hgood : ∀ value : Value, value.Lives s.store → good s value) :
    Keeps good s (x s) := by
  rcases h with ⟨value, rfl, hvalue⟩ | ⟨fault, rfl, -⟩ | rfl
  · exact keeps_pure hs (hgood value (Value.lives_of_ne hvalue))
  · exact keeps_throw hs _
  · exact keeps_throw hs _

theorem keeps_get {good : State → Value → Prop} (name : Token)
    (hgood : ∀ value : Value, value.Lives s.store → good s value) :
    Keeps good s (get scope name s) := by
  unfold get
  cases hget : s.store.get? scope name.lexeme with
  | some value => exact keeps_pure hs (hgood value (hs.lives (Store.holds_of_get? hget)))
  | none => exact keeps_throw hs _

theorem keeps_define {good : State → Unit → Prop} (name : String) {value : Value}
    (hvalue : value.Lives s.store) (hgood : ∀ t, s.Leads t → good t ()) :
    Keeps good s (define scope name value s) := by
  have hleads : s.Leads { s with store := s.store.define scope name value } :=
    ⟨hs.define hvalue, (Store.define_grows _ _ _ _).later⟩
  exact ⟨hleads, hgood _ hleads⟩

theorem keeps_assign {good : State → Unit → Prop} (name : Token) {value : Value}
    (hvalue : value.Lives s.store) (hgood : ∀ t, s.Leads t → good t ()) :
    Keeps good s (assign scope name value s) := by
  unfold assign
  cases s.store.owner? name.lexeme scope with
  | some owner => exact keeps_define hs name.lexeme hvalue hgood
  | none => exact keeps_throw hs _

theorem keeps_newScope {good : State → Nat → Prop} (hscope : scope < s.store.scopes.size)
    (hgood : ∀ n t, s.Leads t → n < t.store.scopes.size → good t n) :
    Keeps good s (newScope scope s) := by
  have hinside : ∀ outer, some scope = some outer → outer < s.store.scopes.size := by
    rintro outer ⟨⟩
    exact hscope
  have hleads : s.Leads { s with store := (s.store.newScope (some scope)).2 } :=
    ⟨hs.newScope hinside, (Store.newScope_grows _ _).later⟩
  refine ⟨hleads, hgood _ _ hleads ?_⟩
  simp

theorem keeps_newClosure {good : State → Value → Prop} {function : Closure}
    (hscope : function.scope < s.store.scopes.size)
    (hgood : ∀ (value : Value) t, s.Leads t → value.Lives t.store → good t value) :
    Keeps good s (newClosure function s) := by
  have hleads : s.Leads
      { s with store := { s.store with closures := s.store.closures + 1 } } :=
    ⟨hs.newClosure, .refl _ s.store⟩
  refine ⟨hleads, hgood _ _ hleads ?_⟩
  rintro scope ⟨⟩
  exact hscope

theorem keeps_write {good : State → Unit → Prop} (text : String) (echo : Bool)
    (hgood : ∀ t, s.Leads t → good t ()) : Keeps good s (write text echo s) := by
  have hleads : s.Leads { s with output := s.output.push ⟨text, echo⟩ } := ⟨hs, .refl _ _⟩
  exact ⟨hleads, hgood _ hleads⟩

theorem keeps_echo {good : State → Unit → Prop} (setting : Setting) (e : Expr) (value : Value)
    (hgood : ∀ t, s.Leads t → good t ()) : Keeps good s (echo setting e value s) := by
  unfold echo
  by_cases hecho : (setting.echo && !e.isAssign) = true
  · rw [if_pos hecho]
    exact keeps_write hs _ _ hgood
  · rw [if_neg hecho]
    exact keeps_pure hs (hgood s (State.leads_refl hs))

theorem keeps_bindAll {good : State → Unit → Prop} (params : List Token) {args : List Value}
    (hargs : ∀ arg ∈ args, arg.Lives s.store) (hgood : ∀ t, s.Leads t → good t ()) :
    Keeps good s (bindAll scope params args s) := by
  unfold bindAll
  cases hbindings : bindings? params args with
  | some bindings =>
      have hvalues : ∀ binding ∈ bindings, binding.2.Lives s.store := fun binding hbinding =>
        hargs _ (Upkeep.mem_bindings? hbindings binding hbinding)
      have hleads : s.Leads { s with store := s.store.defineAll scope bindings } :=
        ⟨hs.defineAll hvalues, (Store.defineAll_grows _ _ _).later⟩
      exact ⟨hleads, hgood _ hleads⟩
  | none => exact keeps_throw hs _

/-- A native function hands out functions only that it was given. -/
theorem keeps_callNative {good : State → Value → Prop} {native : Native} {args : List Value}
    (hnative : native.Passive) (hargs : ∀ arg ∈ args, arg.Lives s.store)
    (hgood : ∀ t (value : Value), s.Leads t → value.Lives t.store → good t value) :
    Keeps good s (callNative native args s) := by
  let counted : State := { s with nativeCalls := s.nativeCalls + 1 }
  show Keeps good s (answer (native.run s.nativeCalls args) counted)
  have hleads : s.Leads counted := ⟨hs, .refl _ _⟩
  cases hreply : native.run s.nativeCalls args with
  | value value =>
      refine ⟨hleads, hgood counted value hleads ?_⟩
      cases value with
      | closure i f => exact hargs _ (hnative _ args i f hreply)
      | _ => exact Value.lives_of_ne (by simp)
  | failure message => exact hleads
  | breakdown => exact hleads
  | pending => exact hleads

end Eval

theorem callable?_lives {setting : Setting} {store : Store} {value : Value} {callee : Callable}
    (hnatives : ∀ native ∈ setting.natives, native.Passive)
    (h : callable? setting value = some callee) (hvalue : value.Lives store) :
    callee.Lives store := by
  cases value with
  | closure i f =>
      cases h
      exact hvalue f.scope rfl
  | native index =>
      obtain ⟨native, hnative, rfl⟩ := Option.map_eq_some_iff.mp h
      exact hnatives native (Array.mem_of_getElem? hnative)
  | _ => cases h

/-! ## The plan of a task -/

section
variable {α : Type} {good : Store → α → Prop} {s : State}

/-- One task and nothing else. -/
theorem Plan.only_sound {bound : Nat} {task : Task α} (htask : task.Lives s.store)
    (hgood : ∀ store a, task.Yields store a → good store a) : (Plan.only bound task).Sound good s :=
  ⟨htask, fun a t hst ha => keeps_pure hst.forest (hgood t.store a ha)⟩

theorem Plan.optional_sound {bound scope : Nat} {e : Option Expr} {more : Value → Plan α}
    (hs : s.store.Forest) (hscope : scope < s.store.scopes.size)
    (hmore : ∀ (value : Value) t, s.Leads t → value.Lives t.store → (more value).Sound good t) :
    (Plan.optional bound scope e more).Sound good s := by
  cases e with
  | none => exact hmore .nil s (State.leads_refl hs) (Value.lives_of_ne (by simp))
  | some e => exact ⟨hscope, hmore⟩

theorem Plan.sound_ite {p : Prop} [Decidable p] {x y : Plan α} (hx : x.Sound good s)
    (hy : y.Sound good s) : (if p then x else y).Sound good s := by
  by_cases h : p
  · rw [if_pos h]
    exact hx
  · rw [if_neg h]
    exact hy

end

namespace Task

variable {setting : Setting} (hnatives : ∀ native ∈ setting.natives, native.Passive) {s : State}
  (hs : s.store.Forest) {scope : Nat} (hscope : scope < s.store.scopes.size) (bound : Nat)

open Plan

include hnatives hs hscope in
theorem expr_sound (e : Expr) :
    ((Task.expr scope e).plan setting bound).Sound
      (fun store value => value.Lives store) s := by
  cases e with
  | missing => exact keeps_throw hs _
  | assign name value =>
      refine ⟨hscope, fun v t hst hv => ?_⟩
      refine keeps_assign hst.forest name hv fun r htr => ?_
      exact keeps_pure htr.forest (hv.later htr.later)
  | binary left token right =>
      refine ⟨hscope, fun l t hst _ => ⟨hst.scope hscope, fun r u htu _ => ?_⟩⟩
      exact keeps_operation htu.forest (applyBinary_operation token l r) fun _ hvalue => hvalue
  | call callee paren args =>
      refine ⟨hscope, fun f t hst hf => ?_⟩
      dsimp only
      cases htarget : callable? setting f with
      | none => exact keeps_throw hst.forest _
      | some target =>
          have htarget' : target.Lives t.store := callable?_lives hnatives htarget hf
          refine ⟨hst.scope hscope, fun values u htu hvalues => ?_⟩
          exact only_sound ⟨htarget'.later htu, hvalues⟩ fun _ _ hvalue => hvalue
  | group inner => exact only_sound hscope fun _ _ hvalue => hvalue
  | literal value =>
      exact keeps_pure hs (Value.lives_of_ne (by cases value <;> simp [Literal.toValue]))
  | logical left token right =>
      refine ⟨hscope, fun l t hst hl => ?_⟩
      have hleft : (done (pure l) : Plan Value).Sound (fun store value => value.Lives store) t :=
        keeps_pure hst.forest hl
      have hright : (only bound (.expr scope right)).Sound
          (fun store value => value.Lives store) t :=
        only_sound (hst.scope hscope) fun _ _ hvalue => hvalue
      dsimp only
      cases token.kind with
      | kwOr => exact sound_ite hleft hright
      | kwAnd => exact sound_ite hright hleft
      | _ => exact keeps_throw hst.forest _
  | unary token right =>
      refine ⟨hscope, fun r t hst _ => ?_⟩
      exact keeps_operation hst.forest (applyUnary_operation token r) fun _ hvalue => hvalue
  | name name => exact keeps_get hs name fun _ hvalue => hvalue

include hs hscope in
theorem stmt_sound (stmt : Stmt) :
    ((Task.stmt scope stmt).plan setting bound).Sound (fun store flow => flow.Lives store) s := by
  cases stmt with
  | missing => exact keeps_throw hs _
  | block body =>
      refine keeps_newScope hs hscope fun inner t hst hinner => ?_
      exact only_sound hinner fun _ _ hflow => hflow
  | expression value =>
      refine ⟨hscope, fun v t hst _ => ?_⟩
      refine keeps_echo hst.forest setting value v fun r htr => ?_
      exact keeps_pure htr.forest trivial
  | function name params body =>
      refine keeps_newClosure hs hscope fun f t hst hf => ?_
      refine keeps_define hst.forest name.lexeme hf fun r htr => ?_
      exact keeps_pure htr.forest trivial
  | branch condition thenDo elseDo =>
      refine ⟨hscope, fun test t hst _ => sound_ite ?_ ?_⟩
      · exact only_sound (hst.scope hscope) fun _ _ hflow => hflow
      · cases elseDo with
        | none => exact keeps_pure hst.forest trivial
        | some elseDo => exact only_sound (hst.scope hscope) fun _ _ hflow => hflow
  | print value =>
      refine ⟨hscope, fun v t hst _ => ?_⟩
      refine keeps_write hst.forest v.text false fun r htr => ?_
      exact keeps_pure htr.forest trivial
  | ret keyword value =>
      rw [plan]
      refine optional_sound hs hscope fun v t hst hv => ?_
      exact keeps_pure hst.forest hv
  | declare name initial =>
      rw [plan]
      refine optional_sound hs hscope fun v t hst hv => ?_
      refine keeps_define hst.forest name.lexeme hv fun r htr => ?_
      exact keeps_pure htr.forest trivial
  | loop condition body => exact only_sound hscope fun _ _ hflow => hflow

include hnatives hs in
/-- The plan of a task that starts from what lives is sound. -/
theorem plan_sound {α : Type} {task : Task α} (hcall : task.isCall = false)
    (htask : task.Lives s.store) :
    (task.plan setting bound).Sound (fun store a => task.Yields store a) s := by
  cases task with
  | expr scope e => exact expr_sound hnatives hs htask bound e
  | exprs scope es =>
      cases es with
      | nil => exact keeps_pure hs fun _ hmem => absurd hmem List.not_mem_nil
      | cons e more =>
          refine ⟨htask, fun v t hst hv => ⟨hst.scope htask, fun vs r htr hvs => ?_⟩⟩
          exact keeps_pure htr.forest (List.forall_mem_cons.2 ⟨hv.later htr.later, hvs⟩)
  | stmt scope stmt => exact stmt_sound hs htask bound stmt
  | stmts scope ss =>
      cases ss with
      | nil => exact keeps_pure hs trivial
      | cons stmt more =>
          refine ⟨htask, fun flow t hst hflow => ?_⟩
          cases flow with
          | normal => exact only_sound (hst.scope htask) fun _ _ hflow => hflow
          | returning value => exact keeps_pure hst.forest hflow
  | turns scope condition body n =>
      cases n with
      | zero => exact keeps_throw hs _
      | succ n =>
          refine ⟨htask, fun test t hst _ => sound_ite ?_ (keeps_pure hst.forest trivial)⟩
          refine ⟨hst.scope htask, fun flow r htr hflow => ?_⟩
          cases flow with
          | normal => exact only_sound ((hst.trans htr).scope htask) fun _ _ hflow => hflow
          | returning value => exact keeps_pure htr.forest hflow
  | call paren callee args => cases hcall
  | active callee args =>
      have hargs : ∀ arg ∈ args, arg.Lives s.store := htask.2
      cases callee with
      | native function => exact keeps_callNative hs htask.1 hargs fun _ _ _ hvalue => hvalue
      | closure function =>
          cases bound with
          | zero => exact keeps_throw hs _
          | succ bound =>
              refine keeps_newScope hs htask.1 fun inner t hst hinner => ?_
              refine keeps_bindAll hst.forest function.params (hst.values hargs) fun r htr => ?_
              refine ⟨htr.scope hinner, fun flow u hru hflow => ?_⟩
              cases flow with
              | normal => exact keeps_pure hru.forest (Value.lives_of_ne (by simp))
              | returning value => exact keeps_pure hru.forest hflow

end Task

/-! ## Whole tasks -/

section
variable {α β : Type} {s : State}

/-- Whichever way it ends, it leaves a forest. -/
theorem Eval.Keeps.final {good : State → α → Prop} {result : EStateM.Result Stop State α}
    (h : Keeps good s result) : s.Leads (Eval.final result) := by
  cases result with
  | ok a t => exact h.1
  | error stop t => exact h

theorem Eval.Keeps.bind {good : State → α → Prop} {good' : State → β → Prop} {x : Eval α}
    {f : α → Eval β} (hx : Keeps good s (x s))
    (hf : ∀ a t, s.Leads t → good t a → Keeps good' t (f a t)) : Keeps good' s ((x >>= f) s) := by
  rw [bind_run]
  cases hrun : x s with
  | error stop t =>
      rw [hrun] at hx
      exact hx
  | ok a t =>
      rw [hrun] at hx
      have hst : s.Leads t := hx.1
      have hrest : Keeps good' t (f a t) := hf a t hst hx.2
      dsimp only
      cases hmore : f a t with
      | ok b r =>
          rw [hmore] at hrest
          exact ⟨hst.trans hrest.1, hrest.2⟩
      | error stop r =>
          rw [hmore] at hrest
          exact hst.trans hrest

/-- The number of active calls has nothing to do with the store. -/
theorem Eval.Keeps.active (good : Store → α → Prop) {x : Eval α} (setting : Setting)
    (paren : Token) (hs : s.store.Forest)
    (hx : Keeps (fun t a => good t.store a) { s with depth := s.depth + 1 }
      (x { s with depth := s.depth + 1 })) :
    Keeps (fun t a => good t.store a) s (active setting paren x s) := by
  unfold Eval.active
  by_cases hlimit : setting.maxDepth ≤ s.depth
  · rw [if_pos hlimit]
    exact keeps_throw hs _
  · rw [if_neg hlimit]
    cases hrun : x { s with depth := s.depth + 1 } with
    | ok a t =>
        rw [hrun] at hx
        exact ⟨⟨hx.1.forest, hx.1.later⟩, hx.2⟩
    | error stop t =>
        rw [hrun] at hx
        exact ⟨hx.forest, hx.later⟩

/-- A sound plan ends as its tasks do. -/
theorem Plan.Sound.keeps {setting : Setting} {good : Store → α → Prop} {p : Plan α} {bound : Nat}
    {task : Task β} (hp : p.Sound good s) (hs : s.store.Forest) (hfits : p.Fits bound task)
    (hsub : ∀ {γ : Type} (n : Nat) (part : Task γ), part.Below n bound task →
      ∀ t : State, t.store.Forest → part.Lives t.store →
        Keeps (fun r b => part.Yields r.store b) t (part.run setting n t)) :
    Keeps (fun t a => good t.store a) s (p.run setting s) := by
  induction p generalizing s with
  | done x => exact hp
  | op x more ih =>
      exact Keeps.bind hp fun b t hst hb => ih b hb hst.forest (hfits.2 b)
  | sub n part more ih =>
      have hpart : Keeps (fun r b => part.Yields r.store b) s (part.run setting n s) :=
        hsub n part hfits.1 s hs hp.1
      exact hpart.bind fun b t hst hb => ih b (hp.2 b t hst hb) hst.forest (hfits.2 b)

end

section
variable {setting : Setting} (hnatives : ∀ native ∈ setting.natives, native.Passive)

include hnatives

/-- A task that starts from what lives in a forest leaves a forest, and yields what lives there. -/
theorem Task.keeps {α : Type} (bound : Nat) (task : Task α) (s : State) (hs : s.store.Forest)
    (htask : task.Lives s.store) :
    Keeps (fun t a => task.Yields t.store a) s (task.run setting bound s) := by
  refine Task.below_induction (P := fun n part => ∀ s : State, s.store.Forest →
    part.Lives s.store → Keeps (fun t a => part.Yields t.store a) s (part.run setting n s))
    ?_ bound task s hs htask
  intro α bound task ih s hs htask
  cases hcall : task.isCall with
  | false =>
      rw [← task.run_plan]
      exact (task.plan_sound hnatives hs bound hcall htask).keeps hs
        (task.plan_fits setting bound hcall) ih
  | true =>
      cases task with
      | call paren callee args =>
          rw [Task.run_call]
          by_cases harity : (args.length : Int) = callee.arity
          · rw [if_pos harity]
            refine Keeps.active (fun store value => Value.Lives store value) setting paren hs ?_
            exact ih bound (.active callee args) (Task.active_below bound paren callee args)
              { s with depth := s.depth + 1 } hs htask
          · rw [if_neg harity]
            exact keeps_throw hs _
      | _ => cases hcall

/-! ## Moments -/

/-- The tasks that a sound plan comes to start from what lives. -/
theorem Plan.Enters.lives {α : Type} {good : Store → α → Prop} {p : Plan α} {s : State}
    {m : Moment} (h : p.Enters setting s m) (hs : s.store.Forest) (hp : p.Sound good s) :
    s.Leads m.state ∧ m.task.Lives m.state.store := by
  induction h with
  | here => exact ⟨State.leads_refl hs, hp.1⟩
  | @afterOp β x more s t b m hx _ ih =>
      have hstep : Keeps (fun t b => (more b).Sound good t) s (x s) := hp
      rw [hx] at hstep
      obtain ⟨hleads, hm⟩ := ih hstep.1.forest hstep.2
      exact ⟨hstep.1.trans hleads, hm⟩
  | @afterSub β n part more s t b m hrun _ ih =>
      have hpart : Keeps (fun r b => part.Yields r.store b) s (part.run setting n s) :=
        part.keeps hnatives n s hs hp.1
      rw [hrun] at hpart
      obtain ⟨hleads, hm⟩ := ih hpart.1.forest (hp.2 b t hpart.1 hpart.2)
      exact ⟨hpart.1.trans hleads, hm⟩

namespace Moment

variable {m m' : Moment} {calls : Nat}

theorem Enters.lives (h : Enters setting m calls m') (hs : m.state.store.Forest)
    (hm : m.task.Lives m.state.store) :
    m.state.Leads m'.state ∧ m'.task.Lives m'.state.store := by
  cases h with
  | @part α bound task s m hm' =>
      cases hcall : task.isCall with
      | false => exact hm'.lives hnatives hs (task.plan_sound hnatives hs bound hcall hm)
      | true =>
          -- the attempt of a call has no parts
          cases task with
          | call paren callee args => cases hm'
          | _ => cases hcall
  | call => exact ⟨⟨hs, .refl _ _⟩, hm⟩

/-- Everything that begins in the course of a moment begins in a forest that came about from the one
at its beginning, with what lives there. -/
theorem During.lives (h : During setting m calls m') (hs : m.state.store.Forest)
    (hm : m.task.Lives m.state.store) :
    m.state.Leads m'.state ∧ m'.task.Lives m'.state.store := by
  induction h with
  | now m => exact ⟨State.leads_refl hs, hm⟩
  | inside henters _ ih =>
      obtain ⟨hleads, hlives⟩ := henters.lives hnatives hs hm
      obtain ⟨hleads', hlives'⟩ := ih hleads.forest hlives
      exact ⟨hleads.trans hleads', hlives'⟩

end Moment

end

end LoxLang
