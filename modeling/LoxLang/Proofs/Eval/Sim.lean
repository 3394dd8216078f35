import LoxLang.Eval
import LoxLang.Proofs.Eval.Pairing

set_option autoImplicit false

/-! # Two runs side by side

A `Sim` adds to a pairing of states the settings of the two runs and which ways of stopping
correspond. The left run may also stop in a way after which nothing is said about the right one, an
`escape`, for instance because it was given a lower limit.

If the settings fit (`Sim.Lawful`), then trees that are alike, evaluated in a scope of the region from
states that correspond, end alike, in states that correspond (`evalWith_runs`, `execWith_runs`,
`invoke_runs`). This is the one induction along evaluation; what a fact about evaluation adds to it is
the choice of the pairing. -/

namespace LoxLang

/-- What native functions answer when the values do as `C` says, and breaking down is allowed or
not. -/
inductive NativeReply.Rel (C : Closure → Closure → Prop) (mayBreak : Prop) :
    NativeReply → NativeReply → Prop
  | value {v w : Value} : Value.Rel C v w → NativeReply.Rel C mayBreak (.value v) (.value w)
  | failure (message : String) : NativeReply.Rel C mayBreak (.failure message) (.failure message)
  | breakdown : mayBreak → NativeReply.Rel C mayBreak .breakdown .breakdown
  | pending : NativeReply.Rel C mayBreak .pending .pending

/-- A native function that sees no more of a function than its name and the number of its
parameters. -/
def Native.Oblivious (native : Native) : Prop :=
  ∀ (C : Closure → Closure → Prop),
    (∀ f g, C f g → g.name.lexeme = f.name.lexeme ∧ g.params.length = f.params.length) →
    ∀ earlier args args', List.Forall₂ (Value.Rel C) args args' →
      NativeReply.Rel C True (native.run earlier args) (native.run earlier args')

/-- What the token is in the tree at which a fault is found. -/
def RuntimeFault.role : RuntimeFault → Role
  | .undefinedVariable _ => .name
  | .operandNotNumber => .unary
  | .operandsNotNumbers | .operandsNotAddable => .binary
  | .notCallable | .wrongArity .. | .stackOverflow => .paren

/-- Two runs side by side. -/
structure Sim extends Pairing where
  left : Setting
  right : Setting
  stop : Stop → Stop → Prop
  escape : Stop → Prop

namespace Sim

/-- Native functions that answer alike. -/
structure NativeRel (S : Sim) (f g : Native) : Prop where
  arity : g.arity = f.arity
  run : ∀ {n m : Nat} {args args' : List Value}, S.moment n m → List.Forall₂ S.ValueRel args args' →
    NativeReply.Rel S.ClosureRel (S.stop .breakdown .breakdown) (f.run n args) (g.run m args')

/-- What a simulation asks of its tokens, its ways of stopping and its settings. -/
structure Lawful (S : Sim) : Prop where
  token : ∀ {ρ : Role} {t u : Token}, S.like.token ρ t u → u.kind = t.kind ∧ u.lexeme = t.lexeme
  fault : ∀ {t u : Token} (fault : RuntimeFault), S.like.token fault.role t u →
    S.stop (.failure (fault.located t)) (.failure (fault.located u))
  plain : ∀ {native : Native} {n : Nat} {args : List Value} {message : String},
    native ∈ S.left.natives → native.run n args = .failure message →
    S.stop (.failure (.plain message)) (.failure (.plain message))
  operator : ∀ {ρ : Role} {t u : Token}, S.like.token ρ t u →
    ρ.fits t.kind = true ∨ S.stop (.defect .unknownOperator) (.defect .unknownOperator)
  holes : S.like.holes → ∀ defect, S.stop (.defect defect) (.defect defect)
  print : ∀ {o o' : Array Line} (text : String), S.output o o' →
    S.output (o.push ⟨text, false⟩) (o'.push ⟨text, false⟩)
  echo : ∀ {o o' : Array Line} (text : String), S.output o o' →
    S.output (if S.left.echo then o.push ⟨text, true⟩ else o)
      (if S.right.echo then o'.push ⟨text, true⟩ else o')
  natives : ∀ index : Nat, Option.Rel S.NativeRel S.left.natives[index]? S.right.natives[index]?
  moment : ∀ {n m : Nat}, S.moment n m → S.moment (n + 1) (m + 1)
  pending : S.escape .exhausted ∨ S.stop .exhausted .exhausted
  depth : S.left.maxDepth ≤ S.right.maxDepth
  overflow : S.left.maxDepth = S.right.maxDepth ∨
    ∀ token, S.escape (.failure (RuntimeFault.stackOverflow.located token))

/-- Bounds for the two runs: the same, or the left run escapes when it reaches its own. -/
def Bounds (S : Sim) (n m : Nat) : Prop :=
  (n = m ∧ S.stop .exhausted .exhausted) ∨ (n ≤ m ∧ S.escape .exhausted)

theorem Bounds.pred {S : Sim} {n m : Nat} (h : S.Bounds (n + 1) m) :
    ∃ k, m = k + 1 ∧ S.Bounds n k := by
  rcases h with ⟨h, hstop⟩ | ⟨h, hescape⟩
  · exact ⟨n, h.symm, Or.inl ⟨rfl, hstop⟩⟩
  · exact ⟨m - 1, by omega, Or.inr ⟨by omega, hescape⟩⟩

/-- How two runs end. -/
def Ends (S : Sim) {α β : Type} (depth : Nat) (good : α → β → Prop) :
    EStateM.Result Stop State α → EStateM.Result Stop State β → Prop
  | .ok a s, .ok b t => good a b ∧ S.StateRel depth s t
  | .error e s, .error f t => S.escape e ∨ S.stop e f ∧ S.StateRel depth s t
  | .error e _, .ok _ _ => S.escape e
  | .ok _ _, .error _ _ => False

/-- Runs that do not escape end both in their ways. -/
theorem Ends.cases {S : Sim} {α β : Type} {depth : Nat} {good : α → β → Prop}
    {r : EStateM.Result Stop State α} {r' : EStateM.Result Stop State β}
    (h : S.Ends depth good r r') (hclosed : ∀ stop, ¬ S.escape stop) :
    (∃ a b s t, r = .ok a s ∧ r' = .ok b t ∧ good a b ∧ S.StateRel depth s t) ∨
      ∃ e f s t, r = .error e s ∧ r' = .error f t ∧ S.stop e f ∧ S.StateRel depth s t := by
  cases r with
  | ok a s =>
      cases r' with
      | ok b t => exact Or.inl ⟨a, b, s, t, rfl, rfl, h.1, h.2⟩
      | error f t => exact h.elim
  | error e s =>
      cases r' with
      | ok b t => exact absurd h (hclosed e)
      | error f t =>
          rcases h with hescape | ⟨hstop, hst⟩
          · exact absurd hescape (hclosed e)
          · exact Or.inr ⟨e, f, s, t, rfl, rfl, hstop, hst⟩

/-- Two computations that end alike from all states that correspond. -/
def Runs (S : Sim) {α β : Type} (depth : Nat) (good : α → β → Prop) (x : Eval α) (y : Eval β) :
    Prop :=
  ∀ s t, S.StateRel depth s t → S.Ends depth good (x s) (y t)

end Sim

namespace Eval

variable {α β : Type}

theorem bind_run (x : Eval α) (f : α → Eval β) (s : State) :
    (x >>= f) s = match x s with
      | .ok a after => f a after
      | .error stop after => .error stop after := by
  show EStateM.bind x f s = _
  unfold EStateM.bind
  cases x s <;> rfl

end Eval

namespace Sim

open Eval

/-! ## Running one after the other -/

section
variable {S : Sim} {α β γ δ : Type} {depth : Nat} {good : α → β → Prop} {goal : γ → δ → Prop}
  {x : Eval α} {y : Eval β} {f : α → Eval γ} {g : β → Eval δ}

theorem runs_pure {a : α} {b : β} (h : good a b) : S.Runs depth good (pure a) (pure b) :=
  fun _ _ hst => ⟨h, hst⟩

theorem runs_throw {e e' : Stop} (h : S.escape e ∨ S.stop e e') :
    S.Runs depth good (throw e : Eval α) (throw e' : Eval β) := by
  intro s t hst
  rcases h with h | h
  · exact Or.inl h
  · exact Or.inr ⟨h, hst⟩

theorem Runs.bind (hx : S.Runs depth good x y)
    (hf : ∀ a b, good a b → S.Runs depth goal (f a) (g b)) :
    S.Runs depth goal (x >>= f) (y >>= g) := by
  intro s t hst
  have hends := hx s t hst
  rw [bind_run, bind_run]
  cases hxs : x s with
  | ok a s' =>
      cases hyt : y t with
      | ok b t' =>
          rw [hxs, hyt] at hends
          exact hf a b hends.1 s' t' hends.2
      | error e' t' =>
          rw [hxs, hyt] at hends
          exact hends.elim
  | error e s' =>
      cases hyt : y t with
      | ok b t' =>
          -- The left run escaped, so whatever the right one goes on to do is of no interest.
          rw [hxs, hyt] at hends
          dsimp only
          cases g b t' with
          | ok _ _ => exact hends
          | error _ _ => exact Or.inl hends
      | error e' t' =>
          rw [hxs, hyt] at hends
          exact hends

/-- Values that correspond are both true or both false, so both sides take the same branch. -/
theorem runs_ifTruthy {v w : Value} {x' : Eval α} {y' : Eval β} (hv : S.ValueRel v w)
    (hthen : S.Runs depth good x y) (helse : S.Runs depth good x' y') :
    S.Runs depth good (if v.isTruthy then x else x') (if w.isTruthy then y else y') := by
  rw [hv.isTruthy]
  by_cases htrue : v.isTruthy = true
  · rw [if_pos htrue, if_pos htrue]
    exact hthen
  · rw [if_neg htrue, if_neg htrue]
    exact helse

end

/-! ## Single steps -/

section
variable {S : Sim} (hS : S.Lawful) {α β : Type} {depth scope : Nat} {good : α → β → Prop}

include hS

theorem Lawful.name (f g : Closure) (h : S.ClosureRel f g) : g.name.lexeme = f.name.lexeme :=
  (hS.token h.name).2

theorem runs_refuse {t u : Token} (fault : RuntimeFault) (h : S.like.token fault.role t u) :
    S.Runs depth good (refuse fault t : Eval α) (refuse fault u : Eval β) :=
  runs_throw (Or.inr (hS.fault fault h))

theorem runs_get {t u : Token} (hscope : S.region scope) (h : S.like.token .name t u) :
    S.Runs depth S.ValueRel (Eval.get scope t) (Eval.get scope u) := by
  intro s s' hs
  have hrel := hs.store.get t.lexeme hscope
  unfold Eval.get
  rw [(hS.token h).2]
  rcases optionRel_cases hrel with ⟨ha, hb⟩ | ⟨v, w, ha, hb, hv⟩
  · rw [ha, hb]
    have hstop := hS.fault (.undefinedVariable t.lexeme) h
    exact Or.inr ⟨hstop, hs⟩
  · rw [ha, hb]
    exact ⟨hv, hs⟩

omit hS in
theorem runs_define (name : String) {v w : Value} (hscope : S.region scope) (hv : S.ValueRel v w) :
    S.Runs depth (fun _ _ => True) (define scope name v) (define scope name w) :=
  fun _ _ hs => ⟨trivial, { hs with store := hs.store.define name hscope hv }⟩

theorem runs_assign {t u : Token} {v w : Value} (hscope : S.region scope)
    (h : S.like.token .name t u) (hv : S.ValueRel v w) :
    S.Runs depth (fun _ _ => True) (assign scope t v) (assign scope u w) := by
  intro s s' hs
  obtain ⟨howner, hregion⟩ := hs.store.owner t.lexeme hscope
  unfold assign
  rw [(hS.token h).2, howner]
  cases ha : s.store.owner? t.lexeme scope with
  | none =>
      have hstop := hS.fault (.undefinedVariable t.lexeme) h
      exact Or.inr ⟨hstop, hs⟩
  | some owner => exact runs_define t.lexeme (hregion owner ha) hv s s' hs

omit hS in
theorem runs_newScope (hscope : S.region scope) :
    S.Runs depth (fun n m => m = n ∧ S.region n) (newScope scope) (newScope scope) := by
  intro s s' hs
  have hinside : ∀ outer, some scope = some outer → S.region outer := by
    rintro outer ⟨⟩
    exact hscope
  have hnew := hs.store.newScope (some scope) hinside
  exact ⟨⟨hs.store.size, hs.store.fresh _ (Nat.le_refl _)⟩, { hs with store := hnew }⟩

omit hS in
theorem runs_newClosure {f g : Closure} (h : S.ClosureRel f g) :
    S.Runs depth S.ValueRel (newClosure f) (newClosure g) := by
  intro s s' hs
  have hnumber : s'.store.closures = s.store.closures := hs.store.closures
  refine ⟨?_, { hs with store := hs.store.newClosure }⟩
  rw [hnumber]
  exact .closure _ h

theorem runs_print {v w : Value} (hv : S.ValueRel v w) :
    S.Runs depth (fun _ _ => True) (write v.text false) (write w.text false) := by
  intro s s' hs
  rw [hv.text hS.name]
  exact ⟨trivial, { hs with output := hS.print v.text hs.output }⟩

omit hS in
theorem ends_escape {e : Stop} (h : S.escape e) (s : State)
    (r : EStateM.Result Stop State β) :
    S.Ends depth good (.error e s : EStateM.Result Stop State α) r := by
  cases r with
  | ok _ _ => exact h
  | error _ _ => exact Or.inl h

/-- A call counts as active while its body runs, and no longer, however that ends. -/
theorem runs_active {t u : Token} {x : Eval α} {y : Eval β} (h : S.like.token .paren t u)
    (hxy : S.Runs (depth + 1) good x y) :
    S.Runs depth good (active S.left t x) (active S.right u y) := by
  intro s s' hs
  unfold active
  rw [hs.leftDepth, hs.rightDepth]
  by_cases hleft : S.left.maxDepth ≤ depth
  · -- The left run is at its limit: either the right one is at the same, or the left one escapes.
    rw [if_pos hleft]
    rcases hS.overflow with heq | hescape
    · rw [if_pos (heq ▸ hleft)]
      exact Or.inr ⟨hS.fault .stackOverflow h, hs⟩
    · exact ends_escape (hescape t) s _
  · have hright : ¬ S.right.maxDepth ≤ depth := fun hle => hleft (Nat.le_trans hS.depth hle)
    rw [if_neg hleft, if_neg hright]
    have hentered : S.StateRel (depth + 1) { s with depth := depth + 1 }
        { s' with depth := depth + 1 } := ⟨hs.store, rfl, rfl, hs.output, hs.moment⟩
    have hends := hxy _ _ hentered
    have hleave {a b : State} (hab : S.StateRel (depth + 1) a b) :
        S.StateRel depth { a with depth := a.depth - 1 } { b with depth := b.depth - 1 } :=
      ⟨hab.store, by simp [hab.leftDepth], by simp [hab.rightDepth], hab.output, hab.moment⟩
    cases hx : x { s with depth := depth + 1 } with
    | ok a after =>
        cases hy : y { s' with depth := depth + 1 } with
        | ok b after' =>
            rw [hx, hy] at hends
            exact ⟨hends.1, hleave hends.2⟩
        | error e' after' =>
            rw [hx, hy] at hends
            exact hends.elim
    | error e after =>
        cases hy : y { s' with depth := depth + 1 } with
        | ok b after' =>
            rw [hx, hy] at hends
            exact hends
        | error e' after' =>
            rw [hx, hy] at hends
            rcases hends with hescape | ⟨hstop, hafter⟩
            · exact Or.inl hescape
            · exact Or.inr ⟨hstop, hleave hafter⟩

end

/-! ## Operators -/

section
variable {S : Sim} (hS : S.Lawful) {depth : Nat} {v v' w w' : Value} {t u : Token}

include hS

omit hS in
/-- Of the operators between numbers, those that fit have a result. -/
theorem arithmetic?_isSome {kind : Kind} (h : Role.fits .binary kind = true)
    (hne : kind ≠ .bangEqual) (heq : kind ≠ .equalEqual) (hplus : kind ≠ .plus) (x y : Float) :
    (arithmetic? kind x y).isSome = true := by
  simp only [Role.fits, List.contains_eq_mem, List.mem_cons, List.not_mem_nil, or_false,
    decide_eq_true_eq] at h
  rcases h with h | h | h | h | h | h | h | h | h | h <;> subst h <;> simp_all [arithmetic?]

omit hS in
theorem arithmetic?_value {kind : Kind} {x y : Float} {value : Value}
    (h : arithmetic? kind x y = some value) :
    (∃ z, value = .number z) ∨ ∃ b, value = .bool b := by
  unfold arithmetic? at h
  split at h <;> cases h
  all_goals first
    | exact Or.inl ⟨_, rfl⟩
    | exact Or.inr ⟨_, rfl⟩

theorem runs_applyBinary (h : S.like.token .binary t u) (hv : S.ValueRel v v')
    (hw : S.ValueRel w w') :
    S.Runs depth S.ValueRel (applyBinary t v w) (applyBinary u v' w') := by
  have hkind := (hS.token h).1
  unfold applyBinary
  rw [hkind]
  split
  case h_1 =>
      rw [hv.same hw]
      exact runs_pure (.bool _)
  case h_2 =>
      rw [hv.same hw]
      exact runs_pure (.bool _)
  case h_3 =>
      cases hv with
      | string x =>
          cases hw with
          | string y => exact runs_pure (.string _)
          | _ => exact runs_refuse hS .operandsNotAddable h
      | number x =>
          cases hw with
          | number y => exact runs_pure (.number _)
          | _ => exact runs_refuse hS .operandsNotAddable h
      | _ => exact runs_refuse hS .operandsNotAddable h
  case h_4 hne heq hplus =>
      cases hv with
      | number x =>
          cases hw with
          | number y =>
              dsimp only
              cases hvalue : arithmetic? t.kind x y with
              | some value =>
                  obtain ⟨z, rfl⟩ | ⟨b, rfl⟩ := arithmetic?_value hvalue
                  · exact runs_pure (.number z)
                  · exact runs_pure (.bool b)
              | none =>
                  -- An operator that fits has a result, so this one does not, and that is a defect.
                  rcases hS.operator h with hfits | hstop
                  · have hsome := arithmetic?_isSome hfits hne heq hplus x y
                    rw [hvalue] at hsome
                    cases hsome
                  · exact runs_throw (Or.inr hstop)
          | _ => exact runs_refuse hS .operandsNotNumbers h
      | _ => exact runs_refuse hS .operandsNotNumbers h

theorem runs_applyUnary (h : S.like.token .unary t u) (hv : S.ValueRel v v') :
    S.Runs depth S.ValueRel (applyUnary t v) (applyUnary u v') := by
  have hkind := (hS.token h).1
  unfold applyUnary
  rw [hkind]
  split
  case h_1 =>
      rw [hv.isTruthy]
      exact runs_pure (.bool _)
  case h_2 =>
      cases hv with
      | number x => exact runs_pure (.number _)
      | _ => exact runs_refuse hS .operandNotNumber h
  case h_3 hbang hminus =>
      rcases hS.operator h with hfits | hstop
      · simp only [Role.fits, Bool.or_eq_true, beq_iff_eq] at hfits
        rcases hfits with hk | hk
        · exact absurd hk hbang
        · exact absurd hk hminus
      · exact runs_throw (Or.inr hstop)

end

/-! ## Calls -/

/-- Things to call that correspond. -/
inductive CallableRel (S : Sim) : Callable → Callable → Prop
  | closure {f g : Closure} : S.ClosureRel f g → CallableRel S (.closure f) (.closure g)
  | native {f g : Native} : f ∈ S.left.natives → S.NativeRel f g →
    CallableRel S (.native f) (.native g)

/-- Meanings of calls that correspond, for calls with the right number of arguments. -/
def InvokeRel (S : Sim) (invoke invoke' : Invoke) : Prop :=
  ∀ {depth : Nat} {f g : Closure} {args args' : List Value}, S.ClosureRel f g →
    List.Forall₂ S.ValueRel args args' → args.length = f.params.length →
    S.Runs depth S.ValueRel (invoke f args) (invoke' g args')

/-- Ways for a statement to end that correspond. -/
inductive FlowRel (S : Sim) : Flow → Flow → Prop
  | normal : FlowRel S .normal .normal
  | returning {v w : Value} : S.ValueRel v w → FlowRel S (.returning v) (.returning w)

section
variable {S : Sim} (hS : S.Lawful) {depth : Nat} {inv inv' : Invoke} {t u : Token}

theorem CallableRel.arity {f g : Callable} (h : S.CallableRel f g) : g.arity = f.arity := by
  cases h with
  | closure h => exact congrArg Int.ofNat h.params.length_eq.symm
  | native _ h => exact h.arity

include hS

theorem runs_callable {v w : Value} (hv : S.ValueRel v w) :
    Option.Rel S.CallableRel (callable? S.left v) (callable? S.right w) := by
  cases hv with
  | closure i h => exact .some (.closure h)
  | native i =>
      dsimp only [callable?]
      rcases optionRel_cases (hS.natives i) with ⟨hf, hg⟩ | ⟨f, g, hf, hg, h⟩
      · rw [hf, hg]
        exact .none
      · rw [hf, hg]
        exact .some (.native (Array.mem_of_getElem? hf) h)
  | _ => exact .none

theorem runs_countNative : S.Runs depth S.moment countNative countNative :=
  fun _ _ hs => ⟨hs.moment, { hs with moment := hS.moment hs.moment }⟩

theorem runs_callNative {f g : Native} {args args' : List Value} (hmem : f ∈ S.left.natives)
    (h : S.NativeRel f g) (hargs : List.Forall₂ S.ValueRel args args') :
    S.Runs depth S.ValueRel (callNative f args) (callNative g args') := by
  refine (runs_countNative hS).bind fun n m hnm => ?_
  have hreply := h.run hnm hargs
  generalize hf : f.run n args = reply at hreply ⊢
  generalize g.run m args' = reply' at hreply ⊢
  cases hreply with
  | value hv => exact runs_pure hv
  | failure message => exact runs_throw (Or.inr (hS.plain hmem hf))
  | breakdown hstop => exact runs_throw (Or.inr hstop)
  | pending => exact runs_throw hS.pending

theorem runs_callWith {f g : Callable} {args args' : List Value} (hinv : S.InvokeRel inv inv')
    (h : S.like.token .paren t u) (hf : S.CallableRel f g)
    (hargs : List.Forall₂ S.ValueRel args args') :
    S.Runs depth S.ValueRel (callWith S.left inv t f args) (callWith S.right inv' u g args') := by
  unfold callWith
  rw [hf.arity, ← hargs.length_eq]
  by_cases harity : (args.length : Int) = f.arity
  · rw [if_pos harity, if_pos harity]
    cases hf with
    | closure hf =>
        have hcount : args.length = _ := Int.ofNat_inj.mp harity
        exact runs_active hS h (hinv hf hargs hcount)
    | native hmem hf => exact runs_active hS h (runs_callNative hS hmem hf hargs)
  · rw [if_neg harity, if_neg harity]
    exact runs_refuse hS _ h

end

/-! ## Expressions -/

section
variable {S : Sim} {depth : Nat} {inv inv' : Invoke}

mutual

theorem evalWith_runs (hS : S.Lawful) (hinv : S.InvokeRel inv inv') {scope : Nat}
    (hscope : S.region scope) :
    ∀ {e e' : Expr}, e.Like S.like e' →
      S.Runs depth S.ValueRel (evalWith S.left inv scope e) (evalWith S.right inv' scope e')
  | .missing, _, .missing hholes => by
      rw [evalWith, evalWith]
      exact runs_throw (Or.inr (hS.holes hholes _))
  | .assign _ _, _, .assign hname hvalue => by
      rw [evalWith, evalWith]
      refine (evalWith_runs hS hinv hscope hvalue).bind fun v w hv => ?_
      refine (runs_assign hS hscope hname hv).bind fun _ _ _ => ?_
      exact runs_pure hv
  | .binary _ _ _, _, .binary hleft hop hright => by
      rw [evalWith, evalWith]
      refine (evalWith_runs hS hinv hscope hleft).bind fun v w hv => ?_
      refine (evalWith_runs hS hinv hscope hright).bind fun v' w' hv' => ?_
      exact runs_applyBinary hS hop hv hv'
  | .call _ _ _, _, .call hcallee hparen hargs => by
      rw [evalWith, evalWith]
      refine (evalWith_runs hS hinv hscope hcallee).bind fun v w hv => ?_
      rcases optionRel_cases (runs_callable hS hv) with ⟨hf, hg⟩ | ⟨f, g, hf, hg, hfg⟩
      · rw [hf, hg]
        exact runs_refuse hS _ hparen
      · rw [hf, hg]
        refine (evalAllWith_runs hS hinv hscope hargs).bind fun args args' hvalues => ?_
        exact runs_callWith hS hinv hparen hfg hvalues
  | .group _, _, .group h => by
      rw [evalWith, evalWith]
      exact evalWith_runs hS hinv hscope h
  | .literal _, _, .literal => by
      rw [evalWith, evalWith]
      exact runs_pure (Value.Rel.literal _)
  | .logical _ op _, _, .logical hleft hop hright => by
      rw [evalWith, evalWith]
      refine (evalWith_runs hS hinv hscope hleft).bind fun v w hv => ?_
      have hr := evalWith_runs hS hinv hscope hright
      rw [(hS.token hop).1]
      split
      case h_1 => exact runs_ifTruthy hv (runs_pure hv) hr
      case h_2 => exact runs_ifTruthy hv hr (runs_pure hv)
      case h_3 hor hand =>
          -- Only a token that does not fit its place gets here, and that is a defect.
          rcases hS.operator hop with hfits | hstop
          · simp only [Role.fits, Bool.or_eq_true, beq_iff_eq] at hfits
            rcases hfits with hk | hk
            · exact absurd hk hor
            · exact absurd hk hand
          · exact runs_throw (Or.inr hstop)
  | .unary _ _, _, .unary hop h => by
      rw [evalWith, evalWith]
      refine (evalWith_runs hS hinv hscope h).bind fun v w hv => ?_
      exact runs_applyUnary hS hop hv
  | .name _, _, .name h => by
      rw [evalWith, evalWith]
      exact runs_get hS hscope h

theorem evalAllWith_runs (hS : S.Lawful) (hinv : S.InvokeRel inv inv') {scope : Nat}
    (hscope : S.region scope) :
    ∀ {es es' : List Expr}, List.Forall₂ (Expr.Like S.like) es es' →
      S.Runs depth (List.Forall₂ S.ValueRel) (evalAllWith S.left inv scope es)
        (evalAllWith S.right inv' scope es')
  | [], _, .nil => by
      rw [evalAllWith, evalAllWith]
      exact runs_pure .nil
  | _ :: _, _, .cons h hs => by
      rw [evalAllWith, evalAllWith]
      refine (evalWith_runs hS hinv hscope h).bind fun v w hv => ?_
      refine (evalAllWith_runs hS hinv hscope hs).bind fun vs ws hvs => ?_
      exact runs_pure (.cons hv hvs)

end

theorem evalOptional_runs (hS : S.Lawful) (hinv : S.InvokeRel inv inv') {scope : Nat}
    (hscope : S.region scope) {o o' : Option Expr} (h : Option.Rel (Expr.Like S.like) o o') :
    S.Runs depth S.ValueRel (evalOptional S.left inv scope o)
      (evalOptional S.right inv' scope o') := by
  cases h with
  | none => exact runs_pure .nil
  | some h => exact evalWith_runs hS hinv hscope h

end

/-! ## Statements -/

section
variable {S : Sim} {depth : Nat} {inv inv' : Invoke} {n m : Nat}

/-- A loop: its turns correspond, so as many of them are run on both sides. -/
theorem repeatWhile_runs {test test' : Eval Value} {body body' : Eval Flow} (hb : S.Bounds n m)
    (htest : S.Runs depth S.ValueRel test test') (hbody : S.Runs depth S.FlowRel body body') :
    S.Runs depth S.FlowRel (repeatWhile test body n) (repeatWhile test' body' m) := by
  induction n generalizing m with
  | zero =>
      rcases hb with ⟨rfl, hstop⟩ | ⟨-, hescape⟩
      · exact runs_throw (Or.inr hstop)
      · exact fun s s' _ => ends_escape hescape s _
  | succ n ih =>
      obtain ⟨k, rfl, hk⟩ := hb.pred
      rw [repeatWhile, repeatWhile]
      refine htest.bind fun v w hv => ?_
      refine runs_ifTruthy hv ?_ (runs_pure .normal)
      refine hbody.bind fun flow flow' hflow => ?_
      cases hflow with
      | normal => exact ih hk
      | returning hv => exact runs_pure (.returning hv)

theorem like_isAssign {R : Likeness} {e e' : Expr} (h : e.Like R e') :
    e'.isAssign = e.isAssign := by
  cases h <;> rfl

/-- The value of an expression statement is written on the sides that echo. -/
theorem runs_echo (hS : S.Lawful) {v w : Value} {e e' : Expr} (hv : S.ValueRel v w)
    (h : e.Like S.like e') :
    S.Runs depth (fun _ _ => True) (echo S.left e v) (echo S.right e' w) := by
  intro s s' hs
  unfold echo
  rw [like_isAssign h, hv.text hS.name]
  cases e.isAssign with
  | true =>
      rw [Bool.not_true, Bool.and_false, Bool.and_false]
      exact ⟨trivial, hs⟩
  | false =>
      rw [Bool.not_false, Bool.and_true, Bool.and_true]
      have hecho := hS.echo v.text hs.output
      cases hl : S.left.echo <;> cases hr : S.right.echo <;> rw [hl, hr] at hecho <;>
        exact ⟨trivial, { hs with output := hecho }⟩

/-- A function declaration makes functions that correspond and binds them to the same name. -/
theorem declareFunction_runs (hS : S.Lawful) {scope : Nat} (hscope : S.region scope)
    {name name' : Token} {params params' : List Token} {body body' : List Stmt}
    (hname : S.like.token .name name name')
    (hparams : List.Forall₂ (S.like.token .name) params params')
    (hbody : List.Forall₂ (Stmt.Like S.like) body body') :
    S.Runs depth S.FlowRel (execWith S.left inv n scope (.function name params body))
      (execWith S.right inv' m scope (.function name' params' body')) := by
  have hclosure : S.ClosureRel ⟨name, params, body, scope⟩ ⟨name', params', body', scope⟩ :=
    ⟨rfl, hscope, hname, hparams, hbody⟩
  rw [execWith, execWith]
  refine (runs_newClosure hclosure).bind fun v w hv => ?_
  rw [(hS.token hname).2]
  refine (runs_define _ hscope hv).bind fun _ _ _ => ?_
  exact runs_pure .normal

mutual

theorem execWith_runs (hS : S.Lawful) (hinv : S.InvokeRel inv inv') (hb : S.Bounds n m)
    {scope : Nat} (hscope : S.region scope) :
    ∀ {s s' : Stmt}, s.Like S.like s' →
      S.Runs depth S.FlowRel (execWith S.left inv n scope s) (execWith S.right inv' m scope s')
  | .missing, _, .missing hholes => by
      rw [execWith, execWith]
      exact runs_throw (Or.inr (hS.holes hholes _))
  | .block _, _, .block hbody => by
      rw [execWith, execWith]
      refine (runs_newScope hscope).bind fun inner inner' hinner => ?_
      obtain ⟨rfl, hregion⟩ := hinner
      exact execAllWith_runs hS hinv hb hregion hbody
  | .expression _, _, .expression h => by
      rw [execWith, execWith]
      refine (evalWith_runs hS hinv hscope h).bind fun v w hv => ?_
      refine (runs_echo hS hv h).bind fun _ _ _ => ?_
      exact runs_pure .normal
  | .function _ _ _, _, .function hname hparams hbody =>
      declareFunction_runs hS hscope hname hparams hbody
  | .branch _ _ none, _, .branch htest hthen .none => by
      rw [execWith, execWith]
      refine (evalWith_runs hS hinv hscope htest).bind fun v w hv => ?_
      exact runs_ifTruthy hv (execWith_runs hS hinv hb hscope hthen) (runs_pure .normal)
  | .branch _ _ (some _), _, .branch htest hthen (.some helse) => by
      rw [execWith, execWith]
      refine (evalWith_runs hS hinv hscope htest).bind fun v w hv => ?_
      exact runs_ifTruthy hv (execWith_runs hS hinv hb hscope hthen)
        (execWith_runs hS hinv hb hscope helse)
  | .print _, _, .print h => by
      rw [execWith, execWith]
      refine (evalWith_runs hS hinv hscope h).bind fun v w hv => ?_
      refine (runs_print hS hv).bind fun _ _ _ => ?_
      exact runs_pure .normal
  | .ret _ _, _, .ret _ h => by
      rw [execWith, execWith]
      refine (evalOptional_runs hS hinv hscope h).bind fun v w hv => ?_
      exact runs_pure (.returning hv)
  | .declare _ _, _, .declare hname h => by
      rw [execWith, execWith]
      refine (evalOptional_runs hS hinv hscope h).bind fun v w hv => ?_
      rw [(hS.token hname).2]
      refine (runs_define _ hscope hv).bind fun _ _ _ => ?_
      exact runs_pure .normal
  | .loop _ _, _, .loop htest hbody => by
      rw [execWith, execWith]
      exact repeatWhile_runs hb (evalWith_runs hS hinv hscope htest)
        (execWith_runs hS hinv hb hscope hbody)

theorem execAllWith_runs (hS : S.Lawful) (hinv : S.InvokeRel inv inv') (hb : S.Bounds n m)
    {scope : Nat} (hscope : S.region scope) :
    ∀ {ss ss' : List Stmt}, List.Forall₂ (Stmt.Like S.like) ss ss' →
      S.Runs depth S.FlowRel (execAllWith S.left inv n scope ss)
        (execAllWith S.right inv' m scope ss')
  | [], _, .nil => by
      rw [execAllWith, execAllWith]
      exact runs_pure .normal
  | _ :: _, _, .cons h hs => by
      rw [execAllWith, execAllWith]
      refine (execWith_runs hS hinv hb hscope h).bind fun flow flow' hflow => ?_
      cases hflow with
      | normal => exact execAllWith_runs hS hinv hb hscope hs
      | returning hv => exact runs_pure (.returning hv)

end

end

/-! ## The knot -/

section
variable {S : Sim} {depth : Nat}

/-- Parameters that correspond, with arguments that correspond. -/
def BindingsRel (S : Sim) : List (String × Value) → List (String × Value) → Prop :=
  List.Forall₂ fun p q => q.1 = p.1 ∧ S.ValueRel p.2 q.2

/-- With as many arguments as there are parameters, none is missing. -/
theorem bindings?_rel (hS : S.Lawful) {params params' : List Token} {args args' : List Value}
    (hparams : List.Forall₂ (S.like.token .name) params params')
    (hargs : List.Forall₂ S.ValueRel args args') (hcount : args.length = params.length) :
    ∃ bs bs', bindings? params args = some bs ∧ bindings? params' args' = some bs' ∧
      S.BindingsRel bs bs' := by
  induction hparams generalizing args args' with
  | nil => exact ⟨[], [], rfl, rfl, .nil⟩
  | @cons param param' _ _ hparam _ ih =>
      cases hargs with
      | nil => simp at hcount
      | @cons arg arg' _ _ harg hargs =>
          simp only [List.length_cons, Nat.add_right_cancel_iff] at hcount
          obtain ⟨bs, bs', hbs, hbs', hrel⟩ := ih hargs hcount
          refine ⟨(param.lexeme, arg) :: bs, (param'.lexeme, arg') :: bs', ?_, ?_,
            .cons ⟨(hS.token hparam).2, harg⟩ hrel⟩
          · rw [bindings?, hbs]
            rfl
          · rw [bindings?, hbs']
            rfl

theorem storeRel_defineAll {a b : Store} {scope : Nat} {bs bs' : List (String × Value)}
    (h : S.StoreRel a b) (hscope : S.region scope) (hbs : S.BindingsRel bs bs') :
    S.StoreRel (a.defineAll scope bs) (b.defineAll scope bs') := by
  induction hbs generalizing a b with
  | nil => exact h
  | @cons p q _ _ hpq _ ih =>
      obtain ⟨name, v⟩ := p
      obtain ⟨name', w⟩ := q
      obtain ⟨rfl, hv⟩ := hpq
      exact ih (h.define _ hscope hv)

theorem runs_bindAll (hS : S.Lawful) {scope : Nat} {params params' : List Token}
    {args args' : List Value} (hscope : S.region scope)
    (hparams : List.Forall₂ (S.like.token .name) params params')
    (hargs : List.Forall₂ S.ValueRel args args') (hcount : args.length = params.length) :
    S.Runs depth (fun _ _ => True) (bindAll scope params args) (bindAll scope params' args') := by
  obtain ⟨bs, bs', hbs, hbs', hrel⟩ := bindings?_rel hS hparams hargs hcount
  intro s s' hs
  unfold bindAll
  rw [hbs, hbs']
  exact ⟨trivial, { hs with store := storeRel_defineAll hs.store hscope hrel }⟩

theorem invoke_runs (hS : S.Lawful) {n m : Nat} (hb : S.Bounds n m) :
    S.InvokeRel (invoke S.left n) (invoke S.right m) := by
  induction n generalizing m with
  | zero =>
      intro depth f g args args' _ _ _
      rcases hb with ⟨rfl, hstop⟩ | ⟨-, hescape⟩
      · exact runs_throw (Or.inr hstop)
      · exact fun s s' _ => ends_escape hescape s _
  | succ n ih =>
      -- The body of the function may call in turn, with a bound that is one lower on both sides.
      obtain ⟨k, rfl, hk⟩ := hb.pred
      intro depth f g args args' hfg hargs hcount
      rw [invoke, invoke, hfg.scope]
      refine (runs_newScope hfg.inside).bind fun scope scope' hscope => ?_
      obtain ⟨rfl, hregion⟩ := hscope
      refine (runs_bindAll hS hregion hfg.params hargs hcount).bind fun _ _ _ => ?_
      refine (execAllWith_runs hS (ih hk) hk hregion hfg.body).bind fun flow flow' hflow => ?_
      cases hflow with
      | normal => exact runs_pure .nil
      | returning hv => exact runs_pure hv

/-! ## Whole runs -/

variable {n m scope : Nat}

theorem eval_runs (hS : S.Lawful) (hb : S.Bounds n m) (hscope : S.region scope) {e e' : Expr}
    (h : e.Like S.like e') :
    S.Runs depth S.ValueRel (eval S.left n scope e) (eval S.right m scope e') :=
  evalWith_runs hS (invoke_runs hS hb) hscope h

theorem exec_runs (hS : S.Lawful) (hb : S.Bounds n m) (hscope : S.region scope) {s s' : Stmt}
    (h : s.Like S.like s') :
    S.Runs depth S.FlowRel (exec S.left n scope s) (exec S.right m scope s') :=
  execWith_runs hS (invoke_runs hS hb) hb hscope h

theorem execAll_runs (hS : S.Lawful) (hb : S.Bounds n m) (hscope : S.region scope)
    {ss ss' : List Stmt} (h : List.Forall₂ (Stmt.Like S.like) ss ss') :
    S.Runs depth S.FlowRel (execAll S.left n scope ss) (execAll S.right m scope ss') :=
  execAllWith_runs hS (invoke_runs hS hb) hb hscope h

end

end Sim

end LoxLang
