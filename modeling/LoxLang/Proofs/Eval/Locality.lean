import LoxLang.Proofs.Eval.Passive
import LoxLang.Proofs.Tree.Tokens

set_option autoImplicit false

/-! # Evaluation is local

Evaluation that starts in a scope gets at those scopes only that can be reached from it: along the
enclosing scopes, and through the functions that are bound in a scope reached already, to the scopes
of their declarations. It leaves every other scope as it is, and nothing about its outcome depends on
them (`LocalTo`). Native functions are called at the same moments, or do not tell moments apart. A
call starts at the scope of the function's declaration and at those of the functions among its
arguments; the scopes of the caller do not count.

Both facts come from one pairing of two states that agree on what can be reached: the region is what
could be reached at the start, together with all scopes that are made on the way. Function values can
move around in it, but none leads out of it. -/

namespace LoxLang

/-! ## Reaching -/

/-- The scopes that can be reached from some roots. -/
inductive Store.Reach (store : Store) (roots : Nat → Prop) : Nat → Prop
  | root {scope : Nat} : roots scope → Reach store roots scope
  | enclosing {scope outer : Nat} :
    Reach store roots scope → store.enclosing? scope = some outer → Reach store roots outer
  | function {scope : Nat} {here : Scope} {name : String} {i : Nat} {f : Closure} :
    Reach store roots scope → store.scopes[scope]? = some here →
    here.get? name = some (.closure i f) → Reach store roots f.scope

/-- Scopes with the same scope around them and the same bindings. -/
structure Scope.Agree (a b : Scope) : Prop where
  enclosing : b.enclosing = a.enclosing
  bindings : ∀ name, b.get? name = a.get? name

/-- Stores that have made as many scopes and functions and agree on some of the scopes. -/
structure Store.AgreeOn (on : Nat → Prop) (a b : Store) : Prop where
  size : b.scopes.size = a.scopes.size
  closures : b.closures = a.closures
  scopes : ∀ scope, on scope → Option.Rel Scope.Agree a.scopes[scope]? b.scopes[scope]?

/-- What the native functions answer is given by their arguments alone. -/
def Setting.Timeless (setting : Setting) : Prop :=
  ∀ native ∈ setting.natives, ∀ n m, native.run n = native.run m

namespace Eval

variable {α : Type}

/-- What a computation ended with, without the state. -/
def outcome : EStateM.Result Stop State α → Except Stop α
  | .ok a _ => .ok a
  | .error stop _ => .error stop

/-- The state that a computation ended in, whichever way. -/
def final : EStateM.Result Stop State α → State
  | .ok _ state => state
  | .error _ state => state

/-- What it is for a computation to be local to what can be reached from some roots. -/
structure LocalTo (setting : Setting) (roots : Nat → Prop) (x : Eval α) : Prop where
  /-- However it ends, scopes that were there and cannot be reached stay as they are. -/
  frame : ∀ (s : State) (scope : Nat), scope < s.store.scopes.size →
    ¬ s.store.Reach roots scope → (final (x s)).store.scopes[scope]? = s.store.scopes[scope]?
  /-- From states that agree on what can be reached, it ends in the same way, after the same output
  and in states that agree on that and on everything new. -/
  same : ∀ (s t : State), t.depth = s.depth →
    (t.nativeCalls = s.nativeCalls ∨ setting.Timeless) →
    s.store.AgreeOn (s.store.Reach roots) t.store →
    outcome (x t) = outcome (x s) ∧
      (final (x s)).store.AgreeOn
        (fun scope => s.store.Reach roots scope ∨ s.store.scopes.size ≤ scope)
        (final (x t)).store ∧
      (∃ written, (final (x s)).output = s.output ++ written ∧
        (final (x t)).output = t.output ++ written) ∧
      (final (x s)).depth = s.depth ∧ (final (x t)).depth = t.depth

end Eval

/-! ## The simulation -/

/-- Equal tokens correspond, and nothing else. -/
def Likeness.same : Likeness where
  token := fun _ t u => t = u
  holes := True

theorem Likeness.same_carries (ts : List Token) : Likeness.same.Carries id ts :=
  fun _ _ _ => rfl

/-- Two runs of the same tree from two states, with what can be reached in the first as the region. -/
def locality (setting : Setting) (roots : Nat → Prop) (s t : State) : Sim where
  like := .same
  region := fun scope => s.store.Reach roots scope ∨ s.store.scopes.size ≤ scope
  leftOutside := fun scope => s.store.scopes[scope]?
  rightOutside := fun scope => t.store.scopes[scope]?
  output := fun o o' => ∃ written, o = s.output ++ written ∧ o' = t.output ++ written
  moment := fun n m => m = n ∨ setting.Timeless
  left := setting
  right := setting
  stop := Eq
  escape := fun _ => False

section
variable {setting : Setting} {roots : Nat → Prop} {s t : State}

theorem locality_token {ρ : Role} {u v : Token}
    (h : (locality setting roots s t).like.token ρ u v) : v = u :=
  Eq.symm h

theorem locality_lawful (h : ∀ native ∈ setting.natives, native.Passive) :
    (locality setting roots s t).Lawful where
  token := by
    rintro ρ u v rfl
    exact ⟨rfl, rfl⟩
  fault := by
    rintro u v fault rfl
    rfl
  plain := fun _ _ => rfl
  operator := fun _ => Or.inr rfl
  holes := fun _ _ => rfl
  print := by
    rintro o o' text ⟨written, rfl, rfl⟩
    exact ⟨written.push ⟨text, false⟩, by simp, by simp⟩
  echo := by
    rintro o o' text ⟨written, rfl, rfl⟩
    show ∃ _, (if setting.echo = true then _ else _) = _ ∧
      (if setting.echo = true then _ else _) = _
    cases setting.echo with
    | true => exact ⟨written.push ⟨text, true⟩, by simp, by simp⟩
    | false => exact ⟨written, rfl, rfl⟩
  natives := by
    refine Sim.natives_rel fun native hnative => ?_
    refine Sim.nativeRel_of_passive locality_token (h native hnative) ?_ (Or.inl rfl)
    rintro n m (rfl | htimeless)
    · rfl
    · exact htimeless native hnative m n
  moment := fun h => h.imp_left (congrArg (· + 1))
  pending := Or.inr rfl
  depth := Nat.le_refl _
  overflow := Or.inl rfl

theorem locality_bounds (bound : Nat) : (locality setting roots s t).Bounds bound bound :=
  Or.inl ⟨rfl, rfl⟩

theorem locality_root {scope : Nat} (h : roots scope) :
    (locality setting roots s t).region scope :=
  Or.inl (.root h)

/-- A function corresponds to itself if its scope can be reached. -/
theorem locality_closure {f : Closure} (h : (locality setting roots s t).region f.scope) :
    (locality setting roots s t).ClosureRel f f where
  scope := rfl
  inside := h
  name := rfl
  params := (Likeness.same_carries f.params).self .name
  body := Stmt.likeAll_self trivial f.body (Likeness.same_carries _)

/-- The states that a simulation starts from correspond. -/
theorem locality_start (hdepth : t.depth = s.depth)
    (hmoment : t.nativeCalls = s.nativeCalls ∨ setting.Timeless)
    (h : s.store.AgreeOn (s.store.Reach roots) t.store) :
    (locality setting roots s t).StateRel s.depth s t := by
  refine ⟨⟨h.size, h.closures, fun scope hscope => Or.inr hscope, fun scope hscope => ?_,
    fun _ _ => rfl, fun _ _ => rfl⟩, rfl, hdepth, ⟨#[], by simp, by simp⟩, hmoment⟩
  rcases hscope with hreach | hnew
  · -- Whatever a scope that can be reached leads to can be reached as well.
    rcases optionRel_cases (h.scopes scope hreach) with ⟨hs, ht⟩ | ⟨here, here', hs, ht, hagree⟩
    · rw [hs, ht]
      exact .none
    · rw [hs, ht]
      refine .some ⟨hagree.enclosing, fun outer houter => Or.inl (hreach.enclosing ?_),
        fun name => ?_⟩
      · simp [Store.enclosing?, hs, houter]
      · rw [hagree.bindings name]
        cases hvalue : here.get? name with
        | none => exact .none
        | some value =>
            refine .some (Value.rel_self value fun i f heq => ?_)
            subst heq
            exact locality_closure (Or.inl (hreach.function hs hvalue))
  · have hs : s.store.scopes[scope]? = none := Array.getElem?_eq_none hnew
    have ht : t.store.scopes[scope]? = none := Array.getElem?_eq_none (by rw [h.size]; exact hnew)
    rw [hs, ht]
    exact .none

/-- What a simulation says about how the two runs end. -/
theorem locality_ends {α : Type} {good : α → α → Prop} {r r' : EStateM.Result Stop State α}
    (hgood : ∀ a b, good a b → b = a)
    (h : (locality setting roots s t).Ends s.depth good r r') :
    Eval.outcome r' = Eval.outcome r ∧
      (locality setting roots s t).StateRel s.depth (Eval.final r) (Eval.final r') := by
  rcases h.cases (fun _ => id) with
    ⟨a, b, after, after', rfl, rfl, hab, hafter⟩ | ⟨e, e', after, after', rfl, rfl, rfl, hafter⟩
  · exact ⟨congrArg Except.ok (hgood a b hab), hafter⟩
  · exact ⟨rfl, hafter⟩

/-- Stores that correspond agree on the region. -/
theorem locality_agree {a b : Store} (h : (locality setting roots s t).StoreRel a b) :
    a.AgreeOn (fun scope => s.store.Reach roots scope ∨ s.store.scopes.size ≤ scope) b := by
  refine ⟨h.size, h.closures, fun scope hscope => ?_⟩
  rcases optionRel_cases (h.scopes scope hscope) with ⟨ha, hb⟩ | ⟨here, here', ha, hb, hhere⟩
  · rw [ha, hb]
    exact .none
  · rw [ha, hb]
    refine .some ⟨hhere.enclosing, fun name => ?_⟩
    rcases optionRel_cases (hhere.bindings name) with ⟨hv, hw⟩ | ⟨v, w, hv, hw, hvalue⟩
    · rw [hv, hw]
    · rw [hv, hw, Pairing.valueRel_eq locality_token hvalue]

end

theorem Store.agreeOn_refl (on : Nat → Prop) (store : Store) : store.AgreeOn on store := by
  refine ⟨rfl, rfl, fun scope _ => ?_⟩
  cases store.scopes[scope]? with
  | none => exact .none
  | some here => exact .some ⟨rfl, fun _ => rfl⟩

namespace Eval

/-- A computation is local if it runs alike from all states that agree on what can be reached. -/
theorem LocalTo.of_runs {α : Type} (setting : Setting) {roots : Nat → Prop} {x : Eval α}
    (good : Sim → α → α → Prop)
    (hgood : ∀ s t a b, good (locality setting roots s t) a b → b = a)
    (h : ∀ s t, (locality setting roots s t).Runs s.depth (good (locality setting roots s t)) x x) :
    LocalTo setting roots x where
  frame := by
    intro s scope hscope hreach
    -- One run, seen twice: what it leaves alone is what lies outside the region.
    have hstart : (locality setting roots s s).StateRel s.depth s s :=
      locality_start rfl (Or.inl rfl) (Store.agreeOn_refl _ s.store)
    have hends := locality_ends (hgood s s) (h s s s s hstart)
    refine hends.2.store.leftFrame scope fun hregion => ?_
    rcases hregion with hregion | hnew
    · exact hreach hregion
    · omega
  same := by
    intro s t hdepth hmoment hagree
    have hends := locality_ends (hgood s t) (h s t s t (locality_start hdepth hmoment hagree))
    obtain ⟨houtcome, hfinal⟩ := hends
    exact ⟨houtcome, locality_agree hfinal.store, hfinal.output, hfinal.leftDepth,
      hdepth ▸ hfinal.rightDepth⟩

/-- The scopes that a call starts from: that of the function's declaration and those of the functions
among the arguments. -/
def callRoots (f : Closure) (args : List Value) (scope : Nat) : Prop :=
  scope = f.scope ∨ ∃ i g, .closure i g ∈ args ∧ scope = g.scope

variable {setting : Setting} (h : ∀ native ∈ setting.natives, native.Passive) (bound : Nat)

include h

theorem eval_localTo (scope : Nat) (e : Expr) :
    LocalTo setting (· = scope) (eval setting bound scope e) := by
  refine LocalTo.of_runs setting (fun S => S.ValueRel) ?_ fun s t => ?_
  · intro s t v w hv
    exact Pairing.valueRel_eq locality_token hv
  · have hroot : (locality setting (· = scope) s t).region scope := locality_root rfl
    exact Sim.eval_runs (locality_lawful h) (locality_bounds bound) hroot
      (e.like_self trivial (Likeness.same_carries _))

omit h in
theorem flowRel_eq {roots : Nat → Prop} {s t : State} {a b : Flow}
    (hflow : (locality setting roots s t).FlowRel a b) : b = a := by
  cases hflow with
  | normal => rfl
  | returning hv => rw [Pairing.valueRel_eq locality_token hv]

theorem exec_localTo (scope : Nat) (stmt : Stmt) :
    LocalTo setting (· = scope) (exec setting bound scope stmt) := by
  refine LocalTo.of_runs setting (fun S => S.FlowRel) (fun _ _ _ _ => flowRel_eq) fun s t => ?_
  have hroot : (locality setting (· = scope) s t).region scope := locality_root rfl
  exact Sim.exec_runs (locality_lawful h) (locality_bounds bound) hroot
    (stmt.like_self trivial (Likeness.same_carries _))

theorem execAll_localTo (scope : Nat) (stmts : List Stmt) :
    LocalTo setting (· = scope) (execAll setting bound scope stmts) := by
  refine LocalTo.of_runs setting (fun S => S.FlowRel) (fun _ _ _ _ => flowRel_eq) fun s t => ?_
  have hroot : (locality setting (· = scope) s t).region scope := locality_root rfl
  exact Sim.execAll_runs (locality_lawful h) (locality_bounds bound) hroot
    (Stmt.likeAll_self trivial stmts (Likeness.same_carries _))

theorem invoke_localTo (f : Closure) (args : List Value) (hcount : args.length = f.params.length) :
    LocalTo setting (callRoots f args) (invoke setting bound f args) := by
  refine LocalTo.of_runs setting (fun S => S.ValueRel) ?_ fun s t => ?_
  · intro s t v w hv
    exact Pairing.valueRel_eq locality_token hv
  · have hf : (locality setting (callRoots f args) s t).ClosureRel f f :=
      locality_closure (locality_root (Or.inl rfl))
    have hargs : List.Forall₂ (locality setting (callRoots f args) s t).ValueRel args args := by
      refine List.forall₂_same.mpr fun v hv => Value.rel_self v fun i g heq => ?_
      exact locality_closure (locality_root (Or.inr ⟨i, g, heq ▸ hv, rfl⟩))
    exact Sim.invoke_runs (locality_lawful h) (locality_bounds bound) hf hargs hcount

/-- Evaluation in a scope is local to what can be reached from it, a call to what can be reached from
the function and its arguments; so a call leaves everything as it is that another function can reach
and it cannot. -/
theorem evaluation_local :
    (∀ scope e, LocalTo setting (· = scope) (eval setting bound scope e)) ∧
    (∀ scope stmt, LocalTo setting (· = scope) (exec setting bound scope stmt)) ∧
    (∀ scope stmts, LocalTo setting (· = scope) (execAll setting bound scope stmts)) ∧
    (∀ f args, args.length = f.params.length →
      LocalTo setting (callRoots f args) (invoke setting bound f args)) ∧
    ∀ f args g args' (s : State), args.length = f.params.length →
      (∀ scope, s.store.Reach (callRoots g args') scope →
        ¬ s.store.Reach (callRoots f args) scope) →
      ∀ scope < s.store.scopes.size, s.store.Reach (callRoots g args') scope →
        (final (invoke setting bound f args s)).store.scopes[scope]? = s.store.scopes[scope]? := by
  refine ⟨eval_localTo h bound, exec_localTo h bound, execAll_localTo h bound,
    invoke_localTo h bound, ?_⟩
  intro f args g args' s hcount hdisjoint scope hscope hreach
  exact (invoke_localTo h bound f args hcount).frame s scope hscope (hdisjoint scope hreach)

omit h

/-- A native function that hands its first argument back. -/
def firstArgument : Native :=
  ⟨1, fun _ args => .value (args.headD .nil)⟩

/-- A name on the first line. -/
def word (lexeme : String) : Token := ⟨.identifier, lexeme, .nil, 1⟩

/-- The closing parenthesis of a call on the first line. -/
def closing : Token := ⟨.rightParen, ")", .nil, 1⟩

/-- The globals, with a function that was declared in a scope inside them and sees its `a`, and a scope
that nothing leads to. -/
def handing : State where
  store :=
    { scopes := #[⟨none, [("first", .native 0),
          ("f", .closure 0
            ⟨word "f", [], [.ret ⟨.kwReturn, "return", .nil, 1⟩ (some (.name (word "a")))], 1⟩)]⟩,
        ⟨some 0, [("a", .bool true)]⟩, ⟨some 0, [("a", .bool false)]⟩]
      closures := 1 }
  depth := 0
  output := #[]
  nativeCalls := 0

/-- `print first(f)();` -/
def printFirst : Stmt :=
  .print (.call (.call (.name (word "first")) closing [.name (word "f")]) closing [])

/-- The function is handed through the native function and called, and gets at its own scope only. -/
theorem evaluation_local_firstArgument :
    let setting : Setting := ⟨512, false, #[firstArgument]⟩
    (∀ native ∈ setting.natives, native.Passive) ∧
      (final (exec setting 10 0 printFirst handing)).output = #[⟨"true", false⟩] ∧
      (final (exec setting 10 0 printFirst handing)).nativeCalls = 1 ∧
      LocalTo setting (· = 0) (exec setting 10 0 printFirst) := by
  intro setting
  have hpassive : ∀ native ∈ setting.natives, native.Passive := by
    intro native hnative n args i f hvalue
    obtain rfl : native = firstArgument := Array.mem_singleton.mp hnative
    cases args with
    | nil => simp [firstArgument] at hvalue
    | cons arg more =>
        have harg : arg = .closure i f := by simpa [firstArgument] using hvalue
        exact harg ▸ List.mem_cons_self
  have hrun : (final (exec setting 10 0 printFirst handing)).output = #[⟨"true", false⟩] ∧
      (final (exec setting 10 0 printFirst handing)).nativeCalls = 1 := by
    decide +kernel
  exact ⟨hpassive, hrun.1, hrun.2, (evaluation_local hpassive 10).2.1 0 printFirst⟩

end Eval

end LoxLang
