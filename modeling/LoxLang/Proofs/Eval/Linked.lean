import LoxLang.Proofs.Eval.Upkeep
import LoxLang.Proofs.Store.Links
import LoxLang.Proofs.Tree.Parts

set_option autoImplicit false

/-! # Runs that differ by scopes that bind nothing

The same tree, evaluated in scopes from which two sides see the same, does the same on both sides:
it writes the same, ends in the same way and leaves states that correspond under links that have grown
(`Links.evalWith_runs`, `Links.execWith_runs`, `Links.invoke_runs`).

A statement that declares something in its scope is an exception. It takes twins, because a scope that
only one side has would no longer be one that binds nothing. Where that matters the statement is asked
for the names it adds to its scope (`Stmt.gains`). -/

namespace LoxLang

namespace Links

open Eval

/-- How two runs end. -/
def Ends (W : Links) {α β : Type} (good : Links → α → β → Prop) :
    EStateM.Result Stop State α → EStateM.Result Stop State β → Prop
  | .ok a s, .ok b t => ∃ V, W.Grows V ∧ good V a b ∧ V.StateRel s t
  | .error e s, .error f t => f = e ∧ ∃ V, W.Grows V ∧ V.StateRel s t
  | _, _ => False

/-- Two computations that end alike from all states that correspond. -/
def Runs (W : Links) {α β : Type} (good : Links → α → β → Prop) (x : Eval α) (y : Eval β) : Prop :=
  ∀ s t, W.StateRel s t → W.Ends good (x s) (y t)

/-- Ways for a statement to end that correspond. -/
inductive FlowRel (W : Links) : Flow → Flow → Prop
  | normal : FlowRel W .normal .normal
  | returning {v w : Value} : W.ValueRel v w → FlowRel W (.returning v) (.returning w)

/-- Values that correspond one by one. -/
abbrev ValuesRel (W : Links) : List Value → List Value → Prop :=
  List.Forall₂ W.ValueRel

/-- Steps that only change the state have nothing to compare but that. -/
def Done (_ : Links) (_ _ : Unit) : Prop :=
  True

/-! ## Running one after the other -/

section
variable {W V : Links} {α β γ δ : Type} {good : Links → α → β → Prop} {goal : Links → γ → δ → Prop}
  {x : Eval α} {y : Eval β} {f : α → Eval γ} {g : β → Eval δ}

/-- Both come to their ends, or both stop in the same way. -/
theorem Ends.cases {r : EStateM.Result Stop State α} {r' : EStateM.Result Stop State β}
    (h : W.Ends good r r') :
    ∃ V s t, W.Grows V ∧ V.StateRel s t ∧
      ((∃ a b, r = .ok a s ∧ r' = .ok b t ∧ good V a b) ∨
        ∃ stop, r = .error stop s ∧ r' = .error stop t) := by
  cases r with
  | ok a s =>
      cases r' with
      | ok b t =>
          obtain ⟨V, hWV, hgood, hst⟩ := h
          exact ⟨V, s, t, hWV, hst, Or.inl ⟨a, b, rfl, rfl, hgood⟩⟩
      | error e t => exact h.elim
  | error e s =>
      cases r' with
      | ok b t => exact h.elim
      | error e' t =>
          obtain ⟨rfl, V, hWV, hst⟩ := h
          exact ⟨V, s, t, hWV, hst, Or.inr ⟨e', rfl, rfl⟩⟩

theorem Ends.earlier {r : EStateM.Result Stop State α} {r' : EStateM.Result Stop State β}
    (h : V.Ends good r r') (hWV : W.Grows V) : W.Ends good r r' := by
  obtain ⟨U, s, t, hVU, hst, ⟨a, b, rfl, rfl, hgood⟩ | ⟨stop, rfl, rfl⟩⟩ := h.cases
  · exact ⟨U, hWV.trans hVU, hgood, hst⟩
  · exact ⟨rfl, U, hWV.trans hVU, hst⟩

theorem runs_pure {a : α} {b : β} (h : good W a b) : W.Runs good (pure a) (pure b) :=
  fun _ _ hst => ⟨W, .refl W, h, hst⟩

theorem runs_throw (stop : Stop) : W.Runs good (throw stop : Eval α) (throw stop : Eval β) :=
  fun _ _ hst => ⟨rfl, W, .refl W, hst⟩

theorem Runs.bind (hx : W.Runs good x y)
    (hf : ∀ V a b, W.Grows V → good V a b → V.Runs goal (f a) (g b)) :
    W.Runs goal (x >>= f) (y >>= g) := by
  intro s t hst
  obtain ⟨V, s', t', hWV, hst', ⟨a, b, hxs, hyt, hgood⟩ | ⟨stop, hxs, hyt⟩⟩ := (hx s t hst).cases
  · rw [bind_run, bind_run, hxs, hyt]
    exact (hf V a b hWV hgood s' t' hst').earlier hWV
  · rw [bind_run, bind_run, hxs, hyt]
    exact ⟨rfl, V, hWV, hst'⟩

theorem runs_ifTruthy {v w : Value} {x' : Eval α} {y' : Eval β} (hv : W.ValueRel v w)
    (hthen : W.Runs good x y) (helse : W.Runs good x' y') :
    W.Runs good (if v.isTruthy then x else x') (if w.isTruthy then y else y') := by
  rw [hv.isTruthy]
  by_cases htrue : v.isTruthy = true
  · rw [if_pos htrue, if_pos htrue]
    exact hthen
  · rw [if_neg htrue, if_neg htrue]
    exact helse

end

/-! ## Single steps -/

section
variable {W : Links} {α β : Type} {good : Links → α → β → Prop} {n m : Nat} {v w v' w' : Value}

theorem runs_get (hsees : W.Sees n m) (name : Token) :
    W.Runs ValueRel (Eval.get n name) (Eval.get m name) := by
  intro s t hst
  unfold Eval.get
  rcases optionRel_cases (hst.store.get name.lexeme hsees) with ⟨hs, ht⟩ | ⟨v, w, hs, ht, hv⟩
  · rw [hs, ht]
    exact ⟨rfl, W, .refl W, hst⟩
  · rw [hs, ht]
    exact ⟨W, .refl W, hv, hst⟩

theorem runs_define (htwin : W.twin n m) (name : String) (hv : W.ValueRel v w) :
    W.Runs Done (define n name v) (define m name w) :=
  fun _ _ hst => ⟨W, .refl W, trivial, { hst with store := hst.store.define htwin name hv }⟩

/-- The scopes in which a name is found are twins, wherever the search has started. -/
theorem runs_assign (hsees : W.Sees n m) (name : Token) (hv : W.ValueRel v w) :
    W.Runs Done (assign n name v) (assign m name w) := by
  intro s t hst
  unfold assign
  rcases optionRel_cases (hst.store.owner name.lexeme hsees) with
    ⟨hs, ht⟩ | ⟨owner, owner', hs, ht, htwin⟩
  · rw [hs, ht]
    exact ⟨rfl, W, .refl W, hst⟩
  · rw [hs, ht]
    exact runs_define htwin name.lexeme hv s t hst

theorem runs_newScope (hsees : W.Sees n m) :
    W.Runs Links.twin (newScope n) (newScope m) := by
  intro s t hst
  exact ⟨_, W.grows_addTwin _ _, Or.inr ⟨rfl, rfl⟩,
    { hst with store := hst.store.newScope hsees }⟩

theorem runs_newClosure {f g : Closure} (h : SameCode W.Sees f g) :
    W.Runs ValueRel (newClosure f) (newClosure g) := by
  intro s t hst
  have hnumber : t.store.closures = s.store.closures := hst.store.closures
  refine ⟨W, .refl W, ?_, { hst with store := hst.store.newClosure }⟩
  rw [hnumber]
  exact .closure _ h

theorem valueRel_text (hv : W.ValueRel v w) : w.text = v.text :=
  hv.text fun _ _ hfg => congrArg Token.lexeme hfg.name

theorem runs_write (text : String) (echo : Bool) :
    W.Runs Done (write text echo) (write text echo) := by
  intro s t hst
  refine ⟨W, .refl W, trivial, { hst with output := ?_ }⟩
  exact congrArg (Array.push · ⟨text, echo⟩) hst.output

theorem runs_echo (setting : Setting) (e : Expr) (hv : W.ValueRel v w) :
    W.Runs Done (echo setting e v) (echo setting e w) := by
  unfold echo
  rw [valueRel_text hv]
  by_cases hecho : (setting.echo && !e.isAssign) = true
  · rw [if_pos hecho]
    exact runs_write _ _
  · rw [if_neg hecho]
    exact runs_pure trivial

/-- A call counts as active while its body runs, on both sides. -/
theorem runs_active (setting : Setting) (paren : Token) {x : Eval α} {y : Eval β}
    (h : W.Runs good x y) : W.Runs good (active setting paren x) (active setting paren y) := by
  intro s t hst
  unfold active
  rw [hst.depth]
  by_cases hlimit : setting.maxDepth ≤ s.depth
  · rw [if_pos hlimit, if_pos hlimit]
    exact ⟨rfl, W, .refl W, hst⟩
  · rw [if_neg hlimit, if_neg hlimit]
    have hentered : W.StateRel { s with depth := s.depth + 1 } { t with depth := s.depth + 1 } :=
      ⟨hst.store, rfl, hst.output, hst.nativeCalls⟩
    have hleave {V : Links} {a b : State} (hab : V.StateRel a b) :
        V.StateRel { a with depth := a.depth - 1 } { b with depth := b.depth - 1 } :=
      ⟨hab.store, congrArg (· - 1) hab.depth, hab.output, hab.nativeCalls⟩
    obtain ⟨V, a, b, hWV, hab, ⟨u, v, hx, hy, hgood⟩ | ⟨stop, hx, hy⟩⟩ := (h _ _ hentered).cases
    · rw [hx, hy]
      exact ⟨V, hWV, hgood, hleave hab⟩
    · rw [hx, hy]
      exact ⟨rfl, V, hWV, hleave hab⟩

/-- What an operator results in is no function, so it corresponds to itself. -/
theorem runs_operation {op : Token} {x : Eval Value} (h : Operation op x) :
    W.Runs ValueRel x x := by
  rcases h with ⟨value, rfl, hvalue⟩ | ⟨fault, rfl, -⟩ | rfl
  · exact runs_pure (Value.rel_self value fun i f heq => absurd heq (hvalue i f))
  · exact runs_throw _
  · exact runs_throw _

end

/-- Operators do not look into functions. -/
theorem applyBinary_rel {C : Closure → Closure → Prop} {v w v' w' : Value} (op : Token)
    (hv : Value.Rel C v v') (hw : Value.Rel C w w') :
    applyBinary op v' w' = applyBinary op v w := by
  unfold applyBinary
  rw [hv.same hw]
  cases hv <;> cases hw <;> rfl

theorem applyUnary_rel {C : Closure → Closure → Prop} {v v' : Value} (op : Token)
    (hv : Value.Rel C v v') : applyUnary op v' = applyUnary op v := by
  unfold applyUnary
  rw [hv.isTruthy]
  cases hv <;> rfl

/-! ## Calls -/

/-- Things to call that correspond. -/
inductive CallableRel (setting : Setting) (W : Links) : Callable → Callable → Prop
  | closure {f g : Closure} : SameCode W.Sees f g → CallableRel setting W (.closure f) (.closure g)
  | native {native : Native} :
    native ∈ setting.natives → CallableRel setting W (.native native) (.native native)

/-- Calls of functions that correspond end alike. -/
def InvokeRel (inv : Invoke) : Prop :=
  ∀ {W : Links} {f g : Closure} {args args' : List Value}, SameCode W.Sees f g →
    W.ValuesRel args args' → W.Runs ValueRel (inv f args) (inv g args')

section
variable {setting : Setting} {W V : Links} {inv : Invoke}

theorem valuesRel_grows {vs ws : List Value} (h : W.ValuesRel vs ws) (hWV : W.Grows V) :
    V.ValuesRel vs ws :=
  h.imp fun _ _ hv => valueRel_grows hv hWV

theorem CallableRel.grows {f g : Callable} (h : CallableRel setting W f g) (hWV : W.Grows V) :
    CallableRel setting V f g := by
  cases h with
  | closure h => exact .closure (sameCode_grows h hWV)
  | native h => exact .native h

theorem CallableRel.arity {f g : Callable} (h : CallableRel setting W f g) : g.arity = f.arity := by
  cases h with
  | closure h => exact congrArg (fun params => (params.length : Int)) h.params
  | native _ => rfl

theorem callable?_rel (setting : Setting) {v w : Value} (hv : W.ValueRel v w) :
    Option.Rel (CallableRel setting W) (callable? setting v) (callable? setting w) := by
  cases hv with
  | closure i h => exact .some (.closure h)
  | native i =>
      dsimp only [callable?]
      cases hnative : setting.natives[i]? with
      | none => exact .none
      | some native => exact .some (.native (Array.mem_of_getElem? hnative))
  | _ => exact .none

variable (hnatives : ∀ native ∈ setting.natives, native.Oblivious)

include hnatives

omit hnatives in
theorem runs_countNative : W.Runs (fun _ => Eq) countNative countNative := by
  intro s t hst
  refine ⟨W, .refl W, hst.nativeCalls.symm, { hst with nativeCalls := ?_ }⟩
  exact congrArg (· + 1) hst.nativeCalls

theorem runs_callNative {native : Native} {args args' : List Value}
    (hmem : native ∈ setting.natives) (hargs : W.ValuesRel args args') :
    W.Runs ValueRel (callNative native args) (callNative native args') := by
  refine runs_countNative.bind fun V earlier _ hWV hsame => ?_
  subst hsame
  have hseen : ∀ f g, SameCode V.Sees f g →
      g.name.lexeme = f.name.lexeme ∧ g.params.length = f.params.length :=
    fun f g hfg => ⟨congrArg Token.lexeme hfg.name, congrArg List.length hfg.params⟩
  have hreply := hnatives native hmem _ hseen earlier args args' (valuesRel_grows hargs hWV)
  generalize native.run earlier args = reply, native.run earlier args' = reply' at hreply ⊢
  cases hreply with
  | value hv => exact runs_pure hv
  | failure message => exact runs_throw _
  | breakdown _ => exact runs_throw _
  | pending => exact runs_throw _

theorem runs_callWith (hinv : InvokeRel inv) (paren : Token) {f g : Callable}
    {args args' : List Value} (hf : CallableRel setting W f g) (hargs : W.ValuesRel args args') :
    W.Runs ValueRel (callWith setting inv paren f args) (callWith setting inv paren g args') := by
  unfold callWith
  rw [hf.arity, ← hargs.length_eq]
  by_cases harity : (args.length : Int) = f.arity
  · rw [if_pos harity, if_pos harity]
    cases hf with
    | closure hf => exact runs_active setting paren (hinv hf hargs)
    | native hmem => exact runs_active setting paren (runs_callNative hnatives hmem hargs)
  · rw [if_neg harity, if_neg harity]
    exact runs_throw _

end

/-! ## Expressions -/

section
variable {setting : Setting} {inv : Invoke}

mutual

theorem evalWith_runs (hnatives : ∀ native ∈ setting.natives, native.Oblivious)
    (hinv : InvokeRel inv) {W : Links} {n m : Nat} (hsees : W.Sees n m) :
    ∀ e : Expr, W.Runs ValueRel (evalWith setting inv n e) (evalWith setting inv m e)
  | .missing => by
      rw [evalWith, evalWith]
      exact runs_throw _
  | .assign name value => by
      rw [evalWith, evalWith]
      refine (evalWith_runs hnatives hinv hsees value).bind fun V v w hWV hv => ?_
      refine (runs_assign (hsees.grows hWV) name hv).bind fun U _ _ hVU _ => ?_
      exact runs_pure (valueRel_grows hv hVU)
  | .binary left op right => by
      rw [evalWith, evalWith]
      refine (evalWith_runs hnatives hinv hsees left).bind fun V v w hWV hv => ?_
      refine (evalWith_runs hnatives hinv (hsees.grows hWV) right).bind fun U v' w' hVU hv' => ?_
      rw [applyBinary_rel op (valueRel_grows hv hVU) hv']
      exact runs_operation (applyBinary_operation op v v')
  | .call callee paren args => by
      rw [evalWith, evalWith]
      refine (evalWith_runs hnatives hinv hsees callee).bind fun V v w hWV hv => ?_
      rcases optionRel_cases (callable?_rel setting hv) with
        ⟨hf, hg⟩ | ⟨f, g, hf, hg, hfg⟩
      · rw [hf, hg]
        exact runs_throw _
      · rw [hf, hg]
        -- What is called has been found before the arguments, and corresponds still after them.
        have hargs := evalAllWith_runs hnatives hinv (hsees.grows hWV) args
        refine hargs.bind fun U values values' hVU hvalues => ?_
        exact runs_callWith hnatives hinv paren (hfg.grows hVU) hvalues
  | .group inner => by
      rw [evalWith, evalWith]
      exact evalWith_runs hnatives hinv hsees inner
  | .literal value => by
      rw [evalWith, evalWith]
      exact runs_pure (Value.Rel.literal value)
  | .logical left op right => by
      rw [evalWith, evalWith]
      refine (evalWith_runs hnatives hinv hsees left).bind fun V v w hWV hv => ?_
      have hright := evalWith_runs hnatives hinv (hsees.grows hWV) right
      cases op.kind with
      | kwOr => exact runs_ifTruthy hv (runs_pure hv) hright
      | kwAnd => exact runs_ifTruthy hv hright (runs_pure hv)
      | _ => exact runs_throw _
  | .unary op right => by
      rw [evalWith, evalWith]
      refine (evalWith_runs hnatives hinv hsees right).bind fun V v w _ hv => ?_
      rw [applyUnary_rel op hv]
      exact runs_operation (applyUnary_operation op v)
  | .name name => by
      rw [evalWith, evalWith]
      exact runs_get hsees name

theorem evalAllWith_runs (hnatives : ∀ native ∈ setting.natives, native.Oblivious)
    (hinv : InvokeRel inv) {W : Links} {n m : Nat} (hsees : W.Sees n m) :
    ∀ es : List Expr,
      W.Runs ValuesRel (evalAllWith setting inv n es) (evalAllWith setting inv m es)
  | [] => by
      rw [evalAllWith, evalAllWith]
      exact runs_pure .nil
  | e :: more => by
      rw [evalAllWith, evalAllWith]
      refine (evalWith_runs hnatives hinv hsees e).bind fun V v w hWV hv => ?_
      refine (evalAllWith_runs hnatives hinv (hsees.grows hWV) more).bind fun U vs ws hVU hvs => ?_
      exact runs_pure (.cons (valueRel_grows hv hVU) hvs)

end

theorem evalOptional_runs (hnatives : ∀ native ∈ setting.natives, native.Oblivious)
    (hinv : InvokeRel inv) {W : Links} {n m : Nat} (hsees : W.Sees n m) (e : Option Expr) :
    W.Runs ValueRel (evalOptional setting inv n e) (evalOptional setting inv m e) := by
  cases e with
  | none => exact runs_pure .nil
  | some e => exact evalWith_runs hnatives hinv hsees e

end

/-! ## Statements -/

section
variable {setting : Setting} {inv : Invoke}

/-- A loop, whose parts end alike in whatever links there are by then. -/
theorem repeatWhile_runs {test test' : Eval Value} {body body' : Eval Flow} {W : Links}
    (htest : ∀ V, W.Grows V → V.Runs ValueRel test test')
    (hbody : ∀ V, W.Grows V → V.Runs FlowRel body body') (turns : Nat) :
    W.Runs FlowRel (repeatWhile test body turns) (repeatWhile test' body' turns) := by
  induction turns generalizing W with
  | zero => exact runs_throw _
  | succ turns ih =>
      rw [repeatWhile, repeatWhile]
      refine (htest W (.refl W)).bind fun V v w hWV hv => ?_
      refine runs_ifTruthy hv ?_ (runs_pure .normal)
      refine (hbody V hWV).bind fun U flow flow' hVU hflow => ?_
      have hWU : W.Grows U := hWV.trans hVU
      cases hflow with
      | normal =>
          exact ih (fun X hUX => htest X (hWU.trans hUX)) fun X hUX => hbody X (hWU.trans hUX)
      | returning hv => exact runs_pure (.returning hv)

/-- The scopes suit the statements that add these names: they are twins, or there is no such name. -/
def Suits (W : Links) (n m : Nat) (names : List String) : Prop :=
  W.Sees n m ∧ (names = [] ∨ W.twin n m)

section
variable {W V : Links} {n m : Nat} {names more : List String}

theorem Suits.grows (h : W.Suits n m names) (hWV : W.Grows V) : V.Suits n m names :=
  ⟨h.1.grows hWV, h.2.imp_right hWV.twin⟩

theorem Suits.twin (h : W.Suits n m names) (hnames : names ≠ []) : W.twin n m :=
  h.2.resolve_left hnames

theorem Suits.subset (h : W.Suits n m names) (hmore : ∀ name ∈ more, name ∈ names) :
    W.Suits n m more := by
  refine ⟨h.1, h.2.imp_left fun hnone => ?_⟩
  rw [hnone] at hmore
  exact List.eq_nil_iff_forall_not_mem.2 fun name hname => List.not_mem_nil (hmore name hname)

theorem suits_twin (h : W.twin n m) : W.Suits n m names :=
  ⟨.twin h, Or.inr h⟩

end

mutual

theorem execWith_runs (hnatives : ∀ native ∈ setting.natives, native.Oblivious)
    (hinv : InvokeRel inv) (turns : Nat) {W : Links} {n m : Nat} :
    ∀ s : Stmt, W.Suits n m s.gains →
      W.Runs FlowRel (execWith setting inv turns n s) (execWith setting inv turns m s)
  | .missing, _ => by
      rw [execWith, execWith]
      exact runs_throw _
  | .block body, h => by
      rw [execWith, execWith]
      refine (runs_newScope h.1).bind fun V inner inner' _ htwin => ?_
      exact execAllWith_runs hnatives hinv turns body (suits_twin htwin)
  | .expression value, h => by
      rw [execWith, execWith]
      refine (evalWith_runs hnatives hinv h.1 value).bind fun V v w _ hv => ?_
      refine (runs_echo setting value hv).bind fun _ _ _ _ _ => ?_
      exact runs_pure .normal
  | .function name params body, h => by
      have htwin : W.twin n m := h.twin (by simp [Stmt.gains])
      rw [execWith, execWith]
      have hnew : W.Runs ValueRel (newClosure ⟨name, params, body, n⟩)
          (newClosure ⟨name, params, body, m⟩) := runs_newClosure ⟨rfl, rfl, rfl, h.1⟩
      refine hnew.bind fun V v w hWV hv => ?_
      refine (runs_define (hWV.twin htwin) name.lexeme hv).bind fun _ _ _ _ _ => ?_
      exact runs_pure .normal
  | .branch test thenDo none, h => by
      rw [execWith, execWith]
      refine (evalWith_runs hnatives hinv h.1 test).bind fun V v w hWV hv => ?_
      have hthen : V.Suits n m thenDo.gains := h.grows hWV
      exact runs_ifTruthy hv (execWith_runs hnatives hinv turns thenDo hthen) (runs_pure .normal)
  | .branch test thenDo (some elseDo), h => by
      rw [execWith, execWith]
      refine (evalWith_runs hnatives hinv h.1 test).bind fun V v w hWV hv => ?_
      have hthen : V.Suits n m thenDo.gains :=
        (h.grows hWV).subset fun name hname => List.mem_append_left _ hname
      have helse : V.Suits n m elseDo.gains :=
        (h.grows hWV).subset fun name hname => List.mem_append_right _ hname
      exact runs_ifTruthy hv (execWith_runs hnatives hinv turns thenDo hthen)
        (execWith_runs hnatives hinv turns elseDo helse)
  | .print value, h => by
      rw [execWith, execWith]
      refine (evalWith_runs hnatives hinv h.1 value).bind fun V v w _ hv => ?_
      rw [valueRel_text hv]
      refine (runs_write v.text false).bind fun _ _ _ _ _ => ?_
      exact runs_pure .normal
  | .ret keyword value, h => by
      rw [execWith, execWith]
      refine (evalOptional_runs hnatives hinv h.1 value).bind fun V v w _ hv => ?_
      exact runs_pure (.returning hv)
  | .declare name initial, h => by
      have htwin : W.twin n m := h.twin (by simp [Stmt.gains])
      rw [execWith, execWith]
      refine (evalOptional_runs hnatives hinv h.1 initial).bind fun V v w hWV hv => ?_
      refine (runs_define (hWV.twin htwin) name.lexeme hv).bind fun _ _ _ _ _ => ?_
      exact runs_pure .normal
  | .loop test body, h => by
      rw [execWith, execWith]
      -- By the time of a later turn the links have grown, and the scopes still suit the body.
      have hbody (V : Links) (hWV : W.Grows V) : V.Suits n m body.gains := h.grows hWV
      exact repeatWhile_runs (fun V hWV => evalWith_runs hnatives hinv (h.1.grows hWV) test)
        (fun V hWV => execWith_runs hnatives hinv turns body (hbody V hWV)) turns

theorem execAllWith_runs (hnatives : ∀ native ∈ setting.natives, native.Oblivious)
    (hinv : InvokeRel inv) (turns : Nat) {W : Links} {n m : Nat} :
    ∀ ss : List Stmt, W.Suits n m (Stmt.allGains ss) →
      W.Runs FlowRel (execAllWith setting inv turns n ss) (execAllWith setting inv turns m ss)
  | [], _ => by
      rw [execAllWith, execAllWith]
      exact runs_pure .normal
  | s :: more, h => by
      have hs : W.Suits n m s.gains := h.subset fun name hname => List.mem_append_left _ hname
      have hmore : W.Suits n m (Stmt.allGains more) :=
        h.subset fun name hname => List.mem_append_right _ hname
      rw [execAllWith, execAllWith]
      refine (execWith_runs hnatives hinv turns s hs).bind fun V flow flow' hWV hflow => ?_
      cases hflow with
      | normal => exact execAllWith_runs hnatives hinv turns more (hmore.grows hWV)
      | returning hv => exact runs_pure (.returning hv)

end

end

/-! ## The knot -/

section
variable {setting : Setting} {W : Links} {n m : Nat}

theorem bindings?_rel (params : List Token) {args args' : List Value}
    (hargs : W.ValuesRel args args') :
    Option.Rel W.BindingsRel (bindings? params args) (bindings? params args') := by
  induction params generalizing args args' with
  | nil => exact .some .nil
  | cons param params ih =>
      cases hargs with
      | nil => exact .none
      | @cons v w vs ws hv hvs =>
          rw [bindings?, bindings?]
          rcases optionRel_cases (ih hvs) with ⟨hbs, hbs'⟩ | ⟨bs, bs', hbs, hbs', hrel⟩
          · rw [hbs, hbs']
            exact .none
          · rw [hbs, hbs']
            exact .some (.cons ⟨rfl, hv⟩ hrel)

theorem runs_bindAll (htwin : W.twin n m) (params : List Token) {args args' : List Value}
    (hargs : W.ValuesRel args args') :
    W.Runs Done (bindAll n params args) (bindAll m params args') := by
  unfold bindAll
  rcases optionRel_cases (bindings?_rel params hargs) with ⟨hbs, hbs'⟩ | ⟨bs, bs', hbs, hbs', hrel⟩
  · rw [hbs, hbs']
    exact runs_throw _
  · rw [hbs, hbs']
    exact fun s t hst =>
      ⟨W, .refl W, trivial, { hst with store := hst.store.defineAll htwin hrel }⟩

variable (hnatives : ∀ native ∈ setting.natives, native.Oblivious) (bound : Nat)

include hnatives

theorem invoke_runs : InvokeRel (invoke setting bound) := by
  induction bound with
  | zero =>
      intro W f g args args' _ _
      exact runs_throw _
  | succ bound ih =>
      -- The body runs in a new scope on both sides, and what it calls has a lower bound.
      intro W f g args args' hfg hargs
      rw [invoke, invoke, hfg.params, hfg.body]
      refine (runs_newScope hfg.scope).bind fun V scope scope' hWV htwin => ?_
      refine (runs_bindAll htwin f.params (valuesRel_grows hargs hWV)).bind fun U _ _ hVU _ => ?_
      have hbody := execAllWith_runs hnatives ih bound f.body (suits_twin (hVU.twin htwin))
      refine hbody.bind fun X flow flow' _ hflow => ?_
      cases hflow with
      | normal => exact runs_pure .nil
      | returning hv => exact runs_pure hv

theorem eval_runs (hsees : W.Sees n m) (e : Expr) :
    W.Runs ValueRel (eval setting bound n e) (eval setting bound m e) :=
  evalWith_runs hnatives (invoke_runs hnatives bound) hsees e

theorem exec_runs (s : Stmt) (h : W.Suits n m s.gains) :
    W.Runs FlowRel (exec setting bound n s) (exec setting bound m s) :=
  execWith_runs hnatives (invoke_runs hnatives bound) bound s h

theorem execAll_runs (ss : List Stmt) (h : W.Suits n m (Stmt.allGains ss)) :
    W.Runs FlowRel (execAll setting bound n ss) (execAll setting bound m ss) :=
  execAllWith_runs hnatives (invoke_runs hnatives bound) bound ss h

end

end Links

end LoxLang
