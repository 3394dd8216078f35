import LoxLang.Proofs.Eval.Sim

set_option autoImplicit false

/-! # Runs of the same tree

When corresponding tokens are equal, so are corresponding trees, functions and values, and the two
runs of a simulation are runs of the same program, from one store or from two. What a native function
has to do for that is little: it must not bring function values into the program that were not given
to it. -/

namespace LoxLang

/-- A native function that makes no function values: one that it answers with was an argument. -/
def Native.Passive (native : Native) : Prop :=
  ∀ n args i f, native.run n args = .value (.closure i f) → .closure i f ∈ args

section
variable {P : Pairing} (hP : ∀ {ρ : Role} {t u : Token}, P.like.token ρ t u → u = t)

include hP

theorem Pairing.ClosureRel.eq {f g : Closure} (h : P.ClosureRel f g) : g = f := by
  obtain ⟨name, params, body, scope⟩ := f
  obtain ⟨name', params', body', scope'⟩ := g
  have hscope : scope' = scope := h.scope
  have hname : name' = name := hP h.name
  have hparams : params' = params := tokens_eq hP h.params
  have hbody : body' = body := Stmt.likeAll_eq hP h.body
  rw [hscope, hname, hparams, hbody]

theorem Pairing.valueRel_eq {v w : Value} (h : P.ValueRel v w) : w = v := by
  cases h with
  | closure i h => rw [Pairing.ClosureRel.eq hP h]
  | _ => rfl

theorem Pairing.valuesRel_eq {vs ws : List Value} (h : List.Forall₂ P.ValueRel vs ws) :
    ws = vs := by
  induction h with
  | nil => rfl
  | cons h _ ih => rw [Pairing.valueRel_eq hP h, ih]

end

namespace Sim

variable {S : Sim}

/-- A passive native function answers alike in runs of the same tree that call it at the same moments,
or at any moments if it does not tell them apart. -/
theorem nativeRel_of_passive {native : Native}
    (hS : ∀ {ρ : Role} {t u : Token}, S.like.token ρ t u → u = t) (h : native.Passive)
    (hmoment : ∀ {n m : Nat}, S.moment n m → native.run m = native.run n)
    (hbreak : S.stop .breakdown .breakdown ∨ ∀ n args, native.run n args ≠ .breakdown) :
    S.NativeRel native native where
  arity := rfl
  run := by
    intro n m args args' hnm hargs
    have heq : args' = args := Pairing.valuesRel_eq hS hargs
    subst heq
    rw [hmoment hnm]
    cases hreply : native.run n args' with
    | value v =>
        -- A function that comes back was an argument, and those correspond to themselves.
        refine .value (Value.rel_self v fun i f hv => ?_)
        have hmem : .closure i f ∈ args' := h n args' i f (by rw [hreply, hv])
        have hself := List.forall₂_same.mp hargs _ hmem
        cases hself with
        | closure _ hf => exact hf
    | failure message => exact .failure message
    | breakdown =>
        rcases hbreak with hstop | hnever
        · exact .breakdown hstop
        · exact absurd hreply (hnever n args')
    | pending => exact .pending

/-- What holds of all native functions holds of the one with some number. -/
theorem natives_rel {natives : Array Native} (h : ∀ native ∈ natives, S.NativeRel native native)
    (index : Nat) : Option.Rel S.NativeRel natives[index]? natives[index]? := by
  cases hnative : natives[index]? with
  | none => exact .none
  | some native => exact .some (h native (Array.mem_of_getElem? hnative))

/-- A run beside itself: it stops only in the ways there are for both, and it ends in a store that
corresponds to itself. -/
theorem execAll_self (hS : S.Lawful) (hsame : S.right = S.left)
    (hclosed : ∀ stop, ¬ S.escape stop) (hexhausted : S.stop .exhausted .exhausted) (bound : Nat)
    {scope : Nat} (hscope : S.region scope) {stmts : List Stmt}
    (hstmts : List.Forall₂ (Stmt.Like S.like) stmts stmts) {state : State}
    (hstate : S.StateRel state.depth state state) :
    (∃ flow last, Eval.execAll S.left bound scope stmts state = .ok flow last ∧
        S.StoreRel last.store last.store) ∨
      ∃ stop last, Eval.execAll S.left bound scope stmts state = .error stop last ∧
        S.stop stop stop ∧ S.StoreRel last.store last.store := by
  have hbounds : S.Bounds bound bound := Or.inl ⟨rfl, hexhausted⟩
  have hends := execAll_runs hS hbounds hscope hstmts _ _ hstate
  rw [hsame] at hends
  rcases hends.cases hclosed with
    ⟨flow, _, last, _, hrun, hrun', -, hlast⟩ | ⟨stop, _, last, _, hrun, hrun', hstop, hlast⟩
  · rw [hrun] at hrun'
    cases hrun'
    exact Or.inl ⟨flow, last, hrun, hlast.store⟩
  · rw [hrun] at hrun'
    cases hrun'
    exact Or.inr ⟨stop, last, hrun, hstop, hlast.store⟩

end Sim

end LoxLang
