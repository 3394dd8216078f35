import LoxLang.Proofs.Eval.Locality
import LoxLang.Proofs.Eval.Upkeep

set_option autoImplicit false

/-! # What evaluation is made of

Evaluation of a tree goes through the evaluation of its parts, the arguments of a call, the body of
the function that is called, and so on. Each of these is a `Task`. A `Plan` tells one task in terms of
others: the tasks it comes to, one after the other, and the steps between them. Carried out, the plan
of a task is its evaluation (`Task.run_plan`), and the tasks of a plan are smaller than the one whose
plan it is (`Task.plan_fits`), so that facts about all tasks can be proved from one plan to the next.

The attempt of a call is a task without a plan, because the call is active for a part of it only. -/

namespace LoxLang

open Eval

/-- Something to evaluate, with the sort of its result. -/
inductive Task : Type → Type
  | expr (scope : Nat) (e : Expr) : Task Value
  | exprs (scope : Nat) (es : List Expr) : Task (List Value)
  | stmt (scope : Nat) (s : Stmt) : Task Flow
  | stmts (scope : Nat) (ss : List Stmt) : Task Flow
  /-- A loop, so many turns of it at most. -/
  | turns (scope : Nat) (condition : Expr) (body : Stmt) (n : Nat) : Task Flow
  /-- A call at a closing parenthesis, after the evaluation of what is called and of the arguments. -/
  | call (paren : Token) (callee : Callable) (args : List Value) : Task Value
  /-- What is done while a call is active. -/
  | active (callee : Callable) (args : List Value) : Task Value

/-- The evaluation of a task. -/
def Task.run (setting : Setting) (bound : Nat) : {α : Type} → Task α → Eval α
  | _, .expr scope e => eval setting bound scope e
  | _, .exprs scope es => evalAllWith setting (invoke setting bound) scope es
  | _, .stmt scope s => exec setting bound scope s
  | _, .stmts scope ss => execAll setting bound scope ss
  | _, .turns scope condition body n =>
    repeatWhile (eval setting bound scope condition) (exec setting bound scope body) n
  | _, .call paren callee args => callWith setting (invoke setting bound) paren callee args
  | _, .active (.closure function) args => invoke setting bound function args
  | _, .active (.native function) args => callNative function args

/-- What a task does: steps of its own, and other tasks in between, each with its bound. -/
inductive Plan (α : Type) : Type 1
  | done (x : Eval α)
  | op {β : Type} (x : Eval β) (more : β → Plan α)
  | sub {β : Type} (bound : Nat) (task : Task β) (more : β → Plan α)

namespace Plan

variable {α : Type}

/-- A plan carried out. -/
def run (setting : Setting) : Plan α → Eval α
  | done x => x
  | op x more => x >>= fun b => (more b).run setting
  | sub bound task more => task.run setting bound >>= fun b => (more b).run setting

/-- One task and nothing else. -/
def only (bound : Nat) (task : Task α) : Plan α :=
  sub bound task fun a => done (pure a)

theorem run_only (setting : Setting) (bound : Nat) (task : Task α) :
    (only bound task).run setting = task.run setting bound :=
  bind_pure _

/-- A task for an expression that may be absent. -/
def optional (bound scope : Nat) (e : Option Expr) (more : Value → Plan α) : Plan α :=
  match e with
  | none => more .nil
  | some e => sub bound (.expr scope e) more

end Plan

open Plan in
/-- The plan of a task. A call counts as one step here. -/
def Task.plan (setting : Setting) : {α : Type} → Nat → Task α → Plan α
  | _, _, .expr _ .missing => done (throw (.defect .missingExpression))
  | _, n, .expr scope (.assign name value) =>
    sub n (.expr scope value) fun v => op (assign scope name v) fun _ => done (pure v)
  | _, n, .expr scope (.binary left token right) =>
    sub n (.expr scope left) fun l => sub n (.expr scope right) fun r =>
      done (applyBinary token l r)
  | _, n, .expr scope (.call callee paren args) =>
    sub n (.expr scope callee) fun f =>
      match callable? setting f with
      | none => done (refuse .notCallable paren)
      | some target =>
        sub n (.exprs scope args) fun values => only n (.call paren target values)
  | _, n, .expr scope (.group inner) => only n (.expr scope inner)
  | _, _, .expr _ (.literal value) => done (pure value.toValue)
  | _, n, .expr scope (.logical left token right) =>
    sub n (.expr scope left) fun l =>
      match token.kind with
      | .kwOr => if l.isTruthy then done (pure l) else only n (.expr scope right)
      | .kwAnd => if l.isTruthy then only n (.expr scope right) else done (pure l)
      | _ => done (throw (.defect .unknownOperator))
  | _, n, .expr scope (.unary token right) =>
    sub n (.expr scope right) fun r => done (applyUnary token r)
  | _, _, .expr scope (.name name) => done (get scope name)
  | _, _, .exprs _ [] => done (pure [])
  | _, n, .exprs scope (e :: more) =>
    sub n (.expr scope e) fun v => sub n (.exprs scope more) fun vs => done (pure (v :: vs))
  | _, _, .stmt _ .missing => done (throw (.defect .missingStatement))
  | _, n, .stmt scope (.block body) =>
    op (newScope scope) fun inner => only n (.stmts inner body)
  | _, n, .stmt scope (.expression value) =>
    sub n (.expr scope value) fun v => op (echo setting value v) fun _ => done (pure .normal)
  | _, _, .stmt scope (.function name params body) =>
    op (newClosure ⟨name, params, body, scope⟩) fun f =>
      op (define scope name.lexeme f) fun _ => done (pure .normal)
  | _, n, .stmt scope (.branch condition thenDo elseDo) =>
    sub n (.expr scope condition) fun test =>
      if test.isTruthy then only n (.stmt scope thenDo)
      else match elseDo with
        | none => done (pure .normal)
        | some s => only n (.stmt scope s)
  | _, n, .stmt scope (.print value) =>
    sub n (.expr scope value) fun v => op (write v.text false) fun _ => done (pure .normal)
  | _, n, .stmt scope (.ret _ value) => optional n scope value fun v => done (pure (.returning v))
  | _, n, .stmt scope (.declare name initial) =>
    optional n scope initial fun v => op (define scope name.lexeme v) fun _ => done (pure .normal)
  | _, n, .stmt scope (.loop condition body) => only n (.turns scope condition body n)
  | _, _, .stmts _ [] => done (pure .normal)
  | _, n, .stmts scope (s :: more) =>
    sub n (.stmt scope s) fun flow =>
      match flow with
      | .normal => only n (.stmts scope more)
      | .returning value => done (pure (.returning value))
  | _, _, .turns _ _ _ 0 => done (throw .exhausted)
  | _, n, .turns scope condition body (k + 1) =>
    sub n (.expr scope condition) fun test =>
      if test.isTruthy then
        sub n (.stmt scope body) fun flow =>
          match flow with
          | .normal => only n (.turns scope condition body k)
          | .returning value => done (pure (.returning value))
      else done (pure .normal)
  | _, n, .call paren callee args => done (callWith setting (invoke setting n) paren callee args)
  | _, 0, .active (.closure _) _ => done (throw .exhausted)
  | _, n + 1, .active (.closure function) args =>
    op (newScope function.scope) fun scope =>
      op (bindAll scope function.params args) fun _ =>
        sub n (.stmts scope function.body) fun flow =>
          match flow with
          | .normal => done (pure .nil)
          | .returning value => done (pure value)
  | _, _, .active (.native function) args => done (callNative function args)

namespace Plan

variable {α β : Type} (setting : Setting)

theorem run_optional (bound scope : Nat) (e : Option Expr) (more : Value → Plan α) :
    (optional bound scope e more).run setting
      = evalOptional setting (invoke setting bound) scope e >>= fun v => (more v).run setting := by
  cases e with
  | none => rfl
  | some e => rfl

theorem run_ite {p : Prop} [Decidable p] (a b : Plan α) :
    (if p then a else b).run setting = if p then a.run setting else b.run setting := by
  by_cases h : p
  · rw [if_pos h, if_pos h]
  · rw [if_neg h, if_neg h]

end Plan

open Plan in
/-- The plan of a task is what its evaluation does. -/
theorem Task.run_plan (setting : Setting) {α : Type} (bound : Nat) (task : Task α) :
    (task.plan setting bound).run setting = task.run setting bound := by
  cases task with
  | expr scope e =>
      rw [Task.run, eval]
      cases e with
      | missing => rw [evalWith]; rfl
      | assign name value => rw [evalWith]; rfl
      | binary left token right => rw [evalWith]; rfl
      | call callee paren args =>
          rw [evalWith]
          refine bind_congr fun f => ?_
          dsimp only
          cases callable? setting f with
          | none => rfl
          | some target => exact bind_congr fun values => run_only setting bound _
      | group inner => rw [evalWith]; exact run_only setting bound _
      | literal value => rw [evalWith]; rfl
      | logical left token right =>
          rw [evalWith]
          refine bind_congr fun l => ?_
          dsimp only
          cases token.kind with
          | kwOr => rw [run_ite, run_only]; rfl
          | kwAnd => rw [run_ite, run_only]; rfl
          | _ => rfl
      | unary token right => rw [evalWith]; rfl
      | name name => rw [evalWith]; rfl
  | exprs scope es =>
      rw [Task.run]
      cases es with
      | nil => rw [evalAllWith]; rfl
      | cons e more => rw [evalAllWith]; rfl
  | stmt scope s =>
      rw [Task.run, exec]
      cases s with
      | missing => rw [execWith]; rfl
      | block body =>
          rw [execWith]
          exact bind_congr fun inner => run_only setting bound _
      | expression value => rw [execWith]; rfl
      | function name params body => rw [execWith]; rfl
      | branch condition thenDo elseDo =>
          cases elseDo with
          | none =>
              rw [execWith]
              refine bind_congr fun test => ?_
              rw [run_ite, run_only]
              rfl
          | some elseDo =>
              rw [execWith]
              refine bind_congr fun test => ?_
              rw [run_ite, run_only]
              dsimp only
              rw [run_only]
              rfl
      | print value => rw [execWith]; rfl
      | ret keyword value => rw [execWith, Task.plan, run_optional]; rfl
      | declare name initial => rw [execWith, Task.plan, run_optional]; rfl
      | loop condition body => rw [execWith]; exact run_only setting bound _
  | stmts scope ss =>
      rw [Task.run, execAll]
      cases ss with
      | nil => rw [execAllWith]; rfl
      | cons s more =>
          rw [execAllWith]
          refine bind_congr fun flow => ?_
          cases flow with
          | normal => exact run_only setting bound _
          | returning value => rfl
  | turns scope condition body n =>
      rw [Task.run]
      cases n with
      | zero => rw [repeatWhile]; rfl
      | succ n =>
          rw [repeatWhile]
          refine bind_congr fun test => ?_
          rw [run_ite]
          congr 1
          refine bind_congr fun flow => ?_
          cases flow with
          | normal => exact run_only setting bound _
          | returning value => rfl
  | call paren callee args => rfl
  | active callee args =>
      cases callee with
      | native function => rfl
      | closure function =>
          rw [Task.run]
          cases bound with
          | zero => rw [invoke]; rfl
          | succ bound =>
              rw [invoke]
              refine bind_congr fun scope => bind_congr fun _ => bind_congr fun flow => ?_
              cases flow with
              | normal => rfl
              | returning value => rfl

/-! ## Steps that have nothing to do with calls -/

/-- The way to stop for a call too many. -/
def Stop.overflow (paren : Token) : Stop :=
  .failure (RuntimeFault.stackOverflow.located paren)

theorem Stop.overflow_inj {paren paren' : Token} :
    Stop.overflow paren = .overflow paren' ↔ paren = paren' := by
  simp [Stop.overflow, RuntimeFault.located]

namespace Eval

variable {α β : Type}

/-- The computation leaves as many calls active as there were. -/
def Balanced (x : Eval α) : Prop :=
  ∀ s, (final (x s)).depth = s.depth

/-- The end of a computation that has nothing to do with calls. -/
def Calm (s : State) : EStateM.Result Stop State α → Prop
  | .ok _ t => t.depth = s.depth
  | .error stop t => t.depth = s.depth ∧ ∀ paren, stop ≠ .overflow paren

/-- A computation that has nothing to do with calls. -/
def Quiet (x : Eval α) : Prop :=
  ∀ s, Calm s (x s)

theorem Quiet.balanced {x : Eval α} (h : Quiet x) : Balanced x := by
  intro s
  have hs := h s
  cases hx : x s with
  | ok a t =>
      rw [hx] at hs
      exact hs
  | error stop t =>
      rw [hx] at hs
      exact hs.1

theorem Quiet.ne_overflow {x : Eval α} (h : Quiet x) (s t : State) (paren : Token) :
    x s ≠ .error (.overflow paren) t := by
  intro hx
  have hs := h s
  rw [hx] at hs
  exact hs.2 paren rfl

theorem quiet_pure (a : α) : Quiet (pure a : Eval α) :=
  fun _ => rfl

theorem quiet_throw {stop : Stop} (h : ∀ paren, stop ≠ .overflow paren) :
    Quiet (throw stop : Eval α) :=
  fun _ => ⟨rfl, h⟩

theorem quiet_defect (defect : TreeDefect) : Quiet (throw (.defect defect) : Eval α) :=
  quiet_throw fun _ => Stop.noConfusion

theorem quiet_refuse {fault : RuntimeFault} (h : fault.cause ≠ .stackOverflow) (token : Token) :
    Quiet (refuse fault token : Eval α) := by
  refine quiet_throw fun paren heq => h ?_
  simp only [Stop.overflow, RuntimeFault.located, Stop.failure.injEq,
    Diagnostic.runtime.injEq] at heq
  exact heq.2.1

theorem quiet_operation {op : Token} {x : Eval Value} (h : Operation op x) : Quiet x := by
  rcases h with ⟨value, rfl, -⟩ | ⟨fault, rfl, hcause⟩ | rfl
  · exact quiet_pure value
  · exact quiet_refuse (by simp [hcause]) op
  · exact quiet_defect _

theorem quiet_get (scope : Nat) (name : Token) : Quiet (get scope name) := by
  intro s
  unfold get
  cases s.store.get? scope name.lexeme with
  | some value => exact rfl
  | none => exact quiet_refuse (by simp [RuntimeFault.cause]) name s

theorem quiet_assign (scope : Nat) (name : Token) (value : Value) :
    Quiet (assign scope name value) := by
  intro s
  unfold assign
  cases s.store.owner? name.lexeme scope with
  | some owner => exact rfl
  | none => exact quiet_refuse (by simp [RuntimeFault.cause]) name s

theorem quiet_echo (setting : Setting) (e : Expr) (value : Value) :
    Quiet (echo setting e value) := by
  unfold echo
  by_cases h : (setting.echo && !e.isAssign) = true
  · rw [if_pos h]
    exact fun _ => rfl
  · rw [if_neg h]
    exact quiet_pure ()

theorem quiet_bindAll (scope : Nat) (params : List Token) (args : List Value) :
    Quiet (bindAll scope params args) := by
  unfold bindAll
  cases bindings? params args with
  | some bindings => exact fun _ => rfl
  | none => exact quiet_defect _

theorem quiet_answer (reply : NativeReply) : Quiet (answer reply) := by
  cases reply with
  | value value => exact quiet_pure value
  | failure message => exact quiet_throw (by simp [Stop.overflow, RuntimeFault.located])
  | breakdown => exact quiet_throw fun _ => Stop.noConfusion
  | pending => exact quiet_throw fun _ => Stop.noConfusion

theorem quiet_callNative (native : Native) (args : List Value) : Quiet (callNative native args) :=
  fun s => quiet_answer (native.run s.nativeCalls args)
    { s with nativeCalls := s.nativeCalls + 1 }

theorem Balanced.bind {x : Eval α} {f : α → Eval β} (hx : Balanced x) (hf : ∀ a, Balanced (f a)) :
    Balanced (x >>= f) := by
  intro s
  have hs := hx s
  rw [bind_run]
  cases hxs : x s with
  | ok a t =>
      rw [hxs] at hs
      exact (hf a t).trans hs
  | error stop t =>
      rw [hxs] at hs
      exact hs

theorem balanced_active {x : Eval α} (setting : Setting) (paren : Token) (hx : Balanced x) :
    Balanced (active setting paren x) := by
  intro s
  unfold active
  by_cases hlimit : setting.maxDepth ≤ s.depth
  · rw [if_pos hlimit]
    rfl
  · rw [if_neg hlimit]
    have hs := hx { s with depth := s.depth + 1 }
    cases hbody : x { s with depth := s.depth + 1 } with
    | ok a t =>
        have ht : t.depth = s.depth + 1 := by simpa [hbody, final] using hs
        simp [final, ht]
    | error stop t =>
        have ht : t.depth = s.depth + 1 := by simpa [hbody, final] using hs
        simp [final, ht]

/-- What is done while a call is active stops because there are calls enough already, or by itself. -/
theorem active_stops {x : Eval α} {setting : Setting} {paren : Token} {stop : Stop} {s t : State}
    (h : active setting paren x s = .error stop t) :
    setting.maxDepth ≤ s.depth ∧ stop = .overflow paren ∨
      s.depth < setting.maxDepth ∧ ∃ t', x { s with depth := s.depth + 1 } = .error stop t' := by
  unfold active at h
  by_cases hlimit : setting.maxDepth ≤ s.depth
  · rw [if_pos hlimit] at h
    cases h
    exact Or.inl ⟨hlimit, rfl⟩
  · rw [if_neg hlimit] at h
    refine Or.inr ⟨Nat.lt_of_not_le hlimit, ?_⟩
    cases hbody : x { s with depth := s.depth + 1 } with
    | ok a t' =>
        rw [hbody] at h
        cases h
    | error stop' t' =>
        rw [hbody] at h
        cases h
        exact ⟨t', rfl⟩

end Eval

/-! ## Plans get smaller -/

/-- How large the trees of a task are. A loop lies between its statement and the parts of that. -/
noncomputable def Task.weight : {α : Type} → Task α → Nat
  | _, .expr _ e => 2 * sizeOf e
  | _, .exprs _ es => 2 * sizeOf es
  | _, .stmt _ s => 2 * sizeOf s
  | _, .stmts _ ss => 2 * sizeOf ss
  | _, .turns _ condition body _ => 2 * (sizeOf condition + sizeOf body) + 1
  | _, .call _ _ _ => 0
  | _, .active _ _ => 0

/-- How much of a task is left that its trees do not tell: turns, or becoming active. -/
def Task.left : {α : Type} → Task α → Nat
  | _, .turns _ _ _ n => n
  | _, .call _ _ _ => 1
  | _, _ => 0

/-- One task is below another: its bound is lower, or its trees are smaller, or less of it is left. -/
def Task.Below {α β : Type} (n : Nat) (part : Task β) (bound : Nat) (task : Task α) : Prop :=
  n < bound ∨ n = bound ∧
    (part.weight < task.weight ∨ part.weight = task.weight ∧ part.left < task.left)

/-- What holds of a task if it does of those below holds of all tasks. -/
theorem Task.below_induction {P : {α : Type} → Nat → Task α → Prop}
    (step : ∀ {α : Type} (bound : Nat) (task : Task α),
      (∀ {β : Type} (n : Nat) (part : Task β), part.Below n bound task → P n part) → P bound task)
    {α : Type} (bound : Nat) (task : Task α) : P bound task :=
  step bound task fun n part _ => Task.below_induction step n part
termination_by (bound, task.weight, task.left)
decreasing_by
  rename_i hbelow
  rcases hbelow with hlt | ⟨rfl, hlt | ⟨heq, hlt⟩⟩
  · exact Prod.Lex.left _ _ hlt
  · exact Prod.Lex.right _ (Prod.Lex.left _ _ hlt)
  · rw [heq]
    exact Prod.Lex.right _ (Prod.Lex.right _ hlt)

/-- A plan whose own steps have nothing to do with calls and whose tasks are below some task. -/
def Plan.Fits {α β : Type} (bound : Nat) (task : Task β) : Plan α → Prop
  | .done x => Quiet x
  | .op x more => Quiet x ∧ ∀ b, (more b).Fits bound task
  | .sub n part more => part.Below n bound task ∧ ∀ b, (more b).Fits bound task

/-- A task that is the attempt of a call. -/
def Task.isCall : {α : Type} → Task α → Bool
  | _, .call _ _ _ => true
  | _, _ => false

section
variable {α β γ : Type} {bound : Nat} {part : Task β} {task : Task α}

theorem Task.below_of_weight (h : part.weight < task.weight) : part.Below bound bound task :=
  Or.inr ⟨rfl, Or.inl h⟩

theorem Plan.only_fits (h : part.weight < task.weight) : (Plan.only bound part).Fits bound task :=
  ⟨Task.below_of_weight h, fun b => quiet_pure b⟩

theorem Plan.optional_fits {scope : Nat} {e : Option Expr} {more : Value → Plan γ}
    (h : 2 * sizeOf e ≤ task.weight) (hmore : ∀ v, (more v).Fits bound task) :
    (Plan.optional bound scope e more).Fits bound task := by
  cases e with
  | none => exact hmore .nil
  | some e =>
      rw [Option.some.sizeOf_spec] at h
      have hlt : (Task.expr scope e).weight < task.weight := Nat.lt_of_lt_of_le (by
        rw [Task.weight]
        omega) h
      exact ⟨Task.below_of_weight hlt, hmore⟩

end

theorem Plan.fits_ite {α β : Type} {bound : Nat} {task : Task α} {p : Prop} [Decidable p]
    {a b : Plan β} (ha : a.Fits bound task) (hb : b.Fits bound task) :
    (if p then a else b).Fits bound task := by
  by_cases h : p
  · rw [if_pos h]
    exact ha
  · rw [if_neg h]
    exact hb

open Plan in
theorem Task.expr_fits (setting : Setting) (bound scope : Nat) (e : Expr) :
    ((Task.expr scope e).plan setting bound).Fits bound (.expr scope e) := by
  cases e with
  | missing => exact quiet_defect _
  | assign name value =>
      refine ⟨below_of_weight ?_, fun v => ⟨quiet_assign scope name v, fun _ => quiet_pure v⟩⟩
      simp only [weight, Expr.assign.sizeOf_spec]
      omega
  | binary left token right =>
      refine ⟨below_of_weight ?_, fun l => ⟨below_of_weight ?_, fun r => ?_⟩⟩
      · simp only [weight, Expr.binary.sizeOf_spec]
        omega
      · simp only [weight, Expr.binary.sizeOf_spec]
        omega
      · exact quiet_operation (applyBinary_operation token l r)
  | call callee paren args =>
      refine ⟨below_of_weight ?_, fun f => ?_⟩
      · simp only [weight, Expr.call.sizeOf_spec]
        omega
      · dsimp only
        cases callable? setting f with
        | none => exact quiet_refuse (by simp [RuntimeFault.cause]) paren
        | some target =>
            refine ⟨below_of_weight ?_, fun values => only_fits ?_⟩
            · simp only [weight, Expr.call.sizeOf_spec]
              omega
            · simp only [weight, Expr.call.sizeOf_spec]
              omega
  | group inner =>
      refine only_fits ?_
      simp only [weight, Expr.group.sizeOf_spec]
      omega
  | literal value => exact quiet_pure value.toValue
  | logical left token right =>
      have hright : (only bound (.expr scope right)).Fits bound
          (.expr scope (.logical left token right)) := by
        refine only_fits ?_
        simp only [weight, Expr.logical.sizeOf_spec]
        omega
      refine ⟨below_of_weight ?_, fun l => ?_⟩
      · simp only [weight, Expr.logical.sizeOf_spec]
        omega
      · dsimp only
        have hpure : (done (pure l) : Plan Value).Fits bound
          (.expr scope (.logical left token right)) := quiet_pure l
        cases token.kind with
        | kwOr => exact fits_ite hpure hright
        | kwAnd => exact fits_ite hright hpure
        | _ => exact quiet_defect _
  | unary token right =>
      refine ⟨below_of_weight ?_, fun r => quiet_operation (applyUnary_operation token r)⟩
      simp only [weight, Expr.unary.sizeOf_spec]
      omega
  | name name => exact quiet_get scope name

open Plan in
theorem Task.stmt_fits (setting : Setting) (bound scope : Nat) (s : Stmt) :
    ((Task.stmt scope s).plan setting bound).Fits bound (.stmt scope s) := by
  cases s with
  | missing => exact quiet_defect _
  | block body =>
      refine ⟨fun _ => rfl, fun inner => only_fits ?_⟩
      simp only [weight, Stmt.block.sizeOf_spec]
      omega
  | expression value =>
      refine ⟨below_of_weight ?_, fun v => ⟨quiet_echo setting value v, fun _ => quiet_pure _⟩⟩
      simp only [weight, Stmt.expression.sizeOf_spec]
      omega
  | function name params body =>
      exact ⟨fun _ => rfl, fun f => ⟨fun _ => rfl, fun _ => quiet_pure _⟩⟩
  | branch condition thenDo elseDo =>
      refine ⟨below_of_weight ?_, fun test => fits_ite (only_fits ?_) ?_⟩
      · simp only [weight, Stmt.branch.sizeOf_spec]
        omega
      · simp only [weight, Stmt.branch.sizeOf_spec]
        omega
      · cases elseDo with
        | none => exact quiet_pure _
        | some elseDo =>
            refine only_fits ?_
            simp only [weight, Stmt.branch.sizeOf_spec, Option.some.sizeOf_spec]
            omega
  | print value =>
      refine ⟨below_of_weight ?_, fun v => ⟨fun _ => rfl, fun _ => quiet_pure _⟩⟩
      simp only [weight, Stmt.print.sizeOf_spec]
      omega
  | ret keyword value =>
      rw [plan]
      apply optional_fits
      · simp only [weight, Stmt.ret.sizeOf_spec]
        omega
      · exact fun v => quiet_pure _
  | declare name initial =>
      rw [plan]
      apply optional_fits
      · simp only [weight, Stmt.declare.sizeOf_spec]
        omega
      · exact fun v => ⟨fun _ => rfl, fun _ => quiet_pure _⟩
  | loop condition body =>
      refine only_fits ?_
      simp only [weight, Stmt.loop.sizeOf_spec]
      omega

open Plan in
/-- The tasks of a plan are below the task whose plan it is. -/
theorem Task.plan_fits (setting : Setting) {α : Type} (bound : Nat) (task : Task α)
    (hcall : task.isCall = false) : (task.plan setting bound).Fits bound task := by
  cases task with
  | expr scope e => exact expr_fits setting bound scope e
  | exprs scope es =>
      cases es with
      | nil => exact quiet_pure _
      | cons e more =>
          refine ⟨below_of_weight ?_, fun v => ⟨below_of_weight ?_, fun vs => quiet_pure _⟩⟩
          · simp only [weight, List.cons.sizeOf_spec]
            omega
          · simp only [weight, List.cons.sizeOf_spec]
            omega
  | stmt scope s => exact stmt_fits setting bound scope s
  | stmts scope ss =>
      cases ss with
      | nil => exact quiet_pure _
      | cons s more =>
          refine ⟨below_of_weight ?_, fun flow => ?_⟩
          · simp only [weight, List.cons.sizeOf_spec]
            omega
          · cases flow with
            | normal =>
                refine only_fits ?_
                simp only [weight, List.cons.sizeOf_spec]
                omega
            | returning value => exact quiet_pure _
  | turns scope condition body n =>
      cases n with
      | zero => exact quiet_throw fun _ => Stop.noConfusion
      | succ n =>
          refine ⟨below_of_weight ?_, fun test => fits_ite ⟨below_of_weight ?_, fun flow => ?_⟩
            (quiet_pure _)⟩
          · simp only [weight]
            omega
          · simp only [weight]
            omega
          · cases flow with
            | normal =>
                -- The trees are the same, but one turn less is left.
                exact ⟨Or.inr ⟨rfl, Or.inr ⟨rfl, Nat.lt_succ_self n⟩⟩, fun _ => quiet_pure _⟩
            | returning value => exact quiet_pure _
  | call paren callee args => cases hcall
  | active callee args =>
      cases callee with
      | native function => exact quiet_callNative function args
      | closure function =>
          cases bound with
          | zero => exact quiet_throw fun _ => Stop.noConfusion
          | succ bound =>
              refine ⟨fun _ => rfl, fun scope => ⟨quiet_bindAll _ _ _, fun _ => ?_⟩⟩
              refine ⟨Or.inl (Nat.lt_succ_self bound), fun flow => ?_⟩
              cases flow with
              | normal => exact quiet_pure _
              | returning value => exact quiet_pure _

end LoxLang
