import LoxLang.Proofs.Eval.Moments

set_option autoImplicit false

/-! # What a run writes

Print statements and expression statements are the only ones that have something to say once the value
of their expression has been found. An `Event` records that, and `Moment.Tells` what is said in the course
of a moment, in this order: by the tasks that it comes to, and then by the statement itself. It looks at
which statements are executed and at the values of their expressions, not at what is written.

Whether values of expression statements are written out is a matter of the setting. It has an influence
on nothing but the lines that are written for what is said (`Event.line?`), and neither have the lines
written before: all else is the same in two runs of which one echoes and the other one does not
(`Task.told`). -/

namespace LoxLang

/-- What a statement has to say. -/
inductive Event where
  /-- A print statement, with the value that it prints. -/
  | printed (value : Value)
  /-- An expression statement, with its expression and the value of that. -/
  | evaluated (e : Expr) (value : Value)

namespace Event

/-- The line that is written for what is said. There is none for an expression statement if it is not
to be echoed, or if it is an assignment. -/
def line? (echo : Bool) : Event → Option Line
  | .printed value => some ⟨value.text, false⟩
  | .evaluated e value => if echo && !e.isAssign then some ⟨value.text, true⟩ else none

/-- The lines that are written. -/
def lines (echo : Bool) (events : List Event) : Array Line :=
  (events.filterMap (line? echo)).toArray

theorem lines_append (echo : Bool) (events more : List Event) :
    lines echo (events ++ more) = lines echo events ++ lines echo more := by
  simp [lines, List.filterMap_append]

theorem line?_filter (event : Event) :
    (line? true event).filter (fun line => !line.echo) = line? false event := by
  cases event with
  | printed value => rfl
  | evaluated e value => cases h : e.isAssign <;> simp [line?, h]

/-- Without the lines that echo something, what is left is what is written when nothing is echoed. -/
theorem lines_filter (events : List Event) :
    lines false events = (lines true events).filter fun line => !line.echo := by
  unfold lines
  rw [List.filter_toArray, List.filter_filterMap]
  simp only [line?_filter]

end Event

/-- The setting with or without echo. -/
def Setting.echoing (setting : Setting) (echo : Bool) : Setting :=
  { setting with echo := echo }

/-- The state with other lines written so far. -/
def State.writing (s : State) (out : Array Line) : State :=
  { s with output := out }

/-- A result that leaves other lines. -/
def Eval.writing {α : Type} (out : Array Line) :
    EStateM.Result Stop State α → EStateM.Result Stop State α
  | .ok a t => .ok a (t.writing out)
  | .error stop t => .error stop (t.writing out)

open Eval

/-- What a task has to say itself. -/
def Task.event (setting : Setting) (bound : Nat) : {α : Type} → Task α → State → List Event
  | _, .stmt scope (.print e), s =>
    match eval setting bound scope e s with
    | .ok value _ => [.printed value]
    | .error _ _ => []
  | _, .stmt scope (.expression e), s =>
    match eval setting bound scope e s with
    | .ok value _ => [.evaluated e value]
    | .error _ _ => []
  | _, _, _ => []

mutual

/-- What is said when a plan is carried out from some state. -/
inductive Plan.Tells (setting : Setting) : {α : Type} → Plan α → State → List Event → Prop
  | done {α : Type} {x : Eval α} {s : State} : Plan.Tells setting (.done x) s []
  | op {α β : Type} {x : Eval β} {more : β → Plan α} {s t : State} {b : β} {events : List Event} :
    x s = .ok b t → Plan.Tells setting (more b) t events → Plan.Tells setting (.op x more) s events
  | opStops {α β : Type} {x : Eval β} {more : β → Plan α} {s t : State} {stop : Stop} :
    x s = .error stop t → Plan.Tells setting (.op x more) s []
  | sub {α β : Type} {n : Nat} {part : Task β} {more : β → Plan α} {s t : State} {b : β}
    {first rest : List Event} :
    Moment.Tells setting ⟨n, part, s⟩ first → part.run setting n s = .ok b t →
    Plan.Tells setting (more b) t rest → Plan.Tells setting (.sub n part more) s (first ++ rest)
  | subStops {α β : Type} {n : Nat} {part : Task β} {more : β → Plan α} {s t : State} {stop : Stop}
    {events : List Event} :
    Moment.Tells setting ⟨n, part, s⟩ events → part.run setting n s = .error stop t →
    Plan.Tells setting (.sub n part more) s events

/-- What is said in the course of a moment. -/
inductive Moment.Tells (setting : Setting) : Moment → List Event → Prop
  | planned {α : Type} {bound : Nat} {task : Task α} {s : State} {events : List Event} :
    task.isCall = false → Plan.Tells setting (task.plan setting bound) s events →
    Moment.Tells setting ⟨bound, task, s⟩ (events ++ task.event setting bound s)
  | active {bound : Nat} {paren : Token} {callee : Callable} {args : List Value} {s : State}
    {events : List Event} :
    (args.length : Int) = callee.arity → s.depth < setting.maxDepth →
    Moment.Tells setting ⟨bound, .active callee args, { s with depth := s.depth + 1 }⟩ events →
    Moment.Tells setting ⟨bound, .call paren callee args, s⟩ events
  | refused {bound : Nat} {paren : Token} {callee : Callable} {args : List Value} {s : State} :
    ¬ ((args.length : Int) = callee.arity ∧ s.depth < setting.maxDepth) →
    Moment.Tells setting ⟨bound, .call paren callee args, s⟩ []

end

/-! ## There is one thing to tell -/

section
variable {setting : Setting} {α β : Type} {bound : Nat}

theorem Plan.Tells.unique {task : Task β} {p : Plan α} {s : State} {events other : List Event}
    (hfits : p.Fits bound task)
    (hsub : ∀ {γ : Type} (n : Nat) (part : Task γ), part.Below n bound task →
      ∀ s events other, Moment.Tells setting ⟨n, part, s⟩ events →
        Moment.Tells setting ⟨n, part, s⟩ other → other = events)
    (h : p.Tells setting s events) (h' : p.Tells setting s other) : other = events := by
  induction p generalizing s events other with
  | done x =>
      cases h
      cases h'
      rfl
  | op x more ih =>
      cases h with
      | op hx hrest =>
          cases h' with
          | op hx' hrest' =>
              cases hx.symm.trans hx'
              exact ih _ (hfits.2 _) hrest hrest'
          | opStops hx' => cases hx.symm.trans hx'
      | opStops hx =>
          cases h' with
          | op hx' hrest' => cases hx.symm.trans hx'
          | opStops hx' => rfl
  | sub n part more ih =>
      cases h with
      | sub hfirst hrun hrest =>
          cases h' with
          | sub hfirst' hrun' hrest' =>
              cases hrun.symm.trans hrun'
              rw [hsub n part hfits.1 s _ _ hfirst hfirst', ih _ (hfits.2 _) hrest hrest']
          | subStops hfirst' hrun' => cases hrun.symm.trans hrun'
      | subStops hfirst hrun =>
          cases h' with
          | sub hfirst' hrun' hrest' => cases hrun.symm.trans hrun'
          | subStops hfirst' hrun' => exact hsub n part hfits.1 s _ _ hfirst hfirst'

end

/-- What is said in the course of a moment is one thing only. -/
theorem Moment.Tells.unique {setting : Setting} {m : Moment} {events other : List Event}
    (h : m.Tells setting events) (h' : m.Tells setting other) : other = events := by
  obtain ⟨bound, task, s⟩ := m
  refine Task.below_induction (P := fun n part => ∀ s events other,
    Moment.Tells setting ⟨n, part, s⟩ events → Moment.Tells setting ⟨n, part, s⟩ other →
      other = events) ?_ bound task s events other h h'
  intro α bound task ih s events other h h'
  cases h with
  | planned hcall hplan =>
      cases h' with
      | planned _ hplan' =>
          rw [Plan.Tells.unique (task.plan_fits setting bound hcall) ih hplan hplan']
      | active => cases hcall
      | refused => cases hcall
  | active harity hlimit hbody =>
      cases h' with
      | planned hcall _ => cases hcall
      | active _ _ hbody' => exact ih _ _ (Task.active_below ..) _ _ _ hbody hbody'
      | refused hno => exact absurd ⟨harity, hlimit⟩ hno
  | refused hno =>
      cases h' with
      | planned hcall _ => cases hcall
      | active harity hlimit _ => exact absurd ⟨harity, hlimit⟩ hno
      | refused _ => rfl

/-! ## Steps that have nothing to do with output -/

namespace Eval

variable {α β : Type}

/-- The computation does not look at the lines and writes none. -/
def Blind (x : Eval α) : Prop :=
  ∀ s out, x (s.writing out) = writing out (x s)

theorem blind_pure (a : α) : Blind (pure a : Eval α) :=
  fun _ _ => rfl

theorem blind_throw (stop : Stop) : Blind (throw stop : Eval α) :=
  fun _ _ => rfl

theorem blind_operation {op : Token} {x : Eval Value} (h : Operation op x) : Blind x := by
  rcases h with ⟨value, rfl, -⟩ | ⟨fault, rfl, -⟩ | rfl
  · exact blind_pure value
  · exact blind_throw _
  · exact blind_throw _

theorem blind_get (scope : Nat) (name : Token) : Blind (get scope name) := by
  intro s out
  have hstore : (s.writing out).store = s.store := rfl
  unfold get
  rw [hstore]
  cases s.store.get? scope name.lexeme with
  | some value => rfl
  | none => rfl

theorem blind_assign (scope : Nat) (name : Token) (value : Value) :
    Blind (assign scope name value) := by
  intro s out
  have hstore : (s.writing out).store = s.store := rfl
  unfold assign
  rw [hstore]
  cases s.store.owner? name.lexeme scope with
  | some owner => rfl
  | none => rfl

theorem blind_bindAll (scope : Nat) (params : List Token) (args : List Value) :
    Blind (bindAll scope params args) := by
  unfold bindAll
  cases bindings? params args with
  | some bindings => exact fun _ _ => rfl
  | none => exact blind_throw _

theorem blind_answer (reply : NativeReply) : Blind (answer reply) := by
  cases reply with
  | value value => exact blind_pure value
  | failure message => exact blind_throw _
  | breakdown => exact blind_throw _
  | pending => exact blind_throw _

theorem blind_callNative (native : Native) (args : List Value) : Blind (callNative native args) :=
  fun s out => blind_answer (native.run s.nativeCalls args)
    { s with nativeCalls := s.nativeCalls + 1 } out

end Eval

/-- A plan whose own steps have nothing to do with output. -/
def Plan.Blind {α : Type} : Plan α → Prop
  | .done x => Eval.Blind x
  | .op x more => Eval.Blind x ∧ ∀ b, (more b).Blind
  | .sub _ _ more => ∀ b, (more b).Blind

/-- Whether a task has something to say itself. -/
def Task.speaks : {α : Type} → Task α → Bool
  | _, .stmt _ (.print _) => true
  | _, .stmt _ (.expression _) => true
  | _, _ => false

namespace Plan

variable {α : Type} {bound scope : Nat}

theorem only_blind {task : Task α} : (only bound task).Blind :=
  fun a => blind_pure a

theorem optional_blind {e : Option Expr} {more : Value → Plan α} (h : ∀ v, (more v).Blind) :
    (optional bound scope e more).Blind := by
  cases e with
  | none => exact h .nil
  | some e => exact h

theorem blind_ite {p : Prop} [Decidable p] {x y : Plan α} (hx : x.Blind) (hy : y.Blind) :
    (if p then x else y).Blind := by
  by_cases h : p
  · rw [if_pos h]
    exact hx
  · rw [if_neg h]
    exact hy

end Plan

namespace Task

open Plan

variable (setting : Setting) (bound : Nat)

theorem expr_blind (scope : Nat) (e : Expr) : ((Task.expr scope e).plan setting bound).Blind := by
  cases e with
  | missing => exact blind_throw _
  | assign name value => exact fun v => ⟨blind_assign scope name v, fun _ => blind_pure v⟩
  | binary left token right =>
      exact fun l r => blind_operation (applyBinary_operation token l r)
  | call callee paren args =>
      intro f
      dsimp only
      cases callable? setting f with
      | none => exact blind_throw _
      | some target => exact fun values => only_blind
  | group inner => exact only_blind
  | literal value => exact blind_pure _
  | logical left token right =>
      intro l
      have hpure : (done (pure l) : Plan Value).Blind := blind_pure l
      dsimp only
      cases token.kind with
      | kwOr => exact blind_ite hpure only_blind
      | kwAnd => exact blind_ite only_blind hpure
      | _ => exact blind_throw _
  | unary token right => exact fun r => blind_operation (applyUnary_operation token r)
  | name name => exact blind_get scope name

theorem stmt_blind {scope : Nat} {stmt : Stmt} (h : (Task.stmt scope stmt).speaks = false) :
    ((Task.stmt scope stmt).plan setting bound).Blind := by
  cases stmt with
  | missing => exact blind_throw _
  | block body => exact ⟨fun _ _ => rfl, fun inner => only_blind⟩
  | expression value => cases h
  | function name params body =>
      exact ⟨fun _ _ => rfl, fun f => ⟨fun _ _ => rfl, fun _ => blind_pure _⟩⟩
  | branch condition thenDo elseDo =>
      refine fun test => blind_ite only_blind ?_
      cases elseDo with
      | none => exact blind_pure _
      | some elseDo => exact only_blind
  | print value => cases h
  | ret keyword value =>
      rw [plan]
      exact optional_blind fun v => blind_pure _
  | declare name initial =>
      rw [plan]
      exact optional_blind fun v => ⟨fun _ _ => rfl, fun _ => blind_pure _⟩
  | loop condition body => exact only_blind

/-- A task that has nothing to say itself writes nothing between those that it comes to. -/
theorem plan_blind {α : Type} {task : Task α} (hcall : task.isCall = false)
    (hspeaks : task.speaks = false) : (task.plan setting bound).Blind := by
  cases task with
  | expr scope e => exact expr_blind setting bound scope e
  | exprs scope es =>
      cases es with
      | nil => exact blind_pure _
      | cons e more => exact fun v vs => blind_pure _
  | stmt scope stmt => exact stmt_blind setting bound hspeaks
  | stmts scope ss =>
      cases ss with
      | nil => exact blind_pure _
      | cons stmt more =>
          intro flow
          cases flow with
          | normal => exact only_blind
          | returning value => exact blind_pure _
  | turns scope condition body n =>
      cases n with
      | zero => exact blind_throw _
      | succ n =>
          refine fun test => blind_ite (fun flow => ?_) (blind_pure _)
          cases flow with
          | normal => exact only_blind
          | returning value => exact blind_pure _
  | call paren callee args => cases hcall
  | active callee args =>
      cases callee with
      | native function => exact blind_callNative function args
      | closure function =>
          cases bound with
          | zero => exact blind_throw _
          | succ bound =>
              refine ⟨fun _ _ => rfl, fun scope => ⟨blind_bindAll _ _ _, fun _ flow => ?_⟩⟩
              cases flow with
              | normal => exact blind_pure _
              | returning value => exact blind_pure _

theorem event_of_silent (setting : Setting) (bound : Nat) {α : Type} {task : Task α} (s : State)
    (h : task.speaks = false) : task.event setting bound s = [] := by
  cases task with
  | stmt scope stmt =>
      cases stmt with
      | print e => cases h
      | expression e => cases h
      | _ => rfl
  | _ => rfl

/-- Only expression statements look at whether they are to be echoed. -/
theorem plan_echoing (echo : Bool) {α : Type} {task : Task α} (hcall : task.isCall = false)
    (hspeaks : task.speaks = false) :
    task.plan (setting.echoing echo) bound = task.plan setting bound := by
  cases task with
  | expr scope e => cases e <;> rfl
  | exprs scope es => cases es <;> rfl
  | stmt scope stmt =>
      cases stmt with
      | expression value => cases hspeaks
      | _ => rfl
  | stmts scope ss => cases ss <;> rfl
  | turns scope condition body n => cases n <;> rfl
  | call paren callee args => cases hcall
  | active callee args =>
      cases callee with
      | native function => rfl
      | closure function => cases bound <;> rfl

end Task

/-! ## What is said tells what is written -/

/-- The events are what a task says from some state, with or without echo and whatever has been written
before. It ends in one way, but for the lines, and adds those that are written for the events. -/
structure Task.Told (setting : Setting) {α : Type} (bound : Nat) (task : Task α) (s : State)
    (events : List Event) : Prop where
  tells : ∀ echo out, Moment.Tells (setting.echoing echo) ⟨bound, task, s.writing out⟩ events
  run : ∀ echo out, task.run (setting.echoing echo) bound (s.writing out)
    = writing (out ++ Event.lines echo events) (task.run setting bound s)

/-- The same of a plan. -/
structure Plan.Told (setting : Setting) {α : Type} (p : Plan α) (s : State) (events : List Event) :
    Prop where
  tells : ∀ echo out, p.Tells (setting.echoing echo) (s.writing out) events
  run : ∀ echo out, p.run (setting.echoing echo) (s.writing out)
    = writing (out ++ Event.lines echo events) (p.run setting s)

section
variable {setting : Setting} {α β : Type} {bound : Nat}

theorem writing_lines_nil (echo : Bool) (out : Array Line) (r : EStateM.Result Stop State α) :
    writing (out ++ Event.lines echo []) r = writing out r := by
  simp [Event.lines]

/-- A plan says what its tasks say, one after the other. -/
theorem Plan.told {task : Task β} {p : Plan α} (hblind : p.Blind) (hfits : p.Fits bound task)
    (hsub : ∀ {γ : Type} (n : Nat) (part : Task γ), part.Below n bound task →
      ∀ s, ∃ events, part.Told setting n s events) (s : State) :
    ∃ events, p.Told setting s events := by
  induction p generalizing s with
  | done x =>
      refine ⟨[], fun echo out => .done, fun echo out => ?_⟩
      rw [writing_lines_nil]
      exact hblind s out
  | op x more ih =>
      have hstep : ∀ out, x (s.writing out) = writing out (x s) := hblind.1 s
      cases hx : x s with
      | error stop t =>
          rw [hx] at hstep
          refine ⟨[], fun echo out => .opStops (hstep out), fun echo out => ?_⟩
          rw [writing_lines_nil, Plan.run, Plan.run, bind_run, bind_run, hstep, hx]
          rfl
      | ok b t =>
          rw [hx] at hstep
          obtain ⟨events, hmore⟩ := ih b (hblind.2 b) (hfits.2 b) t
          refine ⟨events, fun echo out => .op (hstep out) (hmore.tells echo out), fun echo out => ?_⟩
          rw [Plan.run, Plan.run, bind_run, bind_run, hstep, hx]
          exact hmore.run echo out
  | sub n part more ih =>
      obtain ⟨first, hfirst⟩ := hsub n part hfits.1 s
      have hstep := hfirst.run
      cases hrun : part.run setting n s with
      | error stop t =>
          rw [hrun] at hstep
          refine ⟨first, fun echo out => .subStops (hfirst.tells echo out) (hstep echo out),
            fun echo out => ?_⟩
          rw [Plan.run, Plan.run, bind_run, bind_run, hstep, hrun]
          rfl
      | ok b t =>
          rw [hrun] at hstep
          obtain ⟨rest, hmore⟩ := ih b (hblind b) (hfits.2 b) t
          -- what the rest says is written behind the lines for what has been said before it
          refine ⟨first ++ rest, fun echo out => .sub (hfirst.tells echo out) (hstep echo out)
            (hmore.tells echo (out ++ Event.lines echo first)), fun echo out => ?_⟩
          rw [Plan.run, Plan.run, bind_run, bind_run, hstep, hrun, Event.lines_append,
            ← Array.append_assoc]
          exact hmore.run echo (out ++ Event.lines echo first)

end

namespace Task

variable {setting : Setting} {bound scope : Nat} {s : State}

/-- What is told about a task is what is told in its plan, and what it has to say itself. -/
theorem told_of_plan {α : Type} {task : Task α} (hcall : task.isCall = false)
    {events own : List Event}
    (htells : ∀ echo out, (task.plan (setting.echoing echo) bound).Tells (setting.echoing echo)
      (s.writing out) events)
    (hown : ∀ echo out, task.event (setting.echoing echo) bound (s.writing out) = own)
    (hrun : ∀ echo out, (task.plan (setting.echoing echo) bound).run (setting.echoing echo)
        (s.writing out)
      = writing (out ++ Event.lines echo (events ++ own)) ((task.plan setting bound).run setting s)) :
    task.Told setting bound s (events ++ own) where
  tells := by
    intro echo out
    rw [← hown echo out]
    exact .planned hcall (htells echo out)
  run := by
    intro echo out
    rw [← task.run_plan, ← task.run_plan]
    exact hrun echo out

/-- A statement that finds the value of its expression and says one thing about it. -/
theorem told_statement {stmt : Stmt} {e : Expr} {told : Value → Event}
    {say : Setting → Value → Eval Unit}
    (hplan : ∀ setting : Setting, (Task.stmt scope stmt).plan setting bound
      = .sub bound (.expr scope e) fun v => .op (say setting v) fun _ => .done (pure .normal))
    (hevent : ∀ setting s, (Task.stmt scope stmt).event setting bound s
      = match eval setting bound scope e s with
        | .ok v _ => [told v]
        | .error _ _ => [])
    (hsay : ∀ setting v s,
      say setting v s = .ok () (s.writing (s.output ++ Event.lines setting.echo [told v])))
    (h : ∃ events, (Task.expr scope e).Told setting bound s events) :
    ∃ events, (Task.stmt scope stmt).Told setting bound s events := by
  obtain ⟨events, h⟩ := h
  have hstep : ∀ echo out, eval (setting.echoing echo) bound scope e (s.writing out)
      = writing (out ++ Event.lines echo events) (eval setting bound scope e s) := h.run
  have hrun : ∀ (setting : Setting) (s : State),
      ((Task.stmt scope stmt).plan setting bound).run setting s
        = match eval setting bound scope e s with
          | .ok v t => .ok .normal (t.writing (t.output ++ Event.lines setting.echo [told v]))
          | .error stop t => .error stop t := by
    intro setting s
    rw [hplan, Plan.run, bind_run, Task.run]
    cases eval setting bound scope e s with
    | error stop t => rfl
    | ok v t =>
        dsimp only
        rw [Plan.run, bind_run, hsay]
        rfl
  cases hvalue : eval setting bound scope e s with
  | error stop t =>
      rw [hvalue] at hstep
      refine ⟨events ++ [], told_of_plan rfl (fun echo out => ?_) (fun echo out => ?_)
        fun echo out => ?_⟩
      · rw [hplan]
        exact .subStops (h.tells echo out) (hstep echo out)
      · rw [hevent, hstep]
        rfl
      · rw [hrun, hrun, hstep, hvalue, List.append_nil]
        rfl
  | ok v t =>
      rw [hvalue] at hstep
      refine ⟨events ++ [] ++ [told v], told_of_plan rfl (fun echo out => ?_) (fun echo out => ?_)
        fun echo out => ?_⟩
      · rw [hplan]
        exact .sub (h.tells echo out) (hstep echo out) (.op (hsay _ v _) .done)
      · rw [hevent, hstep]
        rfl
      · rw [hrun, hrun, hstep, hvalue, List.append_nil, Event.lines_append, ← Array.append_assoc]
        rfl

/-- An expression statement writes the line for what it has to say. -/
theorem echo_eq (setting : Setting) (e : Expr) (v : Value) (s : State) :
    echo setting e v s
      = .ok () (s.writing (s.output ++ Event.lines setting.echo [.evaluated e v])) := by
  unfold echo
  by_cases h : (setting.echo && !e.isAssign) = true
  · rw [if_pos h]
    simp [Event.lines, Event.line?, h, write, State.writing]
  · have hnone : Event.lines setting.echo [.evaluated e v] = #[] := by
      simp [Event.lines, Event.line?, h]
    rw [if_neg h, hnone, Array.append_empty]
    rfl

theorem write_eq (setting : Setting) (v : Value) (s : State) :
    write v.text false s
      = .ok () (s.writing (s.output ++ Event.lines setting.echo [.printed v])) := by
  simp [Event.lines, Event.line?, write, State.writing]

/-- A call says what is said while it is active. -/
theorem told_call {paren : Token} {callee : Callable} {args : List Value}
    (h : ∃ events, (Task.active callee args).Told setting bound
      { s with depth := s.depth + 1 } events) :
    ∃ events, (Task.call paren callee args).Told setting bound s events := by
  obtain ⟨events, h⟩ := h
  by_cases hgoes : (args.length : Int) = callee.arity ∧ s.depth < setting.maxDepth
  · refine ⟨events, fun echo out => .active hgoes.1 hgoes.2 (h.tells echo out), fun echo out => ?_⟩
    have hbody : (Task.active callee args).run (setting.echoing echo) bound
        { s.writing out with depth := (s.writing out).depth + 1 }
          = writing (out ++ Event.lines echo events)
              ((Task.active callee args).run setting bound { s with depth := s.depth + 1 }) :=
      h.run echo out
    have hlow : ¬ (setting.echoing echo).maxDepth ≤ (s.writing out).depth :=
      Nat.not_le_of_lt hgoes.2
    rw [Task.run_call, Task.run_call, if_pos hgoes.1, if_pos hgoes.1, Eval.active, Eval.active,
      if_neg hlow, if_neg (Nat.not_le_of_lt hgoes.2)]
    rw [hbody]
    cases (Task.active callee args).run setting bound { s with depth := s.depth + 1 } with
    | ok v t => rfl
    | error stop t => rfl
  · refine ⟨[], fun echo out => .refused hgoes, fun echo out => ?_⟩
    rw [writing_lines_nil, Task.run_call, Task.run_call]
    by_cases harity : (args.length : Int) = callee.arity
    · have hhigh : setting.maxDepth ≤ s.depth := Nat.le_of_not_lt fun hlt => hgoes ⟨harity, hlt⟩
      have hhigh' : (setting.echoing echo).maxDepth ≤ (s.writing out).depth := hhigh
      rw [if_pos harity, if_pos harity, Eval.active, Eval.active, if_pos hhigh, if_pos hhigh']
      rfl
    · rw [if_neg harity, if_neg harity]
      rfl

/-- Every task has something to be told about it, which is nothing for most. -/
theorem told {α : Type} (setting : Setting) (bound : Nat) (task : Task α) (s : State) :
    ∃ events, task.Told setting bound s events := by
  refine Task.below_induction (P := fun n part => ∀ s, ∃ events, part.Told setting n s events)
    ?_ bound task s
  intro α bound task ih s
  cases hcall : task.isCall with
  | true =>
      cases task with
      | call paren callee args => exact told_call (ih _ _ (Task.active_below bound paren callee args) _)
      | _ => cases hcall
  | false =>
      cases hspeaks : task.speaks with
      | false =>
          obtain ⟨events, h⟩ := Plan.told (plan_blind setting bound hcall hspeaks)
            (task.plan_fits setting bound hcall) ih s
          have hplan : ∀ echo, task.plan (setting.echoing echo) bound = task.plan setting bound :=
            fun echo => plan_echoing setting bound echo hcall hspeaks
          refine ⟨events ++ [], told_of_plan hcall (fun echo out => ?_)
            (fun echo out => event_of_silent _ bound _ hspeaks) fun echo out => ?_⟩
          · rw [hplan]
            exact h.tells echo out
          · rw [hplan, List.append_nil]
            exact h.run echo out
      | true =>
          cases task with
          | stmt scope stmt =>
              cases stmt with
              | print e =>
                  have hbelow : (Task.expr scope e).Below bound bound (.stmt scope (.print e)) :=
                    (plan_fits setting bound _ hcall).1
                  exact told_statement (fun _ => rfl) (fun _ _ => rfl) write_eq (ih _ _ hbelow s)
              | expression e =>
                  have hbelow : (Task.expr scope e).Below bound bound (.stmt scope (.expression e)) :=
                    (plan_fits setting bound _ hcall).1
                  exact told_statement (fun _ => rfl) (fun _ _ => rfl)
                    (fun setting => echo_eq setting e) (ih _ _ hbelow s)
              | _ => cases hspeaks
          | _ => cases hspeaks

end Task

end LoxLang
