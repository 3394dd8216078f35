import Mathlib.Logic.Relation
import LoxLang.Proofs.Eval.ForLoop
import LoxLang.Proofs.Session.Forest
import LoxLang.Proofs.Session.Names
import LoxLang.Proofs.Session.Pieces

set_option autoImplicit false

/-! # Reading a `for` loop as a `while` loop

The tree that is read for a `for` loop does what the loop means (`Session.Holder.for_desugars`). The two
leave scopes with different numbers behind, so what is said about them is what can be seen from the
scopes that there were before: outcomes, lines, and the values of all variables, where functions
correspond if they have the same text and see the same around them (`Eval.Indistinct`).

The block that the tree has around the body and the increment binds nothing of its own when the increment
is evaluated (`Eval.SeesThrough`), in whichever turn, because a body is no declaration. -/

namespace LoxLang

open Parse (ForClauses)

namespace Eval

/-- Ways to end that correspond. -/
def SameOutcome (sees : Nat → Nat → Prop) :
    EStateM.Result Stop State Flow → EStateM.Result Stop State Flow → Prop
  | .ok .normal _, .ok .normal _ => True
  | .ok (.returning v) _, .ok (.returning w) _ => Value.Rel (SameCode sees) v w
  | .error stop _, .error stop' _ => stop' = stop
  | _, _ => False

/-- Ends of runs that look the same from scopes that correspond. -/
structure Indistinct (sees : Nat → Nat → Prop) (r r' : EStateM.Result Stop State Flow) : Prop where
  outcome : SameOutcome sees r r'
  output : (final r').output = (final r).output
  depth : (final r').depth = (final r).depth
  nativeCalls : (final r').nativeCalls = (final r).nativeCalls
  values : ∀ n m, sees n m → ∀ name, Option.Rel (Value.Rel (SameCode sees))
    ((final r).store.get? n name) ((final r').store.get? m name)

/-- The scope in which a `for` loop turns and the state in which it begins to, for the tree that is
read for it. -/
inductive Opens (setting : Setting) (bound scope : Nat) (clauses : ForClauses) (s : State) :
    Nat → State → Prop
  | bare : clauses.initial = none → Opens setting bound scope clauses s scope s
  | initial {first : Stmt} {t : State} : clauses.initial = some first →
    exec setting bound s.store.scopes.size first
      { s with store := (s.store.newScope (some scope)).2 } = .ok .normal t →
    Opens setting bound scope clauses s s.store.scopes.size t

/-- From one turn of a `while` loop to the next. -/
def TurnsTo (setting : Setting) (bound scope : Nat) (test : Expr) (body : Stmt) (s t : State) :
    Prop :=
  ∃ value mid, eval setting bound scope test s = .ok value mid ∧ value.isTruthy = true ∧
    exec setting bound scope body mid = .ok .normal t

/-- A scope that binds nothing itself, so that all that is seen from there is what is seen from the
scope around it. -/
structure SeesThrough (store : Store) (scope outer : Nat) : Prop where
  blank : store.scopes[scope]? = some ⟨some outer, []⟩
  owner : ∀ name, store.owner? name scope = store.owner? name outer
  value : ∀ name, store.get? scope name = store.get? outer name

/-! ## The end -/

section
variable {W V : Links} {r r' : EStateM.Result Stop State Flow}

theorem Indistinct.of_rel (hst : V.StateRel (final r) (final r')) (h : SameOutcome V.Sees r r') :
    Indistinct V.Sees r r' where
  outcome := h
  output := hst.output
  depth := hst.depth
  nativeCalls := hst.nativeCalls
  values := fun _ _ hsees name => hst.store.get name hsees

theorem ends_outcome (h : W.Ends Links.FlowRel r r') :
    ∃ V, W.Grows V ∧ V.StateRel (final r) (final r') ∧ SameOutcome V.Sees r r' := by
  obtain ⟨V, s, t, hWV, hst, ⟨flow, flow', rfl, rfl, hflow⟩ | ⟨stop, rfl, rfl⟩⟩ := h.cases
  · refine ⟨V, hWV, hst, ?_⟩
    cases hflow with
    | normal => exact trivial
    | returning hv => exact hv
  · exact ⟨V, hWV, hst, rfl⟩

end

section
variable {setting : Setting} (hnatives : ∀ native ∈ setting.natives, native.Oblivious)
  {bound scope : Nat} {s : State} (hs : s.store.Forest) (hscope : scope < s.store.scopes.size)
  {clauses : ForClauses} {body : Stmt}

include hnatives hs hscope

/-- From the scopes that there were, the two look the same, and whatever is executed there next keeps
it so. -/
theorem forLoop_indistinct (hquiet : setting.echo = false) (hbody : body.gains = [])
    (hinitial : ∀ first ∈ clauses.initial, first.Begins) :
    let r := exec setting bound scope (clauses.loop body) s
    let r' := forLoop setting bound scope clauses body s
    ∃ sees : Nat → Nat → Prop, (∀ n < s.store.scopes.size, sees n n) ∧ Indistinct sees r r' ∧
      ∀ n < s.store.scopes.size, ∀ limit stmts, ∃ sees' : Nat → Nat → Prop,
        (∀ i j, sees i j → sees' i j) ∧
          Indistinct sees' (execAll setting limit n stmts (final r))
            (execAll setting limit n stmts (final r')) := by
  intro r r'
  -- At first every scope is its own twin, and twins stay so whatever is executed.
  have hends : (Links.self s.store).Ends Links.FlowRel r r' :=
    Links.forLoop_runs hnatives hquiet bound (Links.self_sees hscope) hbody clauses hinitial s s
      (Links.self_stateRel hs)
  obtain ⟨V, hgrows, hst, houtcome⟩ := ends_outcome hends
  have htwin : ∀ n < s.store.scopes.size, V.twin n n := fun n hn => hgrows.twin ⟨rfl, hn⟩
  refine ⟨V.Sees, fun n hn => .twin (htwin n hn), .of_rel hst houtcome, ?_⟩
  intro n hn limit stmts
  have hlater := Links.execAll_runs hnatives limit stmts (Links.suits_twin (htwin n hn)) _ _ hst
  obtain ⟨U, hVU, hst', houtcome'⟩ := ends_outcome hlater
  exact ⟨U.Sees, fun _ _ hsees => hsees.grows hVU, .of_rel hst' houtcome'⟩

end

/-! ## The block around the body and the increment -/

theorem scope_blank {enclosing : Option Nat} {later : Scope}
    (h : Scope.Grows (fun _ => False) ⟨enclosing, []⟩ later) : later = ⟨enclosing, []⟩ := by
  obtain ⟨around, bindings⟩ := later
  have haround : around = enclosing := h.enclosing
  cases bindings with
  | nil => rw [haround]
  | cons binding more =>
      -- The first name that is bound would have come from nowhere.
      obtain ⟨name, value⟩ := binding
      have hbinds : Scope.binds ⟨around, (name, value) :: more⟩ name = true := by
        unfold Scope.binds Scope.get?
        rw [Scope.lookup_cons_eq, if_pos rfl]
        rfl
      rcases h.gains name hbinds with hold | hnone
      · cases hold
      · exact hnone.elim

theorem seesThrough_of_blank {store : Store} {scope outer : Nat} (hlt : outer < scope)
    (h : store.scopes[scope]? = some ⟨some outer, []⟩) : SeesThrough store scope outer := by
  have hblank : Links.Blank (fun n o => n = scope ∧ o = outer) store := by
    rintro n o ⟨rfl, rfl⟩
    exact ⟨hlt, h⟩
  have howner : ∀ name, store.owner? name scope = store.owner? name outer :=
    hblank.owner ⟨rfl, rfl⟩
  refine ⟨h, howner, fun name => ?_⟩
  unfold Store.get?
  rw [howner name]

section
variable (setting : Setting) (bound scope : Nat) (s : State)

theorem exec_later (stmt : Stmt) :
    s.store.Later (final (exec setting bound scope stmt s)).store :=
  (exec_ends setting bound scope s stmt).grows.later

/-- A body that is no declaration leaves the scope in which it is executed without names. -/
theorem body_seesThrough {body : Stmt} (hbody : Parse.Plain body) {inner : Nat}
    (hinner : inner < s.store.scopes.size) {t : State}
    (h : exec setting bound s.store.scopes.size body
      { s with store := (s.store.newScope (some inner)).2 } = .ok .normal t) :
    SeesThrough t.store s.store.scopes.size inner := by
  have hgrows := exec_grows_nowhere setting bound s.store.scopes.size
    { s with store := (s.store.newScope (some inner)).2 } hbody.2 hbody.1
  rw [h] at hgrows
  obtain ⟨later, hlater, hscope⟩ := hgrows _ _ (Links.newScope_new (some inner))
  rw [scope_blank hscope] at hlater
  exact seesThrough_of_blank hinner hlater

/-- A declaration that comes to its end has bound its name. -/
theorem declare_binds {name : Token} {initial : Option Expr} {t : State}
    (hscope : scope < s.store.scopes.size)
    (h : exec setting bound scope (.declare name initial) s = .ok .normal t) :
    t.store.Binds scope name.lexeme := by
  have hends := exec_ends setting bound scope s (.declare name initial)
  rw [h] at hends
  have hsize : s.store.scopes.size ≤ t.store.scopes.size := hends.1.grows.size_le
  exact hends.2.2 rfl (by omega) name.lexeme (List.mem_singleton_self _)

end

section
variable {setting : Setting} {bound scope inner : Nat} {s first before mid last : State}
  {clauses : ForClauses} {body : Stmt} {test : Expr}

theorem TurnsTo.later (h : TurnsTo setting bound scope test body s last) :
    s.store.Later last.store := by
  obtain ⟨value, mid, htest, -, hbody⟩ := h
  have hmid := (eval_grows setting bound scope s test).later
  rw [htest] at hmid
  have hlast := exec_later setting bound scope mid body
  rw [hbody] at hlast
  exact hmid.trans hlast

/-- Whatever number of turns there has been, the scopes are still there. -/
theorem turns_later (h : Relation.ReflTransGen (TurnsTo setting bound scope test body) s last) :
    s.store.Later last.store := by
  induction h with
  | refl => exact .refl _ _
  | tail _ hturn ih => exact ih.trans hturn.later

/-- The scope in which the loop turns is there. -/
theorem Opens.lt_size (h : Opens setting bound scope clauses s inner first)
    (hscope : scope < s.store.scopes.size) : inner < first.store.scopes.size := by
  cases h with
  | bare _ => exact hscope
  | @initial stmt _ _ hfirst =>
      have hlater := exec_later setting bound s.store.scopes.size
        { s with store := (s.store.newScope (some scope)).2 } stmt
      rw [hfirst] at hlater
      have hsize := Store.Grows.size_le hlater
      rw [Store.newScope_size] at hsize
      exact hsize

/-- It binds the variable that the initial statement declares. -/
theorem Opens.binds {name : Token} {initial : Option Expr}
    (h : Opens setting bound scope clauses s inner first)
    (hname : clauses.initial = some (.declare name initial)) :
    first.store.Binds inner name.lexeme := by
  cases h with
  | bare hnone =>
      rw [hnone] at hname
      cases hname
  | initial hsome hfirst =>
      cases hsome.symm.trans hname
      refine declare_binds setting bound _ _ ?_ hfirst
      rw [Store.newScope_size]
      omega

/-- Where a scope binds a name itself, that is where it is found. -/
theorem owner?_of_binds {store : Store} {name : String} (h : store.Binds inner name) :
    store.owner? name inner = some inner := by
  obtain ⟨here, hhere, hbinds⟩ := h
  rw [Store.owner?_eq _ _ _ _ hhere, if_pos hbinds]

/-- In whichever turn, the increment sees what is seen from the scope of the loop, and with it the
variable that was declared there when the loop began. -/
theorem increment_sees (hbody : Parse.Plain body) (hscope : scope < s.store.scopes.size)
    (hopens : Opens setting bound scope clauses s inner first) {turn : Stmt}
    (hturns : Relation.ReflTransGen (TurnsTo setting bound inner test turn) first before)
    {value : Value} (htest : eval setting bound inner test before = .ok value mid)
    (hrun : exec setting bound mid.store.scopes.size body
      { mid with store := (mid.store.newScope (some inner)).2 } = .ok .normal last) :
    SeesThrough last.store mid.store.scopes.size inner ∧
      ∀ name initial, clauses.initial = some (.declare name initial) →
        last.store.owner? name.lexeme inner = some inner := by
  have hfirst : inner < first.store.scopes.size := hopens.lt_size hscope
  have hmid : before.store.Later mid.store := by
    have hgrows := (eval_grows setting bound inner before test).later
    rw [htest] at hgrows
    exact hgrows
  have hlater : first.store.Later mid.store := (turns_later hturns).trans hmid
  have hlast : mid.store.Later last.store := by
    have hgrows := exec_later setting bound mid.store.scopes.size
      { mid with store := (mid.store.newScope (some inner)).2 } body
    rw [hrun] at hgrows
    exact (Store.newScope_grows mid.store (some inner)).later.trans hgrows
  constructor
  · have hinner : inner < mid.store.scopes.size :=
      Nat.lt_of_lt_of_le hfirst (Store.Grows.size_le hlater)
    exact body_seesThrough setting bound mid hbody hinner hrun
  · intro name initial hname
    exact owner?_of_binds ((hlater.trans hlast).binds (hopens.binds hname))

end

end Eval

/-! ## Reading -/

namespace Parse

/-- Behind the keyword, a `for` loop is read as its clauses and its body. -/
theorem statement_for {n : Nat} {inFunction : Bool} {keyword : Token} {rest : List Token}
    {reported : List Diagnostic} {stmt : Stmt} {after : Cursor} (hkeyword : keyword.kind = .kwFor)
    (h : statement (n + 1) inFunction ⟨keyword :: rest, reported⟩ = .ok stmt after) :
    ∃ clauses body mid, forClauses ⟨rest, reported⟩ = .ok clauses mid ∧
      statement n inFunction mid = .ok body after ∧ stmt = clauses.loop body := by
  rw [statement] at h
  obtain ⟨token, _, hpeek, hrun⟩ := bind_eq_ok h
  cases hpeek
  rw [hkeyword] at hrun
  obtain ⟨_, _, hskip, hrun⟩ := bind_eq_ok hrun
  cases hskip
  obtain ⟨clauses, mid, hclauses, hrun⟩ := bind_eq_ok hrun
  obtain ⟨body, last, hbody, hrun⟩ := bind_eq_ok hrun
  cases hrun
  exact ⟨clauses, body, mid, hclauses, hbody, rfl⟩

end Parse

/-! ## The loop in a session -/

namespace Session.Holder

open Eval

/-- Whatever the holder of a session does, it echoes or not as it did at first. -/
theorem Step.echo {holder after : Holder} (h : Step holder after) :
    after.session.setting.echo = holder.session.setting.echo := by
  cases h with
  | assign _ hassign =>
      obtain ⟨owner, -, rfl⟩ := assign_define hassign
      rfl
  | run bound stmts _ => rw [run_setting]
  | _ => rfl

theorem steps_echo {holder after : Holder} (h : Steps holder after) :
    after.session.setting.echo = holder.session.setting.echo := by
  induction h with
  | refl => rfl
  | tail _ hstep ih => rw [hstep.echo, ih]

/-- The tree that is read for a `for` loop does what the loop means. In every state that a run can come
to, executing the one ends like the other, with the same lines, and from every scope that there was
before they leave the same to see, which nothing that is executed there can tell apart. In no turn does
the block around the body and the increment bind a name when the increment is evaluated, and the
variable of the loop is the one that was declared when it began. -/
theorem for_desugars {n : Nat} {inFunction : Bool} {keyword : Token} {rest : List Token}
    {reported : List Diagnostic} {stmt : Stmt} {after : Parse.Cursor}
    (hkeyword : keyword.kind = .kwFor)
    (hread : Parse.statement (n + 1) inFunction ⟨keyword :: rest, reported⟩ = .ok stmt after)
    {wanted : Int} {readings : Readings} {holder : Holder}
    (hsteps : Steps ⟨start wanted false readings, []⟩ holder)
    (hnatives : ∀ native ∈ holder.session.setting.natives, native.Oblivious)
    {limit base calls : Nat} {stmts : List Stmt} {m : Moment} (hbase : holder.session.HasScope base)
    (hm : Moment.During holder.session.setting (holder.session.opening limit base stmts) calls m)
    (bound : Nat) {scope : Nat} (hscope : scope < m.state.store.scopes.size) :
    let setting := holder.session.setting
    let s := m.state
    ∃ clauses body,
      (∃ mid, Parse.forClauses ⟨rest, reported⟩ = .ok clauses mid ∧
        Parse.statement n inFunction mid = .ok body after ∧ stmt = clauses.loop body) ∧
      (let r := exec setting bound scope stmt s
       let r' := forLoop setting bound scope clauses body s
       ∃ sees : Nat → Nat → Prop, (∀ k < s.store.scopes.size, sees k k) ∧ Indistinct sees r r' ∧
        ∀ k < s.store.scopes.size, ∀ limit stmts, ∃ sees' : Nat → Nat → Prop,
          (∀ i j, sees i j → sees' i j) ∧
            Indistinct sees' (execAll setting limit k stmts (final r))
              (execAll setting limit k stmts (final r'))) ∧
      ∀ increment, clauses.increment = some increment →
        (Stmt.loop clauses.test (.block [body, .expression increment])).Inside [stmt] ∧
        ∀ inner first, Opens setting bound scope clauses s inner first →
        ∀ before, Relation.ReflTransGen
          (TurnsTo setting bound inner clauses.test (.block [body, .expression increment]))
          first before →
        ∀ value mid, eval setting bound inner clauses.test before = .ok value mid →
        ∀ last, exec setting bound mid.store.scopes.size body
          { mid with store := (mid.store.newScope (some inner)).2 } = .ok .normal last →
        SeesThrough last.store mid.store.scopes.size inner ∧
          ∀ name initial, clauses.initial = some (.declare name initial) →
            last.store.owner? name.lexeme inner = some inner := by
  intro setting s
  obtain ⟨clauses, body, mid, hclauses, hbody, rfl⟩ := Parse.statement_for hkeyword hread
  have hplain : Parse.Plain body := (Parse.shapely n).statement inFunction _ _ _ hbody
  -- The rule for statements gives no declaration, so the body adds no name to its scope.
  have hgains : body.gains = [] := hplain.2.gains_eq.trans hplain.1
  have hquiet : setting.echo = false := steps_echo hsteps
  have hsound : holder.Sound := ((start_sound wanted false readings).steps hsteps).1
  have hforest : s.store.Forest := (hsound.run hbase hm).1.forest
  refine ⟨clauses, body, ⟨mid, hclauses, hbody, rfl⟩, ?_, ?_⟩
  · exact forLoop_indistinct hnatives hforest hscope hquiet hgains
      (Parse.gives_forClauses _ _ _ hclauses)
  · intro increment hincrement
    refine ⟨?_, fun inner first hopens before hturns value mid htest last hrun => ?_⟩
    · have hturn : clauses.turn body = .block [body, .expression increment] := by
        rw [Parse.ForClauses.turn, hincrement]
      rw [← hturn]
      exact clauses.inside_loop body
    · exact increment_sees hplain hscope hopens hturns htest hrun

/-- The statement that tokens begin with. -/
def statement? (tokens : List Token) : Option Stmt :=
  match Parse.statement (Parse.budget ⟨tokens, []⟩ + 1) false ⟨tokens, []⟩ with
  | .ok stmt _ => some stmt
  | .error _ _ => none

/-- A loop with a variable, in whose body a function is declared that sees it. -/
def going : List Char :=
  "for (var go = true; go; go = false) \x7b fun f() \x7b return go; \x7d print f(); \x7d".toList

/-- The loop turns once in a new session and writes one line, and so does what it means. -/
theorem for_desugars_going :
    let session := start 2 false (fun _ => some 0)
    let s := session.state
    ∃ keyword rest stmt after, (scan going).tokens = keyword :: rest ∧ keyword.kind = .kwFor ∧
      Parse.statement (Parse.budget ⟨keyword :: rest, []⟩ + 1) false ⟨keyword :: rest, []⟩
        = .ok stmt after ∧
      (final (exec session.setting 4 globals stmt s)).output = #[⟨"true", false⟩] ∧
      ∃ clauses body, stmt = clauses.loop body ∧
        (final (forLoop session.setting 4 globals clauses body s)).output = #[⟨"true", false⟩] := by
  intro session s
  have hkind : (scan going).tokens.head?.map Token.kind = some .kwFor := by decide +kernel
  have hreads : (statement? (scan going).tokens).isSome = true := by decide +kernel
  have houtput : (final (exec session.setting 4 globals
      ((statement? (scan going).tokens).getD .missing) s)).output = #[⟨"true", false⟩] := by
    decide +kernel
  cases htokens : (scan going).tokens with
  | nil =>
      rw [htokens] at hkind
      cases hkind
  | cons keyword rest =>
      rw [htokens] at hkind hreads houtput
      have hkeyword : keyword.kind = .kwFor := Option.some.inj hkind
      cases hread : Parse.statement (Parse.budget ⟨keyword :: rest, []⟩ + 1) false
          ⟨keyword :: rest, []⟩ with
      | error halt after =>
          rw [statement?, hread] at hreads
          cases hreads
      | ok stmt after =>
          rw [statement?, hread] at houtput
          have hglobals : session.HasScope globals := Nat.zero_lt_one
          obtain ⟨clauses, body, ⟨_, -, -, hstmt⟩, ⟨sees, -, hsame, -⟩, -⟩ :=
            for_desugars hkeyword hread .refl (start_oblivious 2 false (fun _ => some 0)) hglobals
              (.now (session.opening 4 globals [])) 4 hglobals
          refine ⟨keyword, rest, stmt, after, rfl, hkeyword, hread, houtput, clauses, body, hstmt,
            ?_⟩
          exact hsame.output.trans houtput

end Session.Holder

end LoxLang
