import Mathlib.Logic.Relation
import LoxLang.Proofs.Eval.Forest
import LoxLang.Proofs.Session.Depth
import LoxLang.Proofs.Session.Reached

set_option autoImplicit false

/-! # The scopes of a session

Whoever holds a session can read values from it, keep them for as long as they like and hand them back
when the session has long lost them. So a session is looked at together with the values that have been
read from it (`Session.Holder`). Through all that is done with it its scopes make up a forest, and the
values lead to scopes that there are (`Session.Holder.steps_forest`). It does not matter which trees are run
and how the runs end, only that no native function makes up functions of its own. -/

namespace LoxLang

namespace Session

/-- A session and the values that whoever holds it has read from it. -/
structure Holder where
  session : Session
  values : List Value

namespace Holder

/-- The values that can be handed to the session: all but functions, and the functions read from it. -/
def Has (holder : Holder) (value : Value) : Prop :=
  (∀ i f, value ≠ .closure i f) ∨ value ∈ holder.values

/-- What the holder of a session can do. -/
inductive Step : Holder → Holder → Prop
  | get {session : Session} {values : List Value} {scope : Nat} {name : Token} {value : Value} :
    session.get scope name = .ok value → Step ⟨session, values⟩ ⟨session, value :: values⟩
  | newScope {session : Session} {values : List Value} (enclosing : Option Nat) :
    (∀ outer, enclosing = some outer → session.HasScope outer) →
    Step ⟨session, values⟩ ⟨(session.newScope enclosing).2, values⟩
  | define {session : Session} {values : List Value} (scope : Nat) (name : String) {value : Value} :
    Has ⟨session, values⟩ value → Step ⟨session, values⟩ ⟨session.define scope name value, values⟩
  | assign {session after : Session} {values : List Value} {scope : Nat} {name : Token}
    {value : Value} :
    Has ⟨session, values⟩ value → session.assign scope name value = .ok after →
    Step ⟨session, values⟩ ⟨after, values⟩
  | defineNative {session : Session} {values : List Value} (scope : Nat) (name : String)
    {native : Native} :
    native.Passive → Step ⟨session, values⟩ ⟨session.defineNative scope name native, values⟩
  | report {session : Session} {values : List Value} (diagnostics : List Diagnostic) :
    Step ⟨session, values⟩ ⟨session.report diagnostics, values⟩
  | reset {session : Session} {values : List Value} :
    Step ⟨session, values⟩ ⟨session.reset, values⟩
  | takeOutput {session : Session} {values : List Value} :
    Step ⟨session, values⟩ ⟨session.takeOutput.2, values⟩
  | takeReports {session : Session} {values : List Value} :
    Step ⟨session, values⟩ ⟨session.takeReports.2, values⟩
  | run {session : Session} {values : List Value} (bound : Nat) {scope : Nat} (stmts : List Stmt) :
    session.HasScope scope → Step ⟨session, values⟩ ⟨(session.run bound scope stmts).2, values⟩

/-- One thing done after the other. -/
abbrev Steps : Holder → Holder → Prop :=
  Relation.ReflTransGen Step

/-- The scopes of the session make up a forest, and the values lead to scopes that there are. -/
structure Sound (holder : Holder) : Prop where
  natives : ∀ native ∈ holder.session.setting.natives, native.Passive
  forest : holder.session.state.store.Forest
  values : ∀ value ∈ holder.values, value.Lives holder.session.state.store

variable {session : Session} {values : List Value} {holder after : Holder}

theorem start_sound (wanted : Int) (echo : Bool) (readings : Readings) :
    Sound ⟨start wanted echo readings, []⟩ where
  natives := fun native hnative => (start_steady native hnative).passive
  forest := by
    constructor
    · intro scope outer houter
      have hscope : scope < 1 := Store.lt_of_enclosing? houter
      have hzero : scope = 0 := by omega
      rw [hzero] at houter
      cases houter
    · rintro value ⟨scope, here, name, hhere, hvalue⟩
      rw [start_value hhere hvalue]
      exact Value.lives_of_ne (by simp)
  values := fun _ hvalue => absurd hvalue List.not_mem_nil

/-- What the holder can hand to the session leads to scopes that there are. -/
theorem Sound.lives (h : holder.Sound) {value : Value} (hvalue : holder.Has value) :
    value.Lives holder.session.state.store := by
  rcases hvalue with hother | hread
  · exact Value.lives_of_ne hother
  · exact h.values value hread

/-- What happens to the session is no harm as long as it leaves a forest that came about from the one
there was. -/
theorem Sound.of_leads {next : Session} (h : Sound ⟨session, values⟩)
    (hnatives : ∀ native ∈ next.setting.natives, native.Passive)
    (hleads : session.state.Leads next.state) : Sound ⟨next, values⟩ where
  natives := hnatives
  forest := hleads.forest
  values := hleads.values h.values

theorem Sound.define (h : Sound ⟨session, values⟩) (scope : Nat) (name : String) {value : Value}
    (hvalue : value.Lives session.state.store) :
    session.state.Leads (session.define scope name value).state where
  forest := h.forest.define hvalue
  later := (Store.define_grows _ _ _ _).later

/-- A run begins with trees in a scope that there is. -/
theorem Sound.run (h : Sound ⟨session, values⟩) {bound scope : Nat} {stmts : List Stmt}
    (hscope : session.HasScope scope) {calls : Nat} {m : Moment}
    (hm : Moment.During session.setting (session.opening bound scope stmts) calls m) :
    session.state.Leads m.state ∧ m.task.Lives m.state.store ∧
      Eval.Keeps (fun t a => m.task.Yields t.store a) m.state
        (m.task.run session.setting m.bound m.state) := by
  obtain ⟨hleads, hlives⟩ := hm.lives h.natives h.forest hscope
  exact ⟨hleads, hlives, m.task.keeps h.natives m.bound m.state hleads.forest hlives⟩

theorem Sound.step (h : holder.Sound) (hstep : Step holder after) :
    after.Sound ∧ holder.session.state.Leads after.session.state := by
  cases hstep with
  | @get session values scope name value hget =>
      refine ⟨⟨h.natives, h.forest, ?_⟩, State.leads_refl h.forest⟩
      have hvalue : value.Lives session.state.store := by
        unfold Session.get at hget
        cases hfound : session.state.store.get? scope name.lexeme with
        | none => simp [hfound] at hget
        | some found =>
            simp only [hfound, Except.ok.injEq] at hget
            rw [← hget]
            exact h.forest.lives (Store.holds_of_get? hfound)
      exact List.forall_mem_cons.2 ⟨hvalue, h.values⟩
  | @newScope session values enclosing henclosing =>
      have hleads : session.state.Leads (session.newScope enclosing).2.state :=
        ⟨h.forest.newScope henclosing, (Store.newScope_grows _ _).later⟩
      exact ⟨h.of_leads h.natives hleads, hleads⟩
  | @define session values scope name value hvalue =>
      have hleads := h.define scope name (h.lives hvalue)
      exact ⟨h.of_leads h.natives hleads, hleads⟩
  | @assign session after values scope name value hvalue hassign =>
      obtain ⟨owner, -, rfl⟩ := assign_define hassign
      have hleads := h.define owner name.lexeme (h.lives hvalue)
      exact ⟨h.of_leads h.natives hleads, hleads⟩
  | @defineNative session values scope name native hnative =>
      have hleads : session.state.Leads (session.defineNative scope name native).state :=
        h.define scope name (Value.lives_of_ne (by simp))
      refine ⟨h.of_leads ?_ hleads, hleads⟩
      intro other hother
      rcases Array.mem_push.1 hother with hold | rfl
      · exact h.natives other hold
      · exact hnative
  | report diagnostics => exact ⟨⟨h.natives, h.forest, h.values⟩, State.leads_refl h.forest⟩
  | reset => exact ⟨⟨h.natives, h.forest, h.values⟩, State.leads_refl h.forest⟩
  | takeOutput => exact ⟨⟨h.natives, h.forest, h.values⟩, ⟨h.forest, .refl _ _⟩⟩
  | takeReports => exact ⟨⟨h.natives, h.forest, h.values⟩, State.leads_refl h.forest⟩
  | @run session values bound scope stmts hscope =>
      obtain ⟨-, -, hkeeps⟩ := h.run hscope (.now (session.opening bound scope stmts))
      have hleads : session.state.Leads (session.run bound scope stmts).2.state := by
        rw [run_state]
        exact hkeeps.final
      refine ⟨h.of_leads ?_ hleads, hleads⟩
      rw [run_setting]
      exact h.natives

theorem Sound.steps (h : holder.Sound) (hsteps : Steps holder after) :
    after.Sound ∧ holder.session.state.Leads after.session.state := by
  induction hsteps with
  | refl => exact ⟨h, State.leads_refl h.forest⟩
  | tail _ hstep ih =>
      obtain ⟨hsound, hleads⟩ := ih.1.step hstep
      exact ⟨hsound, ih.2.trans hleads⟩

/-- Whatever the holder of a session has done, the scopes make up a forest, where every search for a
name comes to an end, and whatever they go on to do leaves every scope inside the same scope. That goes
for every moment of a run as well. What is called there, the arguments and what is returned lead to
scopes that there are, and so do the values that the holder has read. -/
theorem steps_forest {wanted : Int} {echo : Bool} {readings : Readings} {before after : Holder}
    (hbefore : Steps ⟨start wanted echo readings, []⟩ before) (hafter : Steps before after) :
    let session := after.session
    let store := session.state.store
    (store.Forest ∧ store.Walkable ∧ before.session.state.store.KeepsLinks store) ∧
      (∀ value ∈ after.values, value.Lives store) ∧
      ∀ bound scope stmts, session.HasScope scope →
        ∀ calls m, Moment.During session.setting (session.opening bound scope stmts) calls m →
          let ending := m.final session.setting
          (m.state.store.Forest ∧ m.state.store.Walkable ∧ store.KeepsLinks m.state.store) ∧
            m.task.Lives m.state.store ∧
            (ending.store.Forest ∧ ending.store.Walkable ∧
              m.state.store.KeepsLinks ending.store) ∧
            ∀ a t, m.task.run session.setting m.bound m.state = .ok a t →
              m.task.Yields t.store a := by
  intro session store
  have hbeginning : before.Sound := ((start_sound wanted echo readings).steps hbefore).1
  obtain ⟨hsound, hleads⟩ := hbeginning.steps hafter
  refine ⟨hleads.stands, hsound.values, ?_⟩
  intro bound scope stmts hscope calls m hm ending
  obtain ⟨hbegins, hlives, hkeeps⟩ := hsound.run hscope hm
  refine ⟨hbegins.stands, hlives, hkeeps.final.stands, ?_⟩
  intro a t hrun
  rw [hrun] at hkeeps
  exact hkeeps.2

/-- A text that gets a function out of the call in which it is declared. -/
def escaping : List Char :=
  "fun make() \x7b\n fun inner() \x7b return inner; \x7d return inner; \x7d var f = make();".toList

/-- The function that `f` names was declared in the scope of a call that is over, and that scope is
still there, inside the global one. The same text can be run in that scope, too. -/
theorem steps_forest_escaping :
    let before : Holder := ⟨start 2 false (fun _ => some 0), []⟩
    let stmts := (Reading.ofSource escaping).statements
    let session := (before.session.run 3 globals stmts).2
    let store := session.state.store
    Steps before ⟨session, []⟩ ∧ session.HasScope 1 ∧
      (store.get? globals "f").bind Value.home? = some 1 ∧ store.enclosing? 1 = some globals ∧
      (store.Forest ∧ store.Walkable ∧ before.session.state.store.KeepsLinks store) ∧
      ((session.opening 3 1 stmts).final session.setting).store.Forest := by
  intro before stmts session store
  have hglobals : before.session.HasScope globals := Nat.zero_lt_one
  have hsteps : Steps before ⟨session, []⟩ := .single (.run 3 _ hglobals)
  have hfacts : 1 < store.scopes.size ∧ (store.get? globals "f").bind Value.home? = some 1 ∧
      store.enclosing? 1 = some globals := by
    decide +kernel
  have hscope : session.HasScope 1 := hfacts.1
  obtain ⟨hstands, -, hmoments⟩ := steps_forest .refl hsteps
  obtain ⟨-, -, hending, -⟩ := hmoments 3 1 stmts hscope 0 _ (.now _)
  exact ⟨hsteps, hscope, hfacts.2.1, hfacts.2.2, hstands, hending.1⟩

end Holder

end Session

end LoxLang
