import LoxLang.Proofs.Eval.Output
import LoxLang.Proofs.Session.Depth

set_option autoImplicit false

/-! # Echo

A session may echo: it then writes out the values of expression statements, except for assignments. That
is all there is to it. Whether it echoes or not, the same statements are executed and find the same
values, the run ends in the same way, and the session is left the same but for the lines that it has
written (`Session.run_echoing`). -/

namespace LoxLang

namespace Session

/-- The session with or without echo. -/
def echoing (session : Session) (echo : Bool) : Session :=
  { session with setting := session.setting.echoing echo }

/-- The session with other lines written so far. -/
def writing (session : Session) (out : Array Line) : Session :=
  { session with state := session.state.writing out }

/-- A run depends on the echo only by what its statements do. -/
theorem run_of_execAll_writing {session : Session} {echo : Bool} {bound scope : Nat}
    {stmts : List Stmt} {out : Array Line}
    (h : Eval.execAll (session.setting.echoing echo) bound scope stmts session.state
      = Eval.writing out (Eval.execAll session.setting bound scope stmts session.state)) :
    (session.echoing echo).run bound scope stmts
      = ((session.run bound scope stmts).1,
          ((session.run bound scope stmts).2.echoing echo).writing out) := by
  have hexec : Eval.execAll (session.echoing echo).setting bound scope stmts
      (session.echoing echo).state
        = Eval.writing out (Eval.execAll session.setting bound scope stmts session.state) := h
  unfold run
  rw [hexec]
  cases Eval.execAll session.setting bound scope stmts session.state with
  | ok flow t => rfl
  | error stop t => cases stop <;> rfl

/-- With and without echo, one and the same thing is said in a run, and it ends in the same way, with the
same store and the same reports. With echo there is a line for everything that is said, assignments
apart. Without it the lines for expression statements are missing, and no others. -/
theorem run_echoing (session : Session) (bound scope : Nat) (stmts : List Stmt) :
    let loud := session.echoing true
    let quiet := session.echoing false
    let after := (loud.run bound scope stmts).2
    let after' := (quiet.run bound scope stmts).2
    ∃ events,
      (∀ echo other, ((session.echoing echo).opening bound scope stmts).Tells
        (session.echoing echo).setting other ↔ other = events) ∧
      Eval.outcome (Eval.execAll quiet.setting bound scope stmts session.state)
        = Eval.outcome (Eval.execAll loud.setting bound scope stmts session.state) ∧
      (quiet.run bound scope stmts).1 = (loud.run bound scope stmts).1 ∧
      after'.state.store = after.state.store ∧ after'.state.depth = after.state.depth ∧
      after'.state.nativeCalls = after.state.nativeCalls ∧
      after'.status = after.status ∧ after'.reports = after.reports ∧
      after.state.output = session.state.output ++ Event.lines true events ∧
      after'.state.output = session.state.output ++ Event.lines false events ∧
      Event.lines false events = (Event.lines true events).filter fun line => !line.echo := by
  intro loud quiet after after'
  obtain ⟨events, htold⟩ := Task.told session.setting bound (.stmts scope stmts) session.state
  have hexec : ∀ echo, Eval.execAll (session.setting.echoing echo) bound scope stmts session.state
      = Eval.writing (session.state.output ++ Event.lines echo events)
          (Eval.execAll session.setting bound scope stmts session.state) :=
    fun echo => htold.run echo session.state.output
  have hrun : ∀ echo, (session.echoing echo).run bound scope stmts
      = ((session.run bound scope stmts).1, ((session.run bound scope stmts).2.echoing echo).writing
          (session.state.output ++ Event.lines echo events)) :=
    fun echo => run_of_execAll_writing (hexec echo)
  have htells : ∀ echo, ((session.echoing echo).opening bound scope stmts).Tells
      (session.echoing echo).setting events :=
    fun echo => htold.tells echo session.state.output
  have houtcome : ∀ echo, Eval.outcome (Eval.execAll (session.setting.echoing echo) bound scope stmts
      session.state) = Eval.outcome (Eval.execAll session.setting bound scope stmts session.state) := by
    intro echo
    rw [hexec]
    cases Eval.execAll session.setting bound scope stmts session.state with
    | ok flow t => rfl
    | error stop t => rfl
  have hafter : after = ((session.run bound scope stmts).2.echoing true).writing
      (session.state.output ++ Event.lines true events) := congrArg Prod.snd (hrun true)
  have hafter' : after' = ((session.run bound scope stmts).2.echoing false).writing
      (session.state.output ++ Event.lines false events) := congrArg Prod.snd (hrun false)
  have hunique : ∀ echo other, ((session.echoing echo).opening bound scope stmts).Tells
      (session.echoing echo).setting other ↔ other = events := by
    intro echo other
    constructor
    · exact fun hother => (htells echo).unique hother
    · rintro rfl
      exact htells echo
  refine ⟨events, hunique, (houtcome false).trans (houtcome true).symm, ?_, ?_⟩
  · exact (congrArg Prod.fst (hrun false)).trans (congrArg Prod.fst (hrun true)).symm
  · -- All but the output is that of the session itself.
    rw [hafter, hafter']
    exact ⟨rfl, rfl, rfl, rfl, rfl, rfl, rfl, Event.lines_filter events⟩

end Session

end LoxLang
