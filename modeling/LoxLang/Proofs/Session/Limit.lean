import LoxLang.Proofs.Eval.Plan
import LoxLang.Proofs.Session.LoopFree
import LoxLang.Proofs.Session.Pieces

set_option autoImplicit false

/-! # The limit on active calls

How many calls may be active at once shows in a run only if that number is exceeded. If a run does not
end with a stack overflow, then it is the run with every higher limit, in all there is to it: the way in
which it ends, what it prints and reports, and the store that it leaves (`Session.run_allowing`). -/

namespace LoxLang

namespace Session

/-- The session with another limit on active calls. -/
def allowing (session : Session) (limit : Nat) : Session :=
  { session with setting.maxDepth := limit }

section
variable {session : Session} {low high bound scope : Nat} {stmts : List Stmt}

/-- Statements that do not overflow do the same if more calls may be active. -/
theorem execAll_allowing (hle : low ≤ high)
    (h : ∀ paren t, Eval.execAll (session.allowing low).setting bound scope stmts session.state
      ≠ .error (.overflow paren) t) :
    Eval.execAll (session.allowing high).setting bound scope stmts session.state
      = Eval.execAll (session.allowing low).setting bound scope stmts session.state := by
  let escape : Stop → Prop := fun stop => ∃ paren, stop = .overflow paren
  have hbelow : (session.allowing low).setting.Below escape (session.allowing high).setting :=
    ⟨rfl, rfl, hle, Or.inr fun paren => ⟨paren, rfl⟩⟩
  have happrox := Eval.execAll_approx hbelow (Or.inl rfl : Eval.ApproxBound escape bound bound)
    scope stmts
  apply happrox.eq
  rintro stop t hstop ⟨paren, rfl⟩
  exact h paren t hstop

/-- A run depends on the limit only by what its statements do. -/
theorem run_of_execAll_eq
    (h : Eval.execAll (session.allowing high).setting bound scope stmts session.state
      = Eval.execAll (session.allowing low).setting bound scope stmts session.state) :
    (session.allowing high).run bound scope stmts
      = (((session.allowing low).run bound scope stmts).1,
          ((session.allowing low).run bound scope stmts).2.allowing high) := by
  have hstate : ∀ limit, (session.allowing limit).state = session.state := fun _ => rfl
  unfold run
  rw [hstate, hstate, h]
  cases Eval.execAll (session.allowing low).setting bound scope stmts session.state with
  | ok flow t => rfl
  | error stop t => cases stop <;> rfl

/-- A run that does not end with a stack overflow is the run with any higher limit. Its statements end
in the same way, and so does the run, with the same session but for the limit. If it has come to its
end, then so has the other one, whatever the bound. -/
theorem run_allowing (hle : low ≤ high)
    (h : ∀ token message, ((session.allowing low).run bound scope stmts).1
      ≠ .finished (some (.runtime token .stackOverflow message))) :
    let lower := session.allowing low
    let higher := session.allowing high
    Eval.execAll higher.setting bound scope stmts session.state
        = Eval.execAll lower.setting bound scope stmts session.state ∧
      higher.run bound scope stmts
        = ((lower.run bound scope stmts).1, (lower.run bound scope stmts).2.allowing high) ∧
      ((lower.run bound scope stmts).1 ≠ .exhausted → ∀ greater, bound ≤ greater →
        higher.run greater scope stmts = higher.run bound scope stmts) := by
  intro lower higher
  have hexec : Eval.execAll higher.setting bound scope stmts session.state
      = Eval.execAll lower.setting bound scope stmts session.state := by
    apply execAll_allowing hle
    intro paren t hstop
    exact h paren _ (run_failure_iff.2 ⟨t, hstop⟩)
  have hrun : higher.run bound scope stmts
      = ((lower.run bound scope stmts).1, (lower.run bound scope stmts).2.allowing high) :=
    run_of_execAll_eq hexec
  refine ⟨hexec, hrun, fun hends greater hgreater => run_of_le hgreater ?_⟩
  rw [hrun]
  exact hends

end

/-- A text with a function that calls itself once. -/
def returningTwice : List Char :=
  "fun f(again) \x7b if (again) return f(false); return \"done\"; \x7d print f(true);".toList

/-- Two active calls are enough for it, so ten thousand make no difference. -/
theorem run_allowing_returningTwice :
    let session := start 0 false (fun _ => some 0)
    let stmts := (Reading.ofSource returningTwice).statements
    2 ≤ 10000 ∧
      (∀ token message, ((session.allowing 2).run 4 globals stmts).1
        ≠ .finished (some (.runtime token .stackOverflow message))) ∧
      ((session.allowing 10000).run 4 globals stmts).1 = .finished none ∧
      ((session.allowing 10000).run 4 globals stmts).2.state.output = #[⟨"done", false⟩] ∧
      (session.allowing 10000).run 100 globals stmts = (session.allowing 10000).run 4 globals stmts := by
  intro session stmts
  have hlow : ((session.allowing 2).run 4 globals stmts).1 = .finished none ∧
      ((session.allowing 2).run 4 globals stmts).2.state.output = #[⟨"done", false⟩] := by
    decide +kernel
  have hquiet : ∀ token message, ((session.allowing 2).run 4 globals stmts).1
      ≠ .finished (some (.runtime token .stackOverflow message)) := by
    intro token message hstop
    rw [hlow.1] at hstop
    cases hstop
  have hle : 2 ≤ 10000 := by omega
  obtain ⟨-, hrun, hgreater⟩ := run_allowing hle hquiet
  refine ⟨hle, hquiet, ?_, ?_, hgreater ?_ 100 (by omega)⟩
  · rw [hrun]
    exact hlow.1
  · rw [hrun]
    exact hlow.2
  · rw [hlow.1]
    exact RunEnd.noConfusion

end Session

end LoxLang
