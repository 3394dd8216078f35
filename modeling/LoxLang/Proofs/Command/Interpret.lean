import LoxLang.Command.Outcome
import LoxLang.Proofs.Parse.Faults
import LoxLang.Proofs.Session.Reading

set_option autoImplicit false

/-! # One source text in a session

A source text about which something is reported is not executed. What is reported is never taken for
a failure of a running program, so the two sorts of diagnostics that a session takes note of tell
apart the texts that are rejected from those that fail. To say that a text is not executed, its
execution is made a parameter (`interpretBy`): what becomes of a rejected text is the same whatever
execution would do. -/

namespace LoxLang

/-! ## What is reported while a text is read -/

theorem Scan.ofPieces_lexical {line : Nat} {ps : List Piece} {d : Diagnostic}
    (h : d ∈ (ofPieces line ps).diagnostics) : ∃ line' message, d = .lexical line' message := by
  induction ps generalizing line with
  | nil => cases h
  | cons p ps ih =>
      rw [ofPieces_cons] at h
      rcases mem_add_diagnostics h with ⟨message, hd⟩ | h
      · exact ⟨_, message, hd⟩
      · exact ih h

/-- Nothing that is reported while a text is read is a failure of a running program. -/
theorem Reading.not_isRuntime {source : List Char} {d : Diagnostic}
    (h : d ∈ (ofSource source).diagnostics) : d.isRuntime = false := by
  obtain ⟨parsed, hparsed, hsource⟩ := ofSource_eq source
  rw [hsource] at h
  rcases List.mem_append.mp h with hscan | hparse
  · obtain ⟨line, message, rfl⟩ := Scan.ofPieces_lexical hscan
    rfl
  · obtain ⟨token, fault, -, rfl⟩ := parse?_pointed hparsed d hparse
    rfl

/-- Of diagnostics that are no failures of a running program, it is noted whether there are any. -/
theorem Status.noteAll_reading {ds : List Diagnostic} (h : ∀ d ∈ ds, d.isRuntime = false)
    (status : Status) :
    status.noteAll ds = { status with hadError := status.hadError || !ds.isEmpty } := by
  induction ds generalizing status with
  | nil => simp [noteAll]
  | cons d ds ih =>
      rw [List.forall_mem_cons] at h
      have hnote : status.note d = { status with hadError := true } := by
        rw [note, h.1]
        rfl
      calc status.noteAll (d :: ds)
          = (status.note d).noteAll ds := rfl
        _ = { status with hadError := status.hadError || !(d :: ds).isEmpty } := by
            rw [ih h.2, hnote]
            simp

theorem Session.report_nil (session : Session) : session.report [] = session := by
  show { session with reports := session.reports ++ [] } = session
  rw [List.append_nil]

namespace Command

/-! ## With execution as a parameter -/

/-- What executing statements in a session comes to. -/
abbrev Execution := Session → List Stmt → RunEnd × Session

/-- The execution that goes on in the global scope up to a bound. -/
def globally (bound : Nat) : Execution :=
  fun session stmts => session.run bound Session.globals stmts

/-- Reads a source text and, if nothing has been reported, executes it. -/
def interpretBy (execute : Execution) (session : Session) (source : List Char) :
    Option (Transcript × Session) :=
  let reading := Reading.ofSource source
  let session := session.report reading.diagnostics
  if session.status.hadError then some (flush session)
  else
    match execute session reading.statements with
    | (.finished _, after) => some (flush after)
    | _ => none

theorem interpret_eq (bound : Nat) : interpret bound = interpretBy (globally bound) := rfl

section
variable {execute : Execution} {session after : Session} {source : List Char}

theorem report_hadError (session : Session) (h : (Reading.ofSource source).diagnostics ≠ []) :
    (session.report (Reading.ofSource source).diagnostics).status.hadError = true := by
  show (session.status.noteAll (Reading.ofSource source).diagnostics).hadError = true
  rw [Status.noteAll_reading fun d hd => Reading.not_isRuntime hd]
  simp [h]

/-- A text about which something is reported is not executed, and it leaves the session as it was but
for the report. -/
theorem interpretBy_rejected (execute : Execution) (session : Session)
    (h : (Reading.ofSource source).diagnostics ≠ []) :
    interpretBy execute session source
      = some (flush (session.report (Reading.ofSource source).diagnostics)) := by
  unfold interpretBy
  dsimp only
  rw [if_pos (report_hadError session h)]

/-- A text about which nothing is reported is executed; what is written is what the execution has
written and reported. -/
theorem interpretBy_finished {failure : Option Diagnostic} (hstatus : session.status.hadError = false)
    (h : (Reading.ofSource source).diagnostics = [])
    (hrun : execute session (Reading.ofSource source).statements = (.finished failure, after)) :
    interpretBy execute session source = some (flush after) := by
  unfold interpretBy
  dsimp only
  rw [h, session.report_nil, if_neg (by simp [hstatus]), hrun]

theorem interpretBy_unfinished (hstatus : session.status.hadError = false)
    (h : (Reading.ofSource source).diagnostics = [])
    (hrun : ∀ failure, (execute session (Reading.ofSource source).statements).1 ≠ .finished failure) :
    interpretBy execute session source = none := by
  unfold interpretBy
  dsimp only
  rw [h, session.report_nil, if_neg (by simp [hstatus])]
  cases hfinish : execute session (Reading.ofSource source).statements with
  | mk finish after =>
      rw [hfinish] at hrun
      cases finish with
      | finished failure => exact absurd rfl (hrun failure)
      | defect defect => rfl
      | breakdown => rfl
      | exhausted => rfl

end

end Command

end LoxLang
