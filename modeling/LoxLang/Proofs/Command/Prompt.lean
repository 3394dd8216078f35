import LoxLang.Command.Prompt
import LoxLang.Proofs.Command.Interpret
import LoxLang.Proofs.Session.Depth
import LoxLang.Proofs.Session.Safe

set_option autoImplicit false

/-! # Lines that are rejected

At the prompt, a line about which something is reported might as well not have been entered, but for
what is written about it. Before every line the session is as a session should be, with nothing
reported and no call active, whatever the lines before have come to (`Ready`). From there a rejected
line leads back to the same session, so the lines that are accepted do on their own what they do among
the others (`rejected_lines_idle`).

All that is said of the line editor is which lines it hands over (`Hands`). What the loop then comes to
are the answers to these lines, between what the editor shows. -/

namespace LoxLang.Command

/-- Whether nothing is reported while a line is read. -/
def accepts (line : List UInt8) : Bool :=
  (Reading.ofSource (Utf8.decode line)).diagnostics.isEmpty

theorem accepts_iff {line : List UInt8} :
    accepts line = true ↔ (Reading.ofSource (Utf8.decode line)).diagnostics = [] :=
  List.isEmpty_iff

/-- An empty text reads as an empty program. -/
theorem isEmpty_of_rejected {line : List UInt8} (h : accepts line = false) :
    line.isEmpty = false := by
  cases line with
  | nil =>
      have hnil : accepts [] = true := by decide +kernel
      rw [hnil] at h
      cases h
  | cons byte rest => rfl

/-! ## One line -/

/-- What holds of a session whenever a line is asked for. -/
structure Ready (session : Session) : Prop where
  sound : session.Sound
  status : session.status = Status.clear
  depth : session.state.depth = 0
  output : session.state.output = #[]
  reports : session.reports = []

theorem start_ready (wantedDepth : Int) (echo : Bool) (readings : Session.Readings) :
    Ready (Session.start wantedDepth echo readings) where
  sound := Session.sound_start wantedDepth echo readings
  status := rfl
  depth := rfl
  output := rfl
  reports := rfl

section
variable {bound : Nat} {session next : Session} {line : List UInt8}

theorem enter_empty (h : line.isEmpty = true) :
    enter bound session line = some (.empty, session) := by
  unfold enter
  rw [if_pos h]

theorem enter_nonempty (h : line.isEmpty = false) :
    enter bound session line = (interpret bound session (Utf8.decode line)).map
      fun result => (result.1, result.2.reset) := by
  unfold enter
  rw [if_neg (by simp [h])]
  cases interpret bound session (Utf8.decode line) with
  | none => rfl
  | some result => rfl

/-- What is reported in a session that is ready can be written out and forgotten, and the session is as
it was. -/
theorem Ready.flush_report (hready : Ready session) (ds : List Diagnostic) :
    (flush (session.report ds)).1 = ⟨"", Diagnostic.render ds⟩ ∧
      (flush (session.report ds)).2.reset = session := by
  constructor
  · show (⟨renderLines session.state.output.toList,
      Diagnostic.render (session.reports ++ ds)⟩ : Transcript) = _
    rw [hready.output, hready.reports]
    rfl
  · show { session with state.output := #[], status := Status.clear, reports := [] } = session
    rw [← hready.output, ← hready.status, ← hready.reports]

/-- A rejected line is written about. The session stays the same: nothing was executed, and the report
is forgotten. -/
theorem Ready.enter_rejected (hready : Ready session) (h : accepts line = false) :
    enter bound session line
      = some (⟨"", Diagnostic.render (Reading.ofSource (Utf8.decode line)).diagnostics⟩,
          session) := by
  have hdiagnostics : (Reading.ofSource (Utf8.decode line)).diagnostics ≠ [] := by
    intro hquiet
    rw [accepts_iff.mpr hquiet] at h
    cases h
  obtain ⟨hwritten, hsame⟩ :=
    hready.flush_report (Reading.ofSource (Utf8.decode line)).diagnostics
  rw [enter_nonempty (isEmpty_of_rejected h), interpret_eq, interpretBy_rejected _ _ hdiagnostics,
    Option.map_some, hwritten, hsame]

/-- An accepted line is run; it ends, or else its run is exhausted. -/
theorem Ready.enter_accepted (hready : Ready session) (h : accepts line = true)
    (hline : line.isEmpty = false) :
    (∃ failure after,
      session.run bound Session.globals (Reading.ofSource (Utf8.decode line)).statements
        = (.finished failure, after) ∧
      enter bound session line = some ((flush after).1, (flush after).2.reset)) ∨
    ((session.run bound Session.globals
        (Reading.ofSource (Utf8.decode line)).statements).1 = .exhausted ∧
      enter bound session line = none) := by
  have hquiet := accepts_iff.mp h
  have hstatus : session.status.hadError = false := by
    rw [hready.status]
    rfl
  have hsound := Session.sound_run hready.sound bound Session.globals
    (Reading.statements_formed (Utf8.decode line))
  rw [enter_nonempty hline, interpret_eq]
  cases hrun : session.run bound Session.globals
      (Reading.ofSource (Utf8.decode line)).statements with
  | mk finish after =>
      rw [hrun] at hsound
      cases finish with
      | finished failure =>
          have hexecute : globally bound session
              (Reading.ofSource (Utf8.decode line)).statements = (.finished failure, after) := hrun
          refine Or.inl ⟨failure, after, rfl, ?_⟩
          rw [interpretBy_finished hstatus hquiet hexecute, Option.map_some]
      | exhausted =>
          have hendless : ∀ failure, (globally bound session
              (Reading.ofSource (Utf8.decode line)).statements).1 ≠ .finished failure := by
            intro failure
            unfold globally
            rw [hrun]
            simp
          refine Or.inr ⟨rfl, ?_⟩
          rw [interpretBy_unfinished hstatus hquiet hendless, Option.map_none]
      | breakdown => exact absurd rfl hsound.1.1
      | defect defect => exact absurd rfl (hsound.1.2 defect)

/-- Whatever a line has come to, the next one is asked for. -/
theorem Ready.behind (hready : Ready session) {answer : Transcript}
    (h : enter bound session line = some (answer, next)) : Ready next := by
  cases hline : line.isEmpty with
  | true =>
      rw [enter_empty hline] at h
      cases h
      exact hready
  | false =>
      cases haccepts : accepts line with
      | false =>
          rw [hready.enter_rejected haccepts] at h
          cases h
          exact hready
      | true =>
          rcases hready.enter_accepted haccepts hline with ⟨failure, after, hrun, henter⟩ | ⟨-, hnone⟩
          · rw [henter] at h
            cases h
            have hsound := (Session.sound_run hready.sound bound Session.globals
              (Reading.statements_formed (Utf8.decode line))).2
            -- However the run ended, the calls it has made are no longer active.
            have hrest : session.AtRest session.setting.maxDepth := ⟨rfl, hready.depth⟩
            have hdepth := (hrest.run bound Session.globals
              (Reading.ofSource (Utf8.decode line)).statements).depth
            rw [hrun] at hsound hdepth
            exact ⟨⟨hsound.store, hsound.natives⟩, rfl, hdepth, rfl, rfl⟩
          · rw [hnone] at h
            cases h

end

/-! ## One line after the other -/

/-- What is written in answer to each of the lines, and the session behind them. -/
def answers (bound : Nat) (session : Session) :
    List (List UInt8) → Option (List Transcript × Session)
  | [] => some ([], session)
  | line :: more => do
    let (first, session) ← enter bound session line
    let (rest, session) ← answers bound session more
    return (first :: rest, session)

/-- What the program itself writes in all of the answers. -/
def written : List Transcript → String
  | [] => ""
  | first :: rest => first.out ++ written rest

section
variable {bound : Nat} {session last : Session} {given : List Transcript}

theorem answers_cons {line : List UInt8} {more : List (List UInt8)} :
    answers bound session (line :: more) = some (given, last) ↔
      ∃ first next rest, enter bound session line = some (first, next) ∧
        answers bound next more = some (rest, last) ∧ given = first :: rest := by
  rw [answers]
  constructor
  · intro h
    cases henter : enter bound session line with
    | none =>
        rw [henter] at h
        cases h
    | some result =>
        obtain ⟨first, next⟩ := result
        rw [henter] at h
        cases hrest : answers bound next more with
        | none => simp [hrest] at h
        | some result =>
            obtain ⟨rest, last'⟩ := result
            simp only [Option.bind_eq_bind, Option.bind_some, hrest] at h
            cases h
            exact ⟨first, next, rest, rfl, hrest, rfl⟩
  · rintro ⟨first, next, rest, henter, hrest, rfl⟩
    rw [henter]
    simp [hrest]

/-- Before every line that is entered, the ones before it have been answered, and all is ready for
it. -/
theorem Ready.before {before behind : List (List UInt8)} (hready : Ready session)
    (h : answers bound session (before ++ behind) = some (given, last)) :
    ∃ earlier here, answers bound session before = some (earlier, here) ∧ Ready here := by
  induction before generalizing session given with
  | nil => exact ⟨[], session, rfl, hready⟩
  | cons line more ih =>
      rw [List.cons_append] at h
      obtain ⟨first, next, rest, henter, hrest, -⟩ := answers_cons.mp h
      obtain ⟨earlier, here, hearlier, hhere⟩ := ih (hready.behind henter) hrest
      exact ⟨first :: earlier, here, answers_cons.mpr ⟨first, next, earlier, henter, hearlier, rfl⟩,
        hhere⟩

/-- If the lines are not all answered, the run of the first that is not is exhausted. -/
theorem Ready.unanswered {lines : List (List UInt8)} (hready : Ready session)
    (h : answers bound session lines = none) :
    ∃ before line behind earlier here, lines = before ++ line :: behind ∧
      answers bound session before = some (earlier, here) ∧
      (here.run bound Session.globals
        (Reading.ofSource (Utf8.decode line)).statements).1 = .exhausted := by
  induction lines generalizing session with
  | nil => cases h
  | cons line more ih =>
      cases henter : enter bound session line with
      | none =>
          refine ⟨[], line, more, [], session, rfl, rfl, ?_⟩
          cases hline : line.isEmpty with
          | true =>
              rw [enter_empty hline] at henter
              cases henter
          | false =>
              cases haccepts : accepts line with
              | false =>
                  rw [hready.enter_rejected haccepts] at henter
                  cases henter
              | true =>
                  rcases hready.enter_accepted haccepts hline with
                    ⟨failure, after, -, hsome⟩ | ⟨hendless, -⟩
                  · rw [hsome] at henter
                    cases henter
                  · exact hendless
      | some result =>
          obtain ⟨first, next⟩ := result
          have hmore : answers bound next more = none := by
            cases hrest : answers bound next more with
            | none => rfl
            | some result =>
                obtain ⟨rest, last⟩ := result
                rw [answers_cons.mpr ⟨first, next, rest, henter, hrest, rfl⟩] at h
                cases h
          obtain ⟨before, line', behind, earlier, here, rfl, hearlier, hendless⟩ :=
            ih (hready.behind henter) hmore
          have hanswers : answers bound session (line :: before) = some (first :: earlier, here) :=
            answers_cons.mpr ⟨first, next, earlier, henter, hearlier, rfl⟩
          exact ⟨line :: before, line', behind, first :: earlier, here, rfl, hanswers, hendless⟩

/-- The accepted lines do on their own what they do among all lines. -/
theorem Ready.answers_filter {lines : List (List UInt8)} (hready : Ready session)
    (h : answers bound session lines = some (given, last)) :
    ∃ given', answers bound session (lines.filter accepts) = some (given', last) ∧
      written given' = written given := by
  induction lines generalizing session given with
  | nil =>
      cases h
      exact ⟨[], rfl, rfl⟩
  | cons line more ih =>
      obtain ⟨first, next, rest, henter, hrest, rfl⟩ := answers_cons.mp h
      obtain ⟨rest', hrest', hwritten⟩ := ih (hready.behind henter) hrest
      cases haccepts : accepts line with
      | true =>
          rw [List.filter_cons_of_pos haccepts]
          refine ⟨first :: rest', answers_cons.mpr ⟨first, next, rest', henter, hrest', rfl⟩, ?_⟩
          rw [written, written, hwritten]
      | false =>
          -- The session behind a rejected line is the one before it.
          rw [hready.enter_rejected haccepts] at henter
          cases henter
          rw [List.filter_cons_of_neg (by simp [haccepts])]
          refine ⟨rest', hrest', ?_⟩
          rw [hwritten, written, String.empty_append]

end

/-! ## The line editor -/

/-- Asked behind a prompt again and again, the editor hands over lines, each with what it has shown
before, and then no more. What is written in the end comes last, with the state of the editor then. -/
inductive Hands {σ : Type} (editor : Editor σ) (prompt : String) :
    σ → List (String × List UInt8) → Transcript → σ → Prop
  | ended {state last : σ} {shown : String} : editor.ask prompt state = ((shown, .ended), last) →
    Hands editor prompt state [] ⟨shown ++ "\n", ""⟩ last
  | failed {state last : σ} {shown message : String} :
    editor.ask prompt state = ((shown, .failed message), last) →
    Hands editor prompt state [] ⟨shown, message ++ "\n"⟩ last
  | line {state next last : σ} {shown : String} {line : List UInt8}
    {more : List (String × List UInt8)} {closing : Transcript} :
    editor.ask prompt state = ((shown, .line line), next) →
    Hands editor prompt (Repl.noted editor line next) more closing last →
    Hands editor prompt state ((shown, line) :: more) closing last

/-- The answers, each behind what was shown before its line, and what is written in the end. -/
def dialogue (closing : Transcript) : List String → List Transcript → Transcript
  | shown :: more, answer :: rest => ⟨shown, ""⟩ ++ answer ++ dialogue closing more rest
  | _, _ => closing

/-- With an editor that hands over some lines, the loop comes to the answers to these lines. -/
theorem Hands.loop_eq {σ : Type} {editor : Editor σ} {prompt : String} {state last : σ}
    {lines : List (String × List UInt8)} {closing : Transcript}
    (h : Hands editor prompt state lines closing last) (bound : Nat) (session : Session)
    {turns : Nat} (hturns : lines.length < turns) :
    Repl.loop editor bound prompt turns ⟨session, state⟩
      = (answers bound session (lines.map Prod.snd)).map fun result =>
          (dialogue closing (lines.map Prod.fst) result.1, ⟨result.2, last⟩) := by
  -- Every line takes a turn of the loop, and one more turn finds that there are no more.
  induction h generalizing session turns with
  | ended hask =>
      obtain ⟨n, rfl⟩ : ∃ n, turns = n + 1 := ⟨turns - 1, by omega⟩
      rw [Repl.loop, hask]
      rfl
  | failed hask =>
      obtain ⟨n, rfl⟩ : ∃ n, turns = n + 1 := ⟨turns - 1, by omega⟩
      rw [Repl.loop, hask]
      rfl
  | @line state next last shown line more closing hask _ ih =>
      obtain ⟨n, rfl⟩ : ∃ n, turns = n + 1 := ⟨turns - 1, by omega⟩
      have hmore : more.length < n := by simpa using hturns
      rw [Repl.loop, hask, List.map_cons, List.map_cons, answers.eq_2]
      dsimp only
      cases enter bound session line with
      | none => rfl
      | some result =>
          simp only [Option.bind_eq_bind, Option.bind_some, ih result.2 hmore]
          cases answers bound result.2 (more.map Prod.snd) with
          | none => rfl
          | some result => rfl

/-- An editor that recites lines: they are all it can hand over, and it remembers none. -/
def reciting : Editor (List (List UInt8)) where
  start input := [input]
  restore _ lines := lines
  ask prompt
    | [] => ((prompt, .ended), [])
    | line :: more => ((prompt, .line line), more)
  remember _ lines := lines
  kept _ := []

theorem reciting_hands (prompt : String) (lines : List (List UInt8)) :
    Hands reciting prompt lines (lines.map fun line => (prompt, line)) ⟨prompt ++ "\n", ""⟩ [] := by
  induction lines with
  | nil => exact .ended rfl
  | cons line more ih =>
      refine .line rfl ?_
      have hnoted : Repl.noted reciting line more = more := by
        unfold Repl.noted
        split <;> rfl
      rw [hnoted]
      exact ih

/-! ## Rejected lines -/

/-- A line about which something is reported does nothing, and nothing of it shows later on. With any
editor that hands over the lines in order, the loop comes to the answers to them. For lines that are
all answered, the session behind them and all that the program writes are the same without the
rejected lines, given the same readings of the clock; only a line whose run is exhausted is not
answered. Before each line nothing counts as reported and no call is active. -/
theorem rejected_lines_idle (config : Config) (readings : Session.Readings) (bound : Nat)
    (lines : List (List UInt8)) :
    let fresh := Session.start config.maxCallDepth true readings
    (∀ (σ : Type) (editor : Editor σ) prompt state given closing last,
      Hands editor prompt state given closing last → given.map Prod.snd = lines →
      ∀ turns, lines.length < turns →
        Repl.loop editor bound prompt turns ⟨fresh, state⟩
          = (answers bound fresh lines).map fun result =>
              (dialogue closing (given.map Prod.fst) result.1, ⟨result.2, last⟩)) ∧
    (answers bound fresh lines = none →
      ∃ before line behind earlier here, lines = before ++ line :: behind ∧
        answers bound fresh before = some (earlier, here) ∧
        (here.run bound Session.globals
          (Reading.ofSource (Utf8.decode line)).statements).1 = .exhausted) ∧
    ∀ given last, answers bound fresh lines = some (given, last) →
      (∃ given', answers bound fresh (lines.filter accepts) = some (given', last) ∧
        written given' = written given) ∧
      ∀ before line behind, lines = before ++ line :: behind →
        ∃ earlier here, answers bound fresh before = some (earlier, here) ∧
          here.status = ⟨false, false⟩ ∧ here.state.depth = 0 ∧
          (accepts line = false → enter bound here line
            = some (⟨"", Diagnostic.render (Reading.ofSource (Utf8.decode line)).diagnostics⟩,
                here)) := by
  intro fresh
  have hready : Ready fresh := start_ready config.maxCallDepth true readings
  refine ⟨?_, hready.unanswered, ?_⟩
  · rintro σ editor prompt state given closing last hhands rfl turns hturns
    rw [List.length_map] at hturns
    exact hhands.loop_eq bound fresh hturns
  · intro given last hgiven
    refine ⟨hready.answers_filter hgiven, ?_⟩
    rintro before line behind rfl
    obtain ⟨earlier, here, hearlier, hhere⟩ := hready.before hgiven
    exact ⟨earlier, here, hearlier, hhere.status, hhere.depth, hhere.enter_rejected⟩

/-- Lines of which the second is rejected and the fourth fails, two calls deep, in a function that the
first one has left behind; the third reads the clock. -/
def recovering : List (List UInt8) :=
  ["fun f() \x7b return -a; \x7d fun g() \x7b print f(); \x7d", "var a = clock(); var b",
    "var t = clock();", "var a = \"x\"; g();", "a;"].map Utf8.encode

theorem rejected_lines_idle_recovering :
    let readings : Session.Readings := fun n => if n = 0 then some 0 else none
    let fresh := Session.start Config.default.maxCallDepth true readings
    recovering.map accepts = [true, false, true, true, true] ∧
      ∃ given last, answers 3 fresh recovering = some (given, last) ∧
        given.map (fun answer => answer.err.isEmpty) = [true, false, true, false, true] ∧
        written given = "x\n" ∧ last.state.nativeCalls = 1 ∧
        Repl.loop reciting 3 "> " 6 ⟨fresh, recovering⟩
          = some (dialogue ⟨"> \n", ""⟩ (recovering.map fun _ => "> ") given, ⟨last, []⟩) ∧
        ∃ given', answers 3 fresh (recovering.filter accepts) = some (given', last) ∧
          written given' = "x\n" := by
  intro readings fresh
  have haccepts : recovering.map accepts = [true, false, true, true, true] := by decide +kernel
  have hanswers : (answers 3 fresh recovering).map (fun result =>
      (result.1.map (fun answer => answer.err.isEmpty), written result.1,
        result.2.state.nativeCalls))
        = some ([true, false, true, false, true], "x\n", 1) := by
    decide +kernel
  obtain ⟨⟨given, last⟩, hgiven, htexts⟩ := Option.map_eq_some_iff.mp hanswers
  obtain ⟨herr, hrest⟩ := Prod.mk.inj htexts
  obtain ⟨hwritten, hcalls⟩ := Prod.mk.inj hrest
  obtain ⟨hloops, -, hidle⟩ := rejected_lines_idle Config.default readings 3 recovering
  have hlines : (recovering.map fun line => ("> ", line)).map Prod.snd = recovering := by
    rw [List.map_map]
    exact List.map_id recovering
  have hloop := hloops _ reciting "> " recovering _ _ _ (reciting_hands "> " recovering) hlines 6
    (by decide)
  obtain ⟨given', hfiltered, hsame⟩ := (hidle given last hgiven).1
  refine ⟨haccepts, given, last, hgiven, herr, hwritten, hcalls, ?_, given', hfiltered,
    hsame.trans hwritten⟩
  rw [hloop, hgiven, List.map_map]
  rfl

end LoxLang.Command
