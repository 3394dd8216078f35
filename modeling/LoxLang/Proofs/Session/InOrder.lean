import LoxLang.Proofs.Eval.Return
import LoxLang.Proofs.Session.Safe
import LoxLang.Proofs.Tree.Parts

set_option autoImplicit false

/-! # Programs run through

A `return` that stands in no function would end a run without a word. The grammar has none
(`Exposed`), so when nothing was reported about a program, each of its statements is executed when the
ones before it are done, until there are no more or one of them stops the run
(`Session.accepted_runsInOrder`). -/

namespace LoxLang

namespace Stmt

/-- Whether a statement declares a function. -/
def isFunction : Stmt → Bool
  | .function .. => true
  | _ => false

/-- A statement that stands among some statements, or inside one of them without a function
around it. -/
inductive Exposed : Stmt → List Stmt → Prop
  | here {s : Stmt} {stmts : List Stmt} : s ∈ stmts → Exposed s stmts
  | deeper {s outer : Stmt} {stmts : List Stmt} :
    outer ∈ stmts → outer.isFunction = false → Exposed s outer.inner → Exposed s stmts

theorem anyMayReturn_of_mem {s : Stmt} {stmts : List Stmt} (h : s ∈ stmts)
    (hs : s.mayReturn = true) : anyMayReturn stmts = true := by
  induction stmts with
  | nil => cases h
  | cons first more ih =>
      rw [anyMayReturn, Bool.or_eq_true]
      rcases List.mem_cons.mp h with rfl | h
      · exact Or.inl hs
      · exact Or.inr (ih h)

/-- Unless it declares a function, a statement returns if something right inside it does. -/
theorem mayReturn_of_inner {s : Stmt} (hs : s.isFunction = false)
    (h : anyMayReturn s.inner = true) : s.mayReturn = true := by
  cases s with
  | function name params body => cases hs
  | block body => exact h
  | branch condition thenDo elseDo =>
      cases elseDo with
      | none => simpa [inner, branches, anyMayReturn, mayReturn] using h
      | some elseDo => simpa [inner, branches, anyMayReturn, mayReturn] using h
  | loop condition body => simpa [inner, branches, anyMayReturn, mayReturn] using h
  | _ => cases h

theorem Exposed.mayReturn {s : Stmt} {stmts : List Stmt} (h : Exposed s stmts)
    (hs : s.mayReturn = true) : anyMayReturn stmts = true := by
  induction h with
  | here hmem => exact anyMayReturn_of_mem hmem hs
  | deeper hmem hfunction _ ih => exact anyMayReturn_of_mem hmem (mayReturn_of_inner hfunction ih)

/-- What stands inside is exposed, or else it stands in the body of a function. -/
theorem Inside.exposed_or {s : Stmt} {stmts : List Stmt} (h : Inside s stmts) :
    Exposed s stmts ∨
      ∃ name params body, Inside (.function name params body) stmts ∧ Inside s body := by
  induction h with
  | here hmem => exact Or.inl (.here hmem)
  | @deeper outer stmts hmem hinner ih =>
      rcases ih with hexposed | ⟨name, params, body, hfunction, hbody⟩
      · cases hout : outer.isFunction with
        | false => exact Or.inl (.deeper hmem hout hexposed)
        | true =>
            -- The function farthest out is as good as any.
            cases outer with
            | function name params body => exact Or.inr ⟨name, params, body, .here hmem, hinner⟩
            | _ => cases hout
      · exact Or.inr ⟨name, params, body, .deeper hmem hfunction, hbody⟩

end Stmt

/-- When nothing was reported, no `return` stands outside of functions. -/
theorem parse?_mayReturn {ts : List Token} {parsed : Parsed} (h : parse? ts = some parsed)
    (hquiet : parsed.diagnostics = []) : Stmt.anyMayReturn parsed.statements = false := by
  obtain ⟨us, after, hreported, -, hread⟩ := parse?_reads h
  have hprogram := hread.derived (hreported.trans hquiet)
  exact hprogram.mayReturn

/-! ## One statement after the other -/

namespace Eval

/-- The statements are executed one after the other, each from the state that the one before it leaves,
and all of them come to their end. -/
inductive InOrder (setting : Setting) (bound scope : Nat) : List Stmt → State → State → Prop
  | nil (s : State) : InOrder setting bound scope [] s s
  | cons {stmt : Stmt} {more : List Stmt} {s mid last : State} :
    exec setting bound scope stmt s = .ok .normal mid → InOrder setting bound scope more mid last →
    InOrder setting bound scope (stmt :: more) s last

section
variable {setting : Setting} {bound scope : Nat} {stmt : Stmt} {more : List Stmt} {s last : State}

theorem execAll_cons_ok (h : exec setting bound scope stmt s = .ok .normal last) :
    execAll setting bound scope (stmt :: more) s = execAll setting bound scope more last := by
  have hfirst : execWith setting (invoke setting bound) bound scope stmt s = .ok .normal last := h
  unfold execAll
  rw [execAllWith, bind_run, hfirst]

theorem execAll_cons_error {stop : Stop} (h : exec setting bound scope stmt s = .error stop last) :
    execAll setting bound scope (stmt :: more) s = .error stop last := by
  have hfirst : execWith setting (invoke setting bound) bound scope stmt s = .error stop last := h
  unfold execAll
  rw [execAllWith, bind_run, hfirst]

/-- Statements that do not return are all executed, or those up to the first that stops. -/
theorem execAll_inOrder {stmts : List Stmt} (h : Stmt.anyMayReturn stmts = false) (s : State) :
    (∃ last, InOrder setting bound scope stmts s last ∧
      execAll setting bound scope stmts s = .ok .normal last) ∨
    ∃ done stmt rest mid stop last, stmts = done ++ stmt :: rest ∧
      InOrder setting bound scope done s mid ∧
      exec setting bound scope stmt mid = .error stop last ∧
      execAll setting bound scope stmts s = .error stop last := by
  induction stmts generalizing s with
  | nil => exact Or.inl ⟨s, .nil s, rfl⟩
  | cons stmt more ih =>
      rw [Stmt.anyMayReturn, Bool.or_eq_false_iff] at h
      cases hstmt : exec setting bound scope stmt s with
      | error stop last =>
          exact Or.inr ⟨[], stmt, more, s, stop, last, rfl, .nil s, hstmt, execAll_cons_error hstmt⟩
      | ok flow mid =>
          obtain rfl := execWith_proceeds h.1 s flow mid hstmt
          have hnext : execAll setting bound scope (stmt :: more) s
              = execAll setting bound scope more mid := execAll_cons_ok hstmt
          rw [hnext]
          rcases ih h.2 mid with ⟨last, horder, hrun⟩ |
            ⟨done, next, rest, mid', stop, last, rfl, horder, hstop, hrun⟩
          · exact Or.inl ⟨last, .cons hstmt horder, hrun⟩
          · exact Or.inr ⟨stmt :: done, next, rest, mid', stop, last, rfl, .cons hstmt horder, hstop,
              hrun⟩

end

end Eval

/-- How a run ends that is stopped. -/
def Stop.finish : Stop → RunEnd
  | .failure d => .finished (some d)
  | .defect d => .defect d
  | .breakdown => .breakdown
  | .exhausted => .exhausted

namespace Session

theorem run_of_stop {session : Session} {bound scope : Nat} {stmts : List Stmt} {stop : Stop}
    {last : State}
    (h : Eval.execAll session.setting bound scope stmts session.state = .error stop last) :
    (session.run bound scope stmts).1 = stop.finish ∧
      (session.run bound scope stmts).2.state = last := by
  unfold run
  rw [h]
  cases stop with
  | failure diagnostic => exact ⟨rfl, rfl⟩
  | defect defect => exact ⟨rfl, rfl⟩
  | breakdown => exact ⟨rfl, rfl⟩
  | exhausted => exact ⟨rfl, rfl⟩

/-- A session that there can be is stopped by a failure or by the bound. -/
theorem Reached.stop {session : Session} (h : session.Reached) {bound scope : Nat}
    {stmts : List Stmt} {stop : Stop} (hstmts : List.Forall₂ (Stmt.Like .formed) stmts stmts)
    (hstop : (session.run bound scope stmts).1 = stop.finish) :
    (∃ d, stop = .failure d) ∨ stop = .exhausted := by
  obtain ⟨hbreak, hdefect⟩ := (sound_run h.sound bound scope hstmts).1
  cases stop with
  | failure d => exact Or.inl ⟨d, rfl⟩
  | exhausted => exact Or.inr rfl
  | defect defect => exact absurd hstop (hdefect defect)
  | breakdown => exact absurd hstop hbreak

/-- A program about which nothing was reported has every `return` in a function, and no execution of
one of its statements ends by returning. So a run of it executes all its statements in order, or those
up to the first that stops; a session that there can be is stopped by a failure or by the bound. -/
theorem accepted_runsInOrder {ts : List Token} {parsed : Parsed} (h : parse? ts = some parsed)
    (hquiet : parsed.diagnostics = []) :
    (∀ keyword value, ¬ Stmt.Exposed (.ret keyword value) parsed.statements ∧
      (Stmt.Inside (.ret keyword value) parsed.statements →
        ∃ name params body, Stmt.Inside (.function name params body) parsed.statements ∧
          Stmt.Inside (.ret keyword value) body)) ∧
    (∀ stmt ∈ parsed.statements, ∀ setting bound scope s value after,
      Eval.exec setting bound scope stmt s ≠ .ok (.returning value) after) ∧
    ∀ (session : Session) (bound scope : Nat),
      (∃ last, Eval.InOrder session.setting bound scope parsed.statements session.state last ∧
        session.run bound scope parsed.statements = (.finished none, { session with state := last })) ∨
      ∃ done stmt rest mid stop last, parsed.statements = done ++ stmt :: rest ∧
        Eval.InOrder session.setting bound scope done session.state mid ∧
        Eval.exec session.setting bound scope stmt mid = .error stop last ∧
        (session.run bound scope parsed.statements).1 = stop.finish ∧
        (session.run bound scope parsed.statements).2.state = last ∧
        (session.Reached → (∃ d, stop = .failure d) ∨ stop = .exhausted) := by
  have hreturn : Stmt.anyMayReturn parsed.statements = false := parse?_mayReturn h hquiet
  have hexposed (keyword : Token) (value : Option Expr) :
      ¬ Stmt.Exposed (.ret keyword value) parsed.statements := by
    intro hout
    have hreturns := hout.mayReturn rfl
    rw [hreturn] at hreturns
    cases hreturns
  refine ⟨fun keyword value => ⟨hexposed keyword value, fun hinside => ?_⟩, ?_, ?_⟩
  · exact hinside.exposed_or.resolve_left (hexposed keyword value)
  · intro stmt hmem setting bound scope s value after hexec
    have hstmt : stmt.mayReturn = false := by
      by_contra hne
      have hreturns := Stmt.anyMayReturn_of_mem hmem (Bool.of_not_eq_false hne)
      rw [hreturn] at hreturns
      cases hreturns
    cases Eval.execWith_proceeds hstmt s _ after hexec
  · intro session bound scope
    rcases Eval.execAll_inOrder hreturn session.state with ⟨last, horder, hrun⟩ |
      ⟨done, stmt, rest, mid, stop, last, hsplit, horder, hstop, hrun⟩
    · refine Or.inl ⟨last, horder, ?_⟩
      unfold run
      rw [hrun]
    · obtain ⟨hfinish, hlast⟩ := run_of_stop hrun
      have hformed : List.Forall₂ (Stmt.Like .formed) parsed.statements parsed.statements :=
        Stmt.likeAll_mono (Likeness.fitting_le_formed ts) (parse?_formed h)
      exact Or.inr ⟨done, stmt, rest, mid, stop, last, hsplit, horder, hstop, hfinish, hlast,
        fun hreached => hreached.stop hformed hfinish⟩

/-- A program that returns out of a block in a loop, in a function that it calls before it goes on. -/
def answering : List Char :=
  "fun f() \x7b while (true) \x7b return 1; \x7d \x7d print f(); print 2;".toList

theorem accepted_runsInOrder_answering :
    let session := start 512 false (fun _ => some 0)
    ∃ parsed, parse? (scan answering).tokens = some parsed ∧ parsed.diagnostics = [] ∧
      parsed.statements.length = 3 ∧
      (∀ keyword value, ¬ Stmt.Exposed (.ret keyword value) parsed.statements) ∧
      ∃ last, Eval.InOrder session.setting 3 globals parsed.statements session.state last := by
  intro session
  obtain ⟨parsed, hparsed, hsource⟩ := Reading.ofSource_eq answering
  have hdiagnostics : (Reading.ofSource answering).diagnostics = [] := by decide +kernel
  have hlength : (Reading.ofSource answering).statements.length = 3 := by decide +kernel
  have hrun : (session.run 3 globals (Reading.ofSource answering).statements).1
      = .finished none := by
    decide +kernel
  rw [hsource] at hdiagnostics hlength hrun
  have hquiet : parsed.diagnostics = [] := (List.append_eq_nil_iff.mp hdiagnostics).2
  obtain ⟨hreturns, -, hruns⟩ := accepted_runsInOrder hparsed hquiet
  refine ⟨parsed, hparsed, hquiet, hlength, fun keyword value => (hreturns keyword value).1, ?_⟩
  rcases hruns session 3 globals with ⟨last, horder, -⟩ |
    ⟨done, stmt, rest, mid, stop, last, -, -, -, hfinish, -, -⟩
  · exact ⟨last, horder⟩
  · rw [hrun] at hfinish
    cases stop <;> cases hfinish

end Session

end LoxLang
