import LoxLang.Proofs.Parse.Accepts
import LoxLang.Proofs.Parse.Lookahead

set_option autoImplicit false

/-! # Reading in turns

Programs and blocks are read in turns, each of which reads a declaration or gives one up. `Turns` is
the relation between the cursor before and behind some turns. It leaves out the budget, which only has
to be large enough (`Settles`), so turns are put together by putting the inputs together. -/

namespace LoxLang.Parse

open Grammar

/-! ## Budgets that are large enough -/

/-- With every budget that is large enough, the rule ends like this. -/
def Settles {α : Type} (r : Nat → Rule α) (c : Cursor) (result : EStateM.Result Halt Cursor α) :
    Prop :=
  ∃ enough, ∀ n, enough ≤ n → r n c = result

theorem Settles.unique {α : Type} {r : Nat → Rule α} {c : Cursor}
    {result result' : EStateM.Result Halt Cursor α} (h : Settles r c result)
    (h' : Settles r c result') : result = result' := by
  obtain ⟨n, hn⟩ := h
  obtain ⟨m, hm⟩ := h'
  rw [← hn (max n m) (Nat.le_max_left n m), hm (max n m) (Nat.le_max_right n m)]

/-- A rule that calls another with a smaller budget. -/
theorem Settles.step {α β : Type} {r : Nat → Rule α} {q : Nat → Rule β} {c d : Cursor}
    {result : EStateM.Result Halt Cursor α} {result' : EStateM.Result Halt Cursor β}
    (h : Settles r c result) (hq : ∀ n, r n c = result → q (n + 1) d = result') :
    Settles q d result' := by
  obtain ⟨enough, hr⟩ := h
  refine ⟨enough + 1, fun n hn => ?_⟩
  obtain ⟨n, rfl⟩ : ∃ k, n = k + 1 := ⟨n - 1, by omega⟩
  exact hq n (hr n (by omega))

theorem Settles.and {α β : Type} {r : Nat → Rule α} {q : Nat → Rule β} {c d : Cursor}
    {result : EStateM.Result Halt Cursor α} {result' : EStateM.Result Halt Cursor β}
    (h : Settles r c result) (h' : Settles q d result') :
    ∃ enough, ∀ n, enough ≤ n → r n c = result ∧ q n d = result' := by
  obtain ⟨n, hn⟩ := h
  obtain ⟨m, hm⟩ := h'
  exact ⟨max n m, fun k hk => ⟨hn k (by omega), hm k (by omega)⟩⟩

/-- A program that has been read is read in the same way with any larger budget, whatever has been
reported before and whatever stands behind the end. -/
theorem program_settles_append {n : Nat} {ts : List Token} {old : List Diagnostic}
    {stmts : List Stmt} {after : Cursor} (h : program n ⟨ts, old⟩ = .ok stmts after) :
    ∃ new, after.reported = old ++ new ∧ ∀ old' rest,
      Settles program ⟨ts ++ rest, old'⟩ (.ok stmts ⟨after.rest ++ rest, old' ++ new⟩) := by
  have hahead : 0 < after.rest.length := by
    have hreads := reads_program n ⟨ts, old⟩
    unfold Reads at hreads
    rw [h] at hreads
    obtain ⟨_, _, _, _, t, more, hrest, _⟩ := hreads
    rw [hrest]
    exact Nat.succ_pos _
  have hagrees (m : Nat) (hm : n ≤ m) (old' : List Diagnostic) (rest : List Token) :
      Agrees [] rest old old' (program n ⟨ts, old⟩) (program m ⟨ts ++ rest, old'⟩) := by
    rw [← Script.run_program, ← Script.run_program]
    exact (Script.below_program hm).beside (Nat.zero_le _) ⟨ts, [], by simp, by simp⟩
  rw [h] at hagrees
  obtain ⟨_, _, ahead, new, rfl, -⟩ := hagrees n (Nat.le_refl n) old [] hahead
  refine ⟨new, rfl, fun old' rest => ⟨n, fun m hm => ?_⟩⟩
  obtain ⟨d', hrun, ahead', new', heq, rfl⟩ := hagrees m hm old' rest hahead
  obtain ⟨hahead', hnew⟩ := Cursor.mk.inj heq
  rw [hrun, List.append_cancel_left hnew, hahead', List.append_nil]

theorem program_settles {n : Nat} {ts : List Token} {old : List Diagnostic} {stmts : List Stmt}
    {after : Cursor} (h : program n ⟨ts, old⟩ = .ok stmts after) :
    ∃ new, after.reported = old ++ new ∧
      ∀ old', Settles program ⟨ts, old'⟩ (.ok stmts ⟨after.rest, old' ++ new⟩) := by
  obtain ⟨new, hnew, hsettles⟩ := program_settles_append h
  refine ⟨new, hnew, fun old' => ?_⟩
  simpa only [List.append_nil] using hsettles old' []

theorem parse?_eq_some_iff_settles {ts : List Token} {stmts : List Stmt}
    {errors : List Diagnostic} : parse? ts = some ⟨stmts, errors⟩ ↔
      ∃ rest, Settles program ⟨ts, []⟩ (.ok stmts ⟨rest, errors⟩) := by
  constructor
  · intro h
    obtain ⟨after, hrun, hreported⟩ := parse?_eq_some.mp h
    obtain ⟨new, hnew, hsettles⟩ := program_settles hrun
    have : new = errors := by simpa [hnew] using hreported
    exact ⟨after.rest, this ▸ hsettles []⟩
  · rintro ⟨rest, hsettles⟩
    -- A list that reads as something with some budget holds an end of input, so it reads as
    -- something with the budget that is used; and that is the same.
    obtain ⟨enough, hrun⟩ := hsettles
    have hreads := reads_program enough ⟨ts, []⟩
    unfold Reads at hreads
    rw [hrun enough (Nat.le_refl _)] at hreads
    obtain ⟨us, htook, -, -, t, more, hrest, ht⟩ := hreads
    have hinner : ¬ Inner ts := by
      intro h
      have hts : ts = us ++ t :: more := hrest ▸ htook.rest
      exact h t (by simp [hts]) ht
    obtain ⟨parsed, hparsed⟩ := Option.isSome_iff_exists.mp (parse?_isSome hinner)
    obtain ⟨after, hrun', hreported⟩ := parse?_eq_some.mp hparsed
    obtain ⟨new, hnew, hsettles'⟩ := program_settles hrun'
    have heq := Settles.unique ⟨enough, hrun⟩ (hsettles' [])
    cases heq
    rw [hparsed]
    congr 1
    rw [show parsed = ⟨parsed.statements, parsed.diagnostics⟩ from rfl, ← hreported, hnew]

/-- A declaration that is given up before a point in the input is given up in the same way whatever
stands behind that point. -/
theorem declaration_fault_settles {n : Nat} {ahead unread left right : List Token}
    {old reported : List Diagnostic} {diagnostic : Diagnostic}
    (h : declaration n false ⟨ahead ++ left, old⟩
      = .error (.fault diagnostic) ⟨unread ++ left, reported⟩)
    (hunread : unread ≠ []) (hlen : left.length ≤ right.length) :
    ∃ new, reported = old ++ new ∧ ∀ old', Settles (declaration · false) ⟨ahead ++ right, old'⟩
      (.error (.fault diagnostic) ⟨unread ++ right, old' ++ new⟩) := by
  have hahead : left.length < (unread ++ left).length := by
    have := List.length_pos_iff.mpr hunread
    rw [List.length_append]
    omega
  have hagrees (m : Nat) (hm : n ≤ m) (right : List Token) (hlen : left.length ≤ right.length)
      (old' : List Diagnostic) :
      Agrees left right old old' (declaration n false ⟨ahead ++ left, old⟩)
        (declaration m false ⟨ahead ++ right, old'⟩) := by
    rw [← (Script.stmtScripts n).declaration, ← (Script.stmtScripts m).declaration]
    exact ((Script.stmtsBelow hm).declaration false).beside hlen ⟨ahead, [], by simp, by simp⟩
  rw [h] at hagrees
  obtain ⟨_, _, us, new, heq, -⟩ := hagrees n (Nat.le_refl n) left (Nat.le_refl _) old hahead
  obtain ⟨hus, rfl⟩ := Cursor.mk.inj heq
  refine ⟨new, rfl, fun old' => ⟨n, fun m hm => ?_⟩⟩
  obtain ⟨d', hrun, us', new', heq', rfl⟩ := hagrees m hm right hlen old' hahead
  obtain ⟨hus', hnew⟩ := Cursor.mk.inj heq'
  show declaration m false _ = _
  rw [hrun, List.append_cancel_left hnew, List.append_cancel_right hus']

/-! ## Turns -/

/-- The kinds that a turn of a loop over declarations starts with. -/
def Opens (kind : Kind) : Prop := kind ≠ .rightBrace ∧ kind ≠ .endOfInput

/-- Some turns at reading declarations outside of functions, from one cursor to another. -/
inductive Turns : Cursor → List Stmt → Cursor → Prop
  | none (c : Cursor) : Turns c [] c
  | read {t : Token} {ts : List Token} {reported : List Diagnostic} {s : Stmt} {stmts : List Stmt}
      {d after : Cursor} (ht : Opens t.kind)
      (hdecl : Settles (declaration · false) ⟨t :: ts, reported⟩ (.ok s d))
      (hmore : Turns d stmts after) : Turns ⟨t :: ts, reported⟩ (s :: stmts) after
  | giveUp {t : Token} {ts rest : List Token} {reported : List Diagnostic} {stmts : List Stmt}
      {diagnostic : Diagnostic} {d after : Cursor} (ht : Opens t.kind)
      (hdecl : Settles (declaration · false) ⟨t :: ts, reported⟩ (.error (.fault diagnostic) d))
      (hrest : resume? d.rest = some rest)
      (hmore : Turns ⟨rest, d.reported ++ [diagnostic]⟩ stmts after) :
      Turns ⟨t :: ts, reported⟩ stmts after

theorem Turns.trans {c d e : Cursor} {stmts stmts' : List Stmt} (h : Turns c stmts d)
    (h' : Turns d stmts' e) : Turns c (stmts ++ stmts') e := by
  induction h with
  | none c => exact h'
  | read ht hdecl _ ih => exact .read ht hdecl (ih h')
  | giveUp ht hdecl hrest _ ih => exact .giveUp ht hdecl hrest (ih h')

/-- A turn in which the declaration is read. -/
theorem orSync_ok {r : Rule Stmt} {c d : Cursor} {s : Stmt} (h : r c = .ok s d) :
    orSync r c = .ok (some s) d := by
  simp only [orSync, h]

/-- A turn in which it is given up. -/
theorem orSync_fault {r : Rule Stmt} {c d : Cursor} {diagnostic : Diagnostic} {rest : List Token}
    (h : r c = .error (.fault diagnostic) d) (hrest : resume? d.rest = some rest) :
    orSync r c = .ok none ⟨rest, d.reported ++ [diagnostic]⟩ := by
  simp only [orSync, h, sync_run, hrest]

theorem orSync_eq_none {r : Rule Stmt} {c d : Cursor} (h : orSync r c = .ok none d) :
    ∃ diagnostic e rest, r c = .error (.fault diagnostic) e ∧ resume? e.rest = some rest ∧
      d = ⟨rest, e.reported ++ [diagnostic]⟩ := by
  unfold orSync at h
  cases hr : r c with
  | ok s e =>
      rw [hr] at h
      cases h
  | error halt e =>
      rw [hr] at h
      cases halt with
      | ranOut => cases h
      | overBudget => cases h
      | fault diagnostic =>
          simp only [sync_run] at h
          cases hresume : resume? e.rest with
          | none =>
              rw [hresume] at h
              cases h
          | some rest =>
              rw [hresume] at h
              cases h
              exact ⟨diagnostic, e, rest, rfl, hresume, rfl⟩

/-- A rule that reads declarations in turns, outside of functions. -/
def InTurns (loop : Nat → Rule (List Stmt)) : Prop :=
  ∀ n t ts reported, Opens t.kind → loop (n + 1) ⟨t :: ts, reported⟩ =
    (do
      let stmt ← orSync (declaration n false)
      let more ← loop n
      return stmt.toList ++ more) ⟨t :: ts, reported⟩

theorem program_inTurns : InTurns program := by
  intro n t ts reported ht
  rw [program, bind_run]
  have hsees : sees .endOfInput ⟨t :: ts, reported⟩ = .ok false ⟨t :: ts, reported⟩ := by
    have : (t.kind == .endOfInput) = false := beq_false_of_ne ht.2
    show EStateM.Result.ok (t.kind == .endOfInput) _ = _
    rw [this]
  rw [hsees]
  rfl

theorem block_inTurns : InTurns (block · false) := by
  intro n t ts reported ht
  show block (n + 1) false _ = _
  rw [block, bind_run]
  have hstop : (t.kind == .rightBrace || t.kind == .endOfInput) = false := by
    rw [beq_false_of_ne ht.1, beq_false_of_ne ht.2]
    rfl
  simp only [peek, hstop]
  rfl

/-- What is read behind some turns is read behind them in the same loop. -/
theorem Turns.settles {loop : Nat → Rule (List Stmt)} (hloop : InTurns loop) {c d after : Cursor}
    {stmts more : List Stmt} (h : Turns c stmts d) (hmore : Settles loop d (.ok more after)) :
    Settles loop c (.ok (stmts ++ more) after) := by
  induction h with
  | none c => exact hmore
  | read ht hdecl _ ih =>
      obtain ⟨enough, hn⟩ := hdecl.and (ih hmore)
      refine ⟨enough + 1, fun n hle => ?_⟩
      obtain ⟨n, rfl⟩ : ∃ k, n = k + 1 := ⟨n - 1, by omega⟩
      obtain ⟨hread, hrest⟩ := hn n (by omega)
      rw [hloop n _ _ _ ht, bind_run, orSync_ok hread]
      simp only [bind_run, hrest]
      rfl
  | giveUp ht hdecl hresume _ ih =>
      obtain ⟨enough, hn⟩ := hdecl.and (ih hmore)
      refine ⟨enough + 1, fun n hle => ?_⟩
      obtain ⟨n, rfl⟩ : ∃ k, n = k + 1 := ⟨n - 1, by omega⟩
      obtain ⟨hread, hrest⟩ := hn n (by omega)
      rw [hloop n _ _ _ ht, bind_run, orSync_fault hread hresume]
      simp only [bind_run, hrest]
      rfl

theorem program_atEnd {eof : Token} (heof : eof.kind = .endOfInput) (rest : List Token)
    (reported : List Diagnostic) :
    Settles program ⟨eof :: rest, reported⟩ (.ok [] ⟨eof :: rest, reported⟩) := by
  refine ⟨1, fun n hn => ?_⟩
  obtain ⟨n, rfl⟩ : ∃ k, n = k + 1 := ⟨n - 1, by omega⟩
  have hsees : sees .endOfInput ⟨eof :: rest, reported⟩ = .ok true ⟨eof :: rest, reported⟩ := by
    show EStateM.Result.ok (eof.kind == .endOfInput) _ = _
    rw [heof]
    rfl
  rw [program, bind_run, hsees]
  rfl

/-- A program is read in turns up to whatever stands behind it, unless that is an `else`. -/
theorem turns_program {ts : List Token} {stmts : List Stmt} (h : Program .nearest ts stmts)
    {t : Token} (ht : t.kind ≠ .kwElse) (rest : List Token) (reported : List Diagnostic) :
    Turns ⟨ts ++ t :: rest, reported⟩ stmts ⟨t :: rest, reported⟩ := by
  induction h with
  | empty => exact .none _
  | @more ts us s stmts h hmore ih =>
      have hnext : ∃ next more, us ++ t :: rest = next :: more ∧ next.kind ≠ .kwElse := by
        cases hmore with
        | empty => exact ⟨t, rest, rfl, ht⟩
        | more h' _ =>
            obtain ⟨next, others, rfl, hk⟩ := h'.first
            exact ⟨next, _, rfl, (startsDeclaration_kind hk).2.2⟩
      obtain ⟨next, more, hnext, helse⟩ := hnext
      obtain ⟨first, others, hts, hk⟩ := h.first
      obtain ⟨hbrace, hend, -⟩ := startsDeclaration_kind hk
      have hdecl : Settles (declaration · false) ⟨ts ++ next :: more, reported⟩
          (.ok s ⟨next :: more, reported⟩) :=
        ⟨_, fun n hn => declaration_takes h n next more helse hn reported⟩
      rw [List.append_assoc, hnext]
      rw [hnext] at ih
      rw [hts] at hdecl ⊢
      exact .read ⟨hbrace, hend⟩ hdecl ih

theorem declaration_statement {n : Nat} {inFunction : Bool} {t : Token} {ts : List Token}
    {reported : List Diagnostic} (ht : t.kind ∉ [.kwFun, .kwVar]) :
    declaration (n + 1) inFunction ⟨t :: ts, reported⟩
      = statement n inFunction ⟨t :: ts, reported⟩ := by
  rw [← (Script.stmtScripts (n + 1)).declaration, Script.declaration, Script.run_next_cons,
    if_neg (by simp [ht]), (Script.stmtScripts n).statement]

/-- A block of turns is read as one statement. -/
theorem turns_block {opening closing : Token} {ts rest : List Token} {stmts : List Stmt}
    {old reported : List Diagnostic} (hopening : opening.kind = .leftBrace)
    (hclosing : closing.kind = .rightBrace)
    (h : Turns ⟨ts, old⟩ stmts ⟨closing :: rest, reported⟩) :
    Turns ⟨opening :: ts, old⟩ [.block stmts] ⟨rest, reported⟩ := by
  have hclose : Settles (block · false) ⟨closing :: rest, reported⟩ (.ok [] ⟨rest, reported⟩) :=
    ⟨_, fun n hn => takesBody_close hclosing n rest hn reported⟩
  have hblock := h.settles block_inTurns hclose
  rw [List.append_nil] at hblock
  have hstmt : Settles (statement · false) ⟨opening :: ts, old⟩
      (.ok (.block stmts) ⟨rest, reported⟩) := by
    refine hblock.step fun n hn => ?_
    show statement (n + 1) false _ = _
    rw [← (Script.stmtScripts (n + 1)).statement, Script.statement, Script.run_next_cons,
      if_pos (by simp [hopening]), hopening, Script.run_bind, (Script.stmtScripts n).block, bind_run, hn]
    rfl
  have hdecl : Settles (declaration · false) ⟨opening :: ts, old⟩
      (.ok (.block stmts) ⟨rest, reported⟩) := by
    refine hstmt.step fun n hn => ?_
    show declaration (n + 1) false _ = _
    rw [declaration_statement (by rw [hopening]; decide)]
    exact hn
  refine .read ?_ hdecl (.none _)
  rw [hopening]
  exact ⟨by decide, by decide⟩

end LoxLang.Parse

namespace LoxLang

open Parse

/-- What is read behind some turns is what would be read there alone. -/
theorem parse?_turns {ts rest : List Token} {stmts : List Stmt} {errors : List Diagnostic}
    {parsed : Parsed} (h : Turns ⟨ts, []⟩ stmts ⟨rest, errors⟩) (hparsed : parse? rest = some parsed) :
    parse? ts = some ⟨stmts ++ parsed.statements, errors ++ parsed.diagnostics⟩ := by
  obtain ⟨after, hrun, hreported⟩ := parse?_eq_some.mp hparsed
  obtain ⟨new, hnew, hsettles⟩ := program_settles hrun
  have hdiagnostics : parsed.diagnostics = new := by simpa [hnew] using hreported.symm
  rw [hdiagnostics]
  exact parse?_eq_some_iff_settles.mpr ⟨_, h.settles program_inTurns (hsettles errors)⟩

theorem parse?_exists (ts : List Token) {eof : Token} (heof : eof.kind = .endOfInput) :
    ∃ parsed, parse? (ts ++ [eof]) = some parsed := by
  refine Option.isSome_iff_exists.mp (parse?_isSome fun h => ?_)
  exact (inner_append.mp h).2 eof (List.mem_singleton.mpr rfl) heof

/-- What stands behind an end of input makes no difference. -/
theorem parse?_append_end (front rest : List Token) {eof : Token} (heof : eof.kind = .endOfInput) :
    parse? (front ++ eof :: rest) = parse? (front ++ [eof]) := by
  obtain ⟨parsed, hparsed⟩ := parse?_exists front heof
  obtain ⟨after, hrun, hreported⟩ := parse?_eq_some.mp hparsed
  obtain ⟨new, hnew, hsettles⟩ := program_settles_append hrun
  have hwhole := hsettles [] rest
  rw [List.append_assoc, List.singleton_append] at hwhole
  rw [hparsed, parse?_eq_some_iff_settles.mpr ⟨_, hwhole⟩, ← hnew, hreported]

end LoxLang
