import LoxLang.Proofs.Parse.Walk
import LoxLang.Proofs.Session.Reached
import LoxLang.Proofs.Session.Reading
import LoxLang.Proofs.Token.Sweep
import LoxLang.Text.Utf8

set_option autoImplicit false

/-! # No source text brings a session down

A tree that was read from a source text has no hole and only operators that there are, whatever was
reported while reading it. So has the body of every function that comes about by running such trees,
and they are all the functions a session gets hold of. With that, none of the ways to stop that a
defective tree would lead to is ever taken, in this run or in a later one (`Session.Reached.safe`).
Before that, the text and its tokens can be read by position without ever asking for something that is
not there. -/

namespace LoxLang

/-- The ways to stop that a program can be blamed for, or the bound. -/
def Stop.isSound : Stop → Bool
  | .failure _ | .exhausted => true
  | .defect _ | .breakdown => false

/-- The states in which all functions have well-formed bodies, paired with themselves. -/
def soundness : Pairing :=
  .everywhere .formed fun _ _ => True

/-- One run twice, which stops in no unsound way. -/
def safety (setting : Setting) : Sim where
  toPairing := soundness
  left := setting
  right := setting
  stop := fun e _ => e.isSound = true
  escape := fun _ => False

theorem soundness_token {ρ : Role} {t u : Token} (h : soundness.like.token ρ t u) : u = t :=
  h.1.symm

theorem safety_lawful {setting : Setting} (h : ∀ native ∈ setting.natives, native.Steady) :
    (safety setting).Lawful where
  token := by
    rintro ρ t u ⟨rfl, -⟩
    exact ⟨rfl, rfl⟩
  fault := fun _ _ => rfl
  plain := fun _ _ => rfl
  operator := fun ht => Or.inl ht.2
  holes := fun hholes => hholes.elim
  print := fun _ _ => trivial
  echo := fun _ _ => trivial
  natives := by
    refine Sim.natives_rel fun native hnative => ?_
    have hsteady := h native hnative
    exact Sim.nativeRel_of_passive soundness_token hsteady.passive (congrArg native.run ·.symm)
      (Or.inr hsteady.lasts)
  moment := congrArg (· + 1)
  pending := Or.inr rfl
  depth := Nat.le_refl _
  overflow := Or.inl rfl

namespace Session

/-- What every session there can be keeps up. -/
structure Sound (session : Session) : Prop where
  store : soundness.StoreRel session.state.store session.state.store
  natives : ∀ native ∈ session.setting.natives, native.Steady

/-- The values a sound session knows have well-formed bodies. -/
theorem Sound.value {session : Session} (h : session.Sound) {value : Value}
    (hvalue : session.Knows value) : soundness.ValueRel value value := by
  rcases hvalue with hvalue | ⟨scope, name, hget⟩
  · exact Value.rel_self value fun i f heq => absurd heq (hvalue i f)
  · have hscope : soundness.region scope := trivial
    have hrel := h.store.get name hscope
    rw [hget] at hrel
    cases hrel with
    | some hrel => exact hrel

theorem sound_newScope {session : Session} (h : session.Sound) (enclosing : Option Nat) :
    (session.newScope enclosing).2.Sound where
  store := h.store.newScope enclosing fun _ _ => trivial
  natives := h.natives

theorem sound_define {session : Session} (h : session.Sound) (scope : Nat) (name : String)
    {value : Value} (hvalue : soundness.ValueRel value value) :
    (session.define scope name value).Sound where
  store := h.store.define name trivial hvalue
  natives := h.natives

theorem sound_defineNative {session : Session} (h : session.Sound) (scope : Nat) (name : String)
    {native : Native} (hnative : native.Steady) :
    (session.defineNative scope name native).Sound := by
  have hadded : ({ session with
      setting.natives := session.setting.natives.push native } : Session).Sound := by
    refine ⟨h.store, fun other hother => ?_⟩
    rcases Array.mem_push.mp hother with hother | rfl
    · exact h.natives other hother
    · exact hnative
  exact sound_define hadded scope name (.native _)

theorem sound_start (wantedDepth : Int) (echo : Bool) (readings : Readings) :
    (start wantedDepth echo readings).Sound where
  store := by
    refine Pairing.storeRel_self fun scope here name i f hhere hvalue => ?_
    cases start_value hhere hvalue
  natives := start_steady

/-- Well-formed statements stop in no unsound way and leave a sound session. -/
theorem sound_run {session : Session} (h : session.Sound) (bound scope : Nat) {stmts : List Stmt}
    (hstmts : List.Forall₂ (Stmt.Like .formed) stmts stmts) :
    ((session.run bound scope stmts).1 ≠ .breakdown ∧
      ∀ defect, (session.run bound scope stmts).1 ≠ .defect defect) ∧
      (session.run bound scope stmts).2.Sound := by
  have hscope : (safety session.setting).region scope := trivial
  have hstate : (safety session.setting).StateRel session.state.depth session.state session.state :=
    ⟨h.store, rfl, rfl, trivial, rfl⟩
  have hends := Sim.execAll_self (safety_lawful h.natives) rfl (fun _ => id) rfl bound hscope hstmts
    hstate
  unfold run
  rcases hends with ⟨flow, after, hrun, hafter⟩ | ⟨stop, after, hrun, hstop, hafter⟩
  · rw [show Eval.execAll session.setting bound scope stmts session.state = _ from hrun]
    exact ⟨by simp, ⟨hafter, h.natives⟩⟩
  · rw [show Eval.execAll session.setting bound scope stmts session.state = _ from hrun]
    cases stop with
    | failure diagnostic => exact ⟨by simp, ⟨hafter, h.natives⟩⟩
    | exhausted => exact ⟨by simp, ⟨hafter, h.natives⟩⟩
    | defect defect => cases hstop
    | breakdown => cases hstop

theorem Step.sound {session after : Session} (hstep : Step session after) (h : session.Sound) :
    after.Sound := by
  cases hstep with
  | newScope enclosing _ => exact sound_newScope h enclosing
  | define name _ hvalue => exact sound_define h _ name (h.value hvalue)
  | assign name _ hvalue hassign =>
      obtain ⟨owner, -, rfl⟩ := assign_define hassign
      exact sound_define h owner name.lexeme (h.value hvalue)
  | defineNative name _ hnative => exact sound_defineNative h _ name hnative
  | report diagnostics => exact ⟨h.store, h.natives⟩
  | reset => exact ⟨h.store, h.natives⟩
  | takeOutput => exact ⟨h.store, h.natives⟩
  | takeReports => exact ⟨h.store, h.natives⟩
  | run bound source _ => exact (sound_run h bound _ (Reading.statements_formed source)).2

theorem Reached.sound {session : Session} (h : session.Reached) : session.Sound := by
  induction h with
  | start wantedDepth echo readings => exact sound_start wantedDepth echo readings
  | step _ hstep ih => exact hstep.sound ih

/-- Nothing that is read and run on a session that there can be goes out of bounds. A sweep over the
text by position asks for no character and no stretch that is not there; what it gives is the scan,
which covers the text and ends with its only end-of-input token. A walk over the tokens by position
does not run past them and gives the statements. Their run meets no defect, whatever was reported
about the text. -/
theorem Reached.safe {session : Session} (h : session.Reached) (codePoints : List Int)
    (bound scope : Nat) :
    let source := codePoints.map charOfCodePoint
    let tokens := (scan source).tokens
    let finish := (session.run bound scope (Reading.ofSource source).statements).1
    sweep source = .ok (scan source) ∧
      (pieces source).flatMap Piece.text = source ∧
      (∃ ts line, tokens = ts ++ [Scan.endToken line] ∧ Parse.Inner ts) ∧
      (∃ stmts place, Parse.Walk.program tokens = .ok stmts place ∧
        parse? tokens = some ⟨stmts, place.reported⟩ ∧
        (Reading.ofSource source).statements = stmts) ∧
      finish ≠ .breakdown ∧ ∀ defect, finish ≠ .defect defect := by
  intro source tokens finish
  obtain ⟨ts, htokens, hinner⟩ := scan_tokens source
  have hend : ¬ Parse.Inner tokens := by
    intro hall
    refine hall (Scan.endToken (1 + lineFeeds source)) ?_ rfl
    show _ ∈ (scan source).tokens
    rw [htokens]
    exact List.mem_append_right _ List.mem_cons_self
  obtain ⟨stmts, place, hwalk, hparse, -⟩ := Parse.walk_ok hend
  refine ⟨sweep_eq source, pieces_text source, ⟨ts, _, htokens, hinner⟩,
    ⟨stmts, place, hwalk, hparse, ?_⟩, ?_⟩
  · obtain ⟨parsed, hparsed, hsource⟩ := Reading.ofSource_eq source
    rw [hparse] at hparsed
    cases hparsed
    rw [hsource]
  · exact (sound_run h.sound bound scope (Reading.statements_formed source)).1

/-- A session in which an earlier source has left a function behind. -/
def holding : Session :=
  ((start 512 false (fun _ => some 0)).run 3 globals
    (Reading.ofSource "fun f(n) \x7b return n; \x7d".toList).statements).2

/-- The text `print f(f)("x"); f();` with a code point in front of it that is no character. -/
def marred : List Int :=
  -1 :: "print f(f)(\"x\"); f();".toList.map fun c => (c.toNat : Int)

/-- Although something is reported about it, the text is run. It calls the function that was left
behind, with that function and by way of it, and then with too few arguments. -/
theorem safe_marred :
    let reading := Reading.ofSource (marred.map charOfCodePoint)
    let after := (holding.run 3 globals reading.statements).2
    holding.Reached ∧ reading.diagnostics.length = 1 ∧
      after.state.output.toList.map (·.text) = ["x"] ∧ after.status.hadRuntimeError = true ∧
      sweep (marred.map charOfCodePoint) = .ok (scan (marred.map charOfCodePoint)) ∧
      ∀ defect, (holding.run 3 globals reading.statements).1 ≠ .defect defect := by
  intro reading after
  have hscope : (start 512 false (fun _ => some 0)).HasScope globals := Nat.zero_lt_one
  have hreached : holding.Reached :=
    .step (.start 512 false (fun _ => some 0)) (.run 3 _ hscope)
  have hreported : reading.diagnostics.length = 1 := by decide +kernel
  have hwritten : after.state.output.toList.map (·.text) = ["x"] := by decide +kernel
  have hfailed : after.status.hadRuntimeError = true := by decide +kernel
  obtain ⟨hsweep, -, -, -, -, hsound⟩ := Reached.safe hreached marred 3 globals
  exact ⟨hreached, hreported, hwritten, hfailed, hsweep, hsound⟩

end Session

end LoxLang
