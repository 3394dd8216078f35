import LoxLang.Proofs.Command.Interpret
import LoxLang.Proofs.Session.Safe
import LoxLang.Proofs.Token.Lines

set_option autoImplicit false

/-! # Where errors point

An error always points at something that was written. While a source is read, what is reported points
at a token before the end of input (`parse?_pointed`). While it runs, a failure is found at a token of
a tree, and the trees that a session gets at are those of the sources it has run: the one that is
running, and the functions that earlier ones have left behind. So a session is looked at together
with the list of its sources (`Ran`), and the invariant is that every function it holds is made of
their tokens (`Sourced`).

The other failures are those of native functions, which have no place in a source. -/

namespace LoxLang

/-! ## Failures -/

/-- The kinds of tokens at which there is a failure with that cause. -/
def Cause.fits : Cause → Kind → Bool
  | .undefinedVariable, kind => Role.name.fits kind
  | .typeMismatch, kind => Role.unary.fits kind || Role.binary.fits kind
  | .notCallable, kind | .arityMismatch, kind | .stackOverflow, kind => Role.paren.fits kind
  | .invalidConfig, _ => false

/-- The diagnostic is about a running program, at a token of the source that fits the cause. -/
def Diagnostic.PointsInto (source : List Char) (d : Diagnostic) : Prop :=
  ∃ token cause message, d = .runtime token cause message ∧ cause.fits token.kind = true ∧
    token ∈ (scan source).tokens ∧ 1 ≤ token.line ∧ token.line ≤ (1 + lineFeeds source : Nat)

/-- What a run may fail with: a fault at a token that fits its role, or the refusal of a native
function. -/
inductive Failure (natives : Array Native) (ts : List Token) : Diagnostic → Prop
  | fault (fault : RuntimeFault) {t : Token} : t ∈ ts → fault.role.fits t.kind = true →
    Failure natives ts (fault.located t)
  | native {native : Native} {n : Nat} {args : List Value} {message : String} : native ∈ natives →
    native.run n args = .failure message → Failure natives ts (.plain message)

/-- States whose functions are made of the given tokens, paired with themselves. -/
def sourcing (ts : List Token) : Pairing :=
  .everywhere (.fitting ts) fun _ _ => True

/-- One run twice, which fails only at the given tokens or in a native function. -/
def provenance (ts : List Token) (setting : Setting) : Sim where
  toPairing := sourcing ts
  left := setting
  right := setting
  stop := fun e _ => ∀ d, e = .failure d → Failure setting.natives ts d
  escape := fun _ => False

theorem sourcing_token {ts : List Token} {ρ : Role} {t u : Token}
    (h : (sourcing ts).like.token ρ t u) : u = t :=
  h.1.symm

theorem provenance_lawful {ts : List Token} {setting : Setting}
    (h : ∀ native ∈ setting.natives, native.Passive) : (provenance ts setting).Lawful where
  token := by
    rintro ρ t u ⟨rfl, -⟩
    exact ⟨rfl, rfl⟩
  fault := by
    rintro t u fault ⟨rfl, hmem, hfits⟩ d ⟨⟩
    exact .fault fault hmem hfits
  plain := by
    rintro native n args message hmem hrun d ⟨⟩
    exact .native hmem hrun
  operator := fun ht => Or.inl ht.2.2
  holes := fun hholes => hholes.elim
  print := fun _ _ => trivial
  echo := fun _ _ => trivial
  natives := by
    refine Sim.natives_rel fun native hnative => ?_
    exact Sim.nativeRel_of_passive sourcing_token (h native hnative) (congrArg native.run ·.symm)
      (Or.inl fun d hd => nomatch hd)
  moment := congrArg (· + 1)
  pending := Or.inr fun d hd => nomatch hd
  depth := Nat.le_refl _
  overflow := Or.inl rfl

/-- More tokens make more functions. -/
theorem sourcing_mono {ts us : List Token} (h : ∀ t ∈ ts, t ∈ us) {f : Closure}
    (hf : (sourcing ts).ClosureRel f f) : (sourcing us).ClosureRel f f where
  scope := rfl
  inside := trivial
  name := (Likeness.fitting_le h).token hf.name
  params := hf.params.imp fun _ _ ht => (Likeness.fitting_le h).token ht
  body := Stmt.likeAll_mono (Likeness.fitting_le h) hf.body

/-- In a store that corresponds to itself, so does every function. -/
theorem sourcing_held {ts : List Token} {store : Store} (h : (sourcing ts).StoreRel store store)
    {i : Nat} {f : Closure} (hf : store.Holds (.closure i f)) : (sourcing ts).ClosureRel f f := by
  obtain ⟨scope, here, name, hhere, hvalue⟩ := hf
  have hscope := h.scopes scope trivial
  rw [hhere] at hscope
  cases hscope with
  | some hscope =>
      have hbinding := hscope.bindings name
      rw [hvalue] at hbinding
      cases hbinding with
      | some hvalue =>
          cases hvalue with
          | closure _ hf => exact hf

/-- The tokens of all the sources. -/
def tokensOf (sources : List (List Char)) : List Token :=
  sources.flatMap fun source => (scan source).tokens

theorem RuntimeFault.cause_fits {fault : RuntimeFault} {kind : Kind}
    (h : fault.role.fits kind = true) : fault.cause.fits kind = true := by
  cases fault with
  | operandNotNumber => exact Bool.or_eq_true_iff.mpr (Or.inl h)
  | operandsNotNumbers => exact Bool.or_eq_true_iff.mpr (Or.inr h)
  | operandsNotAddable => exact Bool.or_eq_true_iff.mpr (Or.inr h)
  | _ => exact h

/-- A failure at a token of some sources is one at a token of one of them. -/
theorem Failure.pointsInto {natives : Array Native} {sources : List (List Char)} {d : Diagnostic}
    (h : Failure natives (tokensOf sources) d) :
    (∃ source ∈ sources, d.PointsInto source) ∨
      ∃ native ∈ natives, ∃ n args message, native.run n args = .failure message ∧
        d = .plain message := by
  cases h with
  | @fault fault token hmem hfits =>
      obtain ⟨source, hsource, htoken⟩ := List.mem_flatMap.mp hmem
      have hline := scan_line htoken
      exact Or.inl ⟨source, hsource, token, fault.cause, fault.message, rfl,
        RuntimeFault.cause_fits hfits, htoken, hline.1, hline.2⟩
  | @native native n args message hmem hrun =>
      exact Or.inr ⟨native, hmem, n, args, message, hrun, rfl⟩

/-- What reads from a source is made of its tokens, whatever was reported. -/
theorem Reading.statements_fitting (source : List Char) (sources : List (List Char)) :
    List.Forall₂ (Stmt.Like (.fitting (tokensOf (source :: sources))))
      (ofSource source).statements (ofSource source).statements := by
  obtain ⟨parsed, hparsed, hsource⟩ := ofSource_eq source
  rw [hsource]
  refine Stmt.likeAll_mono (Likeness.fitting_le fun t ht => ?_) (parse?_formed hparsed)
  exact List.mem_flatMap.mpr ⟨source, List.mem_cons_self, ht⟩

namespace Session

/-! ## The sources of a session -/

/-- What may be done to a session between two runs: it gets no function that it did not hold, and no
native function that makes some. -/
structure Aside (session after : Session) : Prop where
  functions : ∀ i f, after.state.store.Holds (.closure i f) → session.state.store.Holds (.closure i f)
  natives : ∀ native ∈ after.setting.natives, native ∈ session.setting.natives ∨ native.Passive

/-- The session has run these sources, the last one first. -/
inductive Ran : List (List Char) → Session → Prop
  | start (wantedDepth : Int) (echo : Bool) (readings : Readings) :
    Ran [] (start wantedDepth echo readings)
  | run {sources : List (List Char)} {session : Session} (bound scope : Nat) (source : List Char) :
    Ran sources session →
    Ran (source :: sources) (session.run bound scope (Reading.ofSource source).statements).2
  | aside {sources : List (List Char)} {session after : Session} :
    Ran sources session → Aside session after → Ran sources after

theorem aside_define {session : Session} (scope : Nat) (name : String) {value : Value}
    (hvalue : session.Knows value) : Aside session (session.define scope name value) where
  functions := by
    intro i f hheld
    rcases Store.holds_define hheld with heq | hheld
    · -- The value is no function, or else it is one that the session holds already.
      rcases hvalue with hvalue | ⟨scope', name', hget⟩
      · exact absurd heq.symm (hvalue i f)
      · exact heq ▸ Store.holds_of_get? hget
    · exact hheld
  natives := fun native hnative => Or.inl hnative

theorem aside_defineNative {session : Session} (scope : Nat) (name : String) {native : Native}
    (hnative : native.Passive) : Aside session (session.defineNative scope name native) where
  functions := by
    intro i f hheld
    rcases Store.holds_define hheld with heq | hheld
    · cases heq
    · exact hheld
  natives := by
    intro other hother
    rcases Array.mem_push.mp hother with hother | rfl
    · exact Or.inl hother
    · exact Or.inr hnative

/-- Whatever happens to a session is a run of a source or leaves its functions as they are. -/
theorem Step.ran {session after : Session} (hstep : Step session after)
    {sources : List (List Char)} (h : Ran sources session) : ∃ sources', Ran sources' after := by
  have hsame {after : Session} (hstore : after.state.store = session.state.store)
      (hsetting : after.setting = session.setting) : Aside session after :=
    ⟨fun i f hheld => hstore ▸ hheld, fun native hnative => Or.inl (hsetting ▸ hnative)⟩
  cases hstep with
  | newScope enclosing _ =>
      have haside : Aside session (session.newScope enclosing).2 :=
        ⟨fun i f hheld => Store.holds_newScope hheld, fun native hnative => Or.inl hnative⟩
      exact ⟨sources, h.aside haside⟩
  | define name _ hvalue => exact ⟨sources, h.aside (aside_define _ name hvalue)⟩
  | @assign scope name value after _ hvalue hassign =>
      obtain ⟨owner, -, rfl⟩ := assign_define hassign
      exact ⟨sources, h.aside (aside_define owner name.lexeme hvalue)⟩
  | defineNative name _ hnative =>
      exact ⟨sources, h.aside (aside_defineNative _ name hnative.passive)⟩
  | report diagnostics => exact ⟨sources, h.aside (hsame rfl rfl)⟩
  | reset => exact ⟨sources, h.aside (hsame rfl rfl)⟩
  | takeOutput => exact ⟨sources, h.aside (hsame rfl rfl)⟩
  | takeReports => exact ⟨sources, h.aside (hsame rfl rfl)⟩
  | run bound source _ => exact ⟨source :: sources, .run bound _ source h⟩

/-- Every session there can be has run some sources. -/
theorem Reached.ran {session : Session} (h : session.Reached) : ∃ sources, Ran sources session := by
  induction h with
  | start wantedDepth echo readings => exact ⟨[], .start wantedDepth echo readings⟩
  | step _ hstep ih =>
      obtain ⟨sources, hran⟩ := ih
      exact hstep.ran hran

/-! ## What the sources leave behind -/

/-- All functions of the session are made of these tokens. -/
structure Sourced (ts : List Token) (session : Session) : Prop where
  functions : ∀ i f, session.state.store.Holds (.closure i f) → (sourcing ts).ClosureRel f f
  natives : ∀ native ∈ session.setting.natives, native.Passive

section
variable {session after : Session} {ts : List Token}

theorem sourced_start (wantedDepth : Int) (echo : Bool) (readings : Readings) :
    (start wantedDepth echo readings).Sourced (tokensOf []) where
  functions := by
    rintro i f ⟨scope, here, name, hhere, hvalue⟩
    exact nomatch start_value hhere hvalue
  natives := fun native hnative => (start_steady native hnative).passive

theorem Sourced.mono {us : List Token} (h : session.Sourced ts) (hts : ∀ t ∈ ts, t ∈ us) :
    session.Sourced us :=
  ⟨fun i f hf => sourcing_mono hts (h.functions i f hf), h.natives⟩

theorem Sourced.aside (h : session.Sourced ts) (haside : Aside session after) : after.Sourced ts where
  functions := fun i f hf => h.functions i f (haside.functions i f hf)
  natives := fun native hnative => (haside.natives native hnative).elim (h.natives native) id

/-- A run of statements made of these tokens fails at one of them or in a native function, and it
leaves only functions made of them. -/
theorem Sourced.run (h : session.Sourced ts) (bound scope : Nat) {stmts : List Stmt}
    (hstmts : List.Forall₂ (Stmt.Like (.fitting ts)) stmts stmts) :
    (session.run bound scope stmts).2.Sourced ts ∧
      ∀ d, (session.run bound scope stmts).1 = .finished (some d) →
        Failure session.setting.natives ts d := by
  -- The invariant says that the store corresponds to itself; behind the run it is read off again.
  have hstore : (sourcing ts).StoreRel session.state.store session.state.store :=
    Pairing.storeRel_self fun scope here name i f hhere hvalue =>
      h.functions i f ⟨scope, here, name, hhere, hvalue⟩
  have hscope : (provenance ts session.setting).region scope := trivial
  have hstate : (provenance ts session.setting).StateRel session.state.depth session.state
      session.state := ⟨hstore, rfl, rfl, trivial, rfl⟩
  have hends := Sim.execAll_self (provenance_lawful h.natives) rfl (fun _ => id)
    (fun d hd => nomatch hd) bound hscope hstmts hstate
  have hkept {after : Session} (hsetting : after.setting = session.setting)
      (hstate : (sourcing ts).StoreRel after.state.store after.state.store) : after.Sourced ts :=
    ⟨fun i f hf => sourcing_held hstate hf, hsetting ▸ h.natives⟩
  unfold Session.run
  rcases hends with ⟨flow, last, hrun, hlast⟩ | ⟨stop, last, hrun, hstop, hlast⟩
  · rw [show Eval.execAll session.setting bound scope stmts session.state = _ from hrun]
    exact ⟨hkept rfl hlast, fun d hd => nomatch hd⟩
  · rw [show Eval.execAll session.setting bound scope stmts session.state = _ from hrun]
    cases stop with
    | failure diagnostic =>
        refine ⟨hkept rfl hlast, ?_⟩
        rintro d ⟨⟩
        exact hstop _ rfl
    | exhausted => exact ⟨hkept rfl hlast, fun d hd => nomatch hd⟩
    | defect defect => exact ⟨hkept rfl hlast, fun d hd => nomatch hd⟩
    | breakdown => exact ⟨hkept rfl hlast, fun d hd => nomatch hd⟩

/-- A source that runs adds its tokens to those that functions and failures come from. -/
theorem Sourced.runSource {sources : List (List Char)} (h : session.Sourced (tokensOf sources))
    (bound scope : Nat) (source : List Char) :
    (session.run bound scope (Reading.ofSource source).statements).2.Sourced
        (tokensOf (source :: sources)) ∧
      ∀ d, (session.run bound scope (Reading.ofSource source).statements).1 = .finished (some d) →
        Failure session.setting.natives (tokensOf (source :: sources)) d := by
  have hmore : ∀ t ∈ tokensOf sources, t ∈ tokensOf (source :: sources) :=
    fun t ht => List.mem_append_right _ ht
  exact (h.mono hmore).run bound scope (Reading.statements_fitting source sources)

theorem Ran.sourced {sources : List (List Char)} (h : Ran sources session) :
    session.Sourced (tokensOf sources) := by
  induction h with
  | start wantedDepth echo readings => exact sourced_start wantedDepth echo readings
  | run bound scope source _ ih => exact (ih.runSource bound scope source).1
  | aside _ haside ih => exact ih.aside haside

end

/-! ## Errors -/

/-- A run reports the failure that it ends with, once, and nothing else. -/
theorem run_report {session : Session} {bound scope : Nat} {stmts : List Stmt}
    {failure : Option Diagnostic} (h : (session.run bound scope stmts).1 = .finished failure) :
    (session.run bound scope stmts).2
      = ({ session with state := (session.run bound scope stmts).2.state } : Session).report
          failure.toList := by
  unfold run at h ⊢
  cases hrun : Eval.execAll session.setting bound scope stmts session.state with
  | ok flow last =>
      rw [hrun] at h
      cases h
      exact (report_nil _).symm
  | error stop last =>
      rw [hrun] at h
      cases stop with
      | failure d =>
          cases h
          rfl
      | defect defect => cases h
      | breakdown => cases h
      | exhausted => cases h

/-- Errors point at sources. What is reported about a token list is about a token at or before its
first end of input. A session has run a list of sources, whatever else has happened to it; when it
runs another one and fails, then at a name, an operator or a closing parenthesis that stands on a line
of one of these sources, or else because a native function refused. The failure that it ends with is
the one diagnostic that it reports, behind those reported before, and without one it reports none; what
is written about it is what has been reported. -/
theorem errors_pointAtSources :
    (∀ ts parsed, parse? ts = some parsed → ∀ d ∈ parsed.diagnostics,
      ∃ before token behind message, ts = before ++ token :: behind ∧ Parse.Inner before ∧
        d = .grammar token message) ∧
    (∀ session : Session, session.Reached → ∃ sources, Ran sources session) ∧
    ∀ sources session, Ran sources session → ∀ bound scope source failure,
      let after := (session.run bound scope (Reading.ofSource source).statements).2
      (session.run bound scope (Reading.ofSource source).statements).1 = .finished failure →
      (∀ d ∈ failure, (∃ origin ∈ source :: sources, d.PointsInto origin) ∨
        ∃ native ∈ session.setting.natives, ∃ n args message,
          native.run n args = .failure message ∧ d = .plain message) ∧
      after.reports = session.reports ++ failure.toList ∧
      after.status = session.status.noteAll failure.toList ∧
      (scope = globals → session.status.hadError = false →
        (Reading.ofSource source).diagnostics = [] →
        ∃ out next, Command.interpret bound session source
          = some (⟨out, Diagnostic.render (session.reports ++ failure.toList)⟩, next) ∧
          next.reports = []) := by
  refine ⟨?_, fun session h => h.ran, ?_⟩
  · intro ts parsed hparsed d hd
    obtain ⟨token, fault, ⟨before, behind, hts, hbefore⟩, hd⟩ := parse?_pointed hparsed d hd
    exact ⟨before, token, behind, fault.message, hts, hbefore, hd⟩
  · intro sources session hran bound scope source failure after hrun
    have hafter : after = ({ session with state := after.state } : Session).report failure.toList :=
      run_report hrun
    have hreports : after.reports = session.reports ++ failure.toList :=
      congrArg Session.reports hafter
    refine ⟨?_, hreports, congrArg Session.status hafter, ?_⟩
    · rintro d ⟨⟩
      exact ((hran.sourced.runSource bound scope source).2 d hrun).pointsInto
    · rintro rfl hstatus hquiet
      have hfinish : Command.globally bound session (Reading.ofSource source).statements
          = (.finished failure, after) := Prod.ext hrun rfl
      refine ⟨renderLines after.state.output.toList, (Command.flush after).2, ?_, rfl⟩
      rw [Command.interpret_eq, Command.interpretBy_finished hstatus hquiet hfinish, ← hreports]
      rfl

/-- A function whose second line uses a name that is declared nowhere. -/
def leaning : List Char :=
  "fun f() \x7b\n  return g;\n\x7d".toList

/-- A function that an earlier source has left behind fails at its own second line, although the
source that calls it has only one. -/
theorem errors_pointAtSources_leaning :
    let session := ((start 512 false (fun _ => some 0)).run 3 globals
      (Reading.ofSource leaning).statements).2
    let calling := "f();".toList
    let failure : Diagnostic :=
      .runtime ⟨.identifier, "g", .nil, 2⟩ .undefinedVariable "Undefined variable 'g'."
    Ran [leaning] session ∧
      (session.run 3 globals (Reading.ofSource calling).statements).1 = .finished (some failure) ∧
      (session.run 3 globals (Reading.ofSource calling).statements).2.reports = [failure] ∧
      ∃ origin ∈ [calling, leaning], failure.PointsInto origin := by
  intro session calling failure
  have hran : Ran [leaning] session := .run 3 globals leaning (.start 512 false (fun _ => some 0))
  have hrun : (session.run 3 globals (Reading.ofSource calling).statements).1
      = .finished (some failure) := by
    decide +kernel
  obtain ⟨hpoints, hreports, -⟩ :=
    errors_pointAtSources.2.2 [leaning] session hran 3 globals calling _ hrun
  have hquiet : session.reports = [] := by decide +kernel
  refine ⟨hran, hrun, ?_, (hpoints failure rfl).resolve_right ?_⟩
  · rw [hreports, hquiet]
    rfl
  · rintro ⟨native, -, n, args, message, -, hplain⟩
    exact nomatch hplain

end Session

end LoxLang
