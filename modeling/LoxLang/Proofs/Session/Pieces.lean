import LoxLang.Proofs.Eval.Passive
import LoxLang.Proofs.Eval.Return
import LoxLang.Proofs.Session.Reading
import LoxLang.Proofs.Tree.Tokens

set_option autoImplicit false

/-! # Programs run in pieces

A program can be handed to a session in pieces: if two texts read without a diagnostic, then so does
the one behind the other with a line feed between them, and running that comes to the same as running
them in turn (`Session.run_pieces`). The texts do not run into each other because no piece of a quiet
scan reaches over a line feed, no program ends in the middle of a statement, and none returns before
its end.

What differs are the lines. A token of the second text stands further down in the whole, wherever it
ends up: in the statements, in the functions they declare, in the failure that stops them. A token of
a function that was there before stays where it is. A `Shift` compares two places for the same text
to stand, and the runs from the two places are a simulation under it. -/

namespace LoxLang

/-- All that such a function sees of its arguments is the same in two runs of trees that are alike, if
it is called at the same moments. -/
theorem Sim.nativeRel_of_oblivious {S : Sim} {native : Native}
    (hmoment : ∀ {n m : Nat}, S.moment n m → n = m)
    (hlexeme : ∀ {ρ : Role} {t u : Token}, S.like.token ρ t u → u.lexeme = t.lexeme)
    (hbreak : S.stop .breakdown .breakdown) (h : native.Oblivious) :
    S.NativeRel native native where
  arity := rfl
  run := by
    intro n m args args' hnm hargs
    obtain rfl : n = m := hmoment hnm
    have hseen : ∀ f g, S.ClosureRel f g →
        g.name.lexeme = f.name.lexeme ∧ g.params.length = f.params.length :=
      fun f g hfg => ⟨hlexeme hfg.name, hfg.params.length_eq.symm⟩
    have hreply := h S.ClosureRel hseen n args args' hargs
    generalize native.run n args = r, native.run n args' = r' at hreply ⊢
    cases hreply with
    | value hv => exact .value hv
    | failure message => exact .failure message
    | breakdown _ => exact .breakdown hbreak
    | pending => exact .pending

/-- The tokens of the functions that a store holds. -/
def Store.tokens (store : Store) : List Token :=
  store.scopes.toList.flatMap fun here => here.bindings.flatMap fun binding => binding.2.tokens

theorem Store.mem_tokens {store : Store} {scope : Nat} {here : Scope} {name : String}
    {value : Value} {t : Token} (hhere : store.scopes[scope]? = some here)
    (hvalue : here.get? name = some value) (ht : t ∈ value.tokens) : t ∈ store.tokens := by
  have hscope : here ∈ store.scopes.toList := Array.mem_toList_iff.mpr (Array.mem_of_getElem? hhere)
  have hbinding : (name, value) ∈ here.bindings := by
    obtain ⟨before, after, hbindings, -⟩ := List.lookup_eq_some_iff.mp hvalue
    rw [hbindings]
    simp
  exact List.mem_flatMap.mpr ⟨here, hscope, List.mem_flatMap.mpr ⟨_, hbinding, ht⟩⟩

/-! ## Shifts -/

/-- Two places for a text to stand. -/
structure Shift where
  /-- How many lines the text stands further down in the one place. -/
  origin : Nat
  /-- How many lines it stands further down in the other. -/
  place : Nat
  /-- The tokens that are not its own. -/
  kept : Token → Prop
  /-- The tokens of the text. -/
  own : Token → Prop

namespace Shift

/-- Tokens that correspond: the text's own ones are moved. -/
inductive TokenRel (d : Shift) : Token → Token → Prop
  | kept {t : Token} : d.kept t → TokenRel d t t
  | moved {t : Token} : d.own t → TokenRel d (t.moved d.origin) (t.moved d.place)

/-- Failures that correspond: the same at corresponding tokens. -/
inductive FailureRel (d : Shift) : Diagnostic → Diagnostic → Prop
  | runtime {t u : Token} (cause : Cause) (message : String) :
    d.TokenRel t u → FailureRel d (.runtime t cause message) (.runtime u cause message)
  | plain (message : String) : FailureRel d (.plain message) (.plain message)

/-- Ways to stop that correspond. -/
inductive StopRel (d : Shift) : Stop → Stop → Prop
  | failure {a b : Diagnostic} : d.FailureRel a b → StopRel d (.failure a) (.failure b)
  | defect (defect : TreeDefect) : StopRel d (.defect defect) (.defect defect)
  | breakdown : StopRel d .breakdown .breakdown
  | exhausted : StopRel d .exhausted .exhausted

/-- Ends of runs that correspond. -/
inductive EndRel (d : Shift) : RunEnd → RunEnd → Prop
  | quiet : EndRel d (.finished none) (.finished none)
  | failed {a b : Diagnostic} :
    d.FailureRel a b → EndRel d (.finished (some a)) (.finished (some b))
  | defect (defect : TreeDefect) : EndRel d (.defect defect) (.defect defect)
  | breakdown : EndRel d .breakdown .breakdown
  | exhausted : EndRel d .exhausted .exhausted

/-- Trees that correspond, token by token. -/
def likeness (d : Shift) : Likeness where
  token := fun _ => d.TokenRel
  holes := True

/-- States that correspond, from states in which one side had written more. -/
def pairing (d : Shift) (written : Array Line) : Pairing :=
  .everywhere d.likeness fun o o' => o' = written ++ o

/-- The text run from both places. -/
def sim (d : Shift) (written : Array Line) (setting : Setting) : Sim where
  toPairing := d.pairing written
  left := setting
  right := setting
  stop := d.StopRel
  escape := fun _ => False

variable {d : Shift} {written : Array Line}

theorem TokenRel.same {t u : Token} (h : d.TokenRel t u) :
    u.kind = t.kind ∧ u.lexeme = t.lexeme := by
  cases h with
  | kept _ => exact ⟨rfl, rfl⟩
  | moved _ => exact ⟨rfl, rfl⟩

/-- What is reported of failures that correspond is of the same sort. -/
theorem FailureRel.note {a b : Diagnostic} (h : d.FailureRel a b) (status : Status) :
    status.note b = status.note a := by
  cases h with
  | runtime _ _ _ => rfl
  | plain _ => rfl

theorem nativeRel {setting : Setting} {native : Native} (h : native.Oblivious) :
    (d.sim written setting).NativeRel native native :=
  Sim.nativeRel_of_oblivious id (fun ht => (TokenRel.same ht).2) .breakdown h

theorem sim_lawful {setting : Setting} (h : ∀ native ∈ setting.natives, native.Oblivious) :
    (d.sim written setting).Lawful where
  token := fun ht => TokenRel.same ht
  fault := fun fault ht => .failure (.runtime _ _ ht)
  plain := fun _ _ => .failure (.plain _)
  operator := fun _ => Or.inr (.defect _)
  holes := fun _ defect => .defect defect
  print := by
    rintro o o' text rfl
    exact Array.push_append
  echo := by
    rintro o o' text rfl
    show (if setting.echo = true then _ else _)
      = written ++ (if setting.echo = true then _ else _)
    cases setting.echo with
    | true => exact Array.push_append
    | false => rfl
  natives := Sim.natives_rel fun native hnative => nativeRel (h native hnative)
  moment := congrArg (· + 1)
  pending := Or.inr .exhausted
  depth := Nat.le_refl _
  overflow := Or.inl rfl

/-- A function corresponds to itself if its tokens are kept. -/
theorem closureRel_self {f : Closure} (h : ∀ t ∈ f.tokens, d.kept t) :
    (d.pairing written).ClosureRel f f := by
  have hcarries : d.likeness.Carries id f.tokens := fun t ht _ => .kept (h t ht)
  rw [Closure.tokens, carries_cons, carries_append] at hcarries
  exact ⟨rfl, trivial, hcarries.1 .name, hcarries.2.1.self .name,
    Stmt.likeAll_self trivial f.body hcarries.2.2⟩

/-- A store corresponds to itself if the tokens in it are kept. -/
theorem storeRel_self {store : Store} (h : ∀ t ∈ store.tokens, d.kept t) :
    (d.pairing written).StoreRel store store := by
  refine Pairing.storeRel_self fun scope here name i f hhere hvalue => closureRel_self ?_
  intro t ht
  exact h t (Store.mem_tokens hhere hvalue ht)

/-! ## How runs end in all places -/

/-- In the same place nothing differs. -/
theorem EndRel.eq {e e' : RunEnd} (h : d.EndRel e e') (hplace : d.place = d.origin) : e' = e := by
  cases h with
  | failed h =>
      cases h with
      | runtime cause message ht =>
          cases ht with
          | kept _ => rfl
          | moved _ => rw [hplace]
      | plain message => rfl
  | _ => rfl

/-- A run that is not stopped at a token ends the same way in the other place. -/
theorem EndRel.eq_of_nowhere {e e' : RunEnd} (h : d.EndRel e e')
    (hnowhere : ∀ t cause message, e ≠ .finished (some (.runtime t cause message))) : e' = e := by
  cases h with
  | failed h =>
      cases h with
      | runtime cause message _ => exact absurd rfl (hnowhere _ cause message)
      | plain message => rfl
  | _ => rfl

/-- A run that is stopped at a token is stopped at the token that corresponds in the other place. -/
theorem EndRel.runtime {t : Token} {cause : Cause} {message : String} {e' : RunEnd}
    (h : d.EndRel (.finished (some (.runtime t cause message))) e') :
    ∃ u, d.TokenRel t u ∧ e' = .finished (some (.runtime u cause message)) := by
  cases h with
  | failed h =>
      cases h with
      | runtime _ _ ht => exact ⟨_, ht, rfl⟩

end Shift

theorem Token.moved_inj {lines : Nat} {t u : Token} (h : t.moved lines = u.moved lines) : t = u := by
  obtain ⟨kind, lexeme, literal, line⟩ := t
  obtain ⟨kind', lexeme', literal', line'⟩ := u
  simp only [Token.moved, Token.mk.injEq] at h ⊢
  obtain ⟨hkind, hlexeme, hliteral, hline⟩ := h
  exact ⟨hkind, hlexeme, hliteral, by omega⟩

/-- Far enough down, the tokens of a text are none of some others. -/
theorem Token.exists_clear (ts us : List Token) :
    ∃ lines : Nat, ∀ t ∈ ts, ∀ u ∈ us, t ≠ u.moved lines := by
  have hbound : ∀ vs : List Token, ∃ bound : Nat, ∀ v ∈ vs, v.line.natAbs ≤ bound := by
    intro vs
    induction vs with
    | nil => exact ⟨0, by simp⟩
    | cons v vs ih =>
        obtain ⟨bound, hbound⟩ := ih
        refine ⟨bound + v.line.natAbs, ?_⟩
        rw [List.forall_mem_cons]
        exact ⟨by omega, fun w hw => Nat.le_trans (hbound w hw) (Nat.le_add_right _ _)⟩
  obtain ⟨m, hm⟩ := hbound ts
  obtain ⟨n, hn⟩ := hbound us
  refine ⟨m + n + 1, fun t ht u hu heq => ?_⟩
  have hline : t.line = u.line + (m + n + 1 : Nat) := congrArg Token.line heq
  have htm := hm t ht
  have hun := hn u hu
  omega

/-- How the run of a text ends, in terms of how many lines further down it stands: always the same,
unless it is stopped at one of its own tokens, which stands further down with it. -/
inductive RunEnd.Placed (kept own : Token → Prop) : (Nat → RunEnd) → Prop
  | nowhere {finish : RunEnd} :
    (∀ t cause message, finish ≠ .finished (some (.runtime t cause message))) →
    RunEnd.Placed kept own fun _ => finish
  | kept {t : Token} (cause : Cause) (message : String) :
    kept t → RunEnd.Placed kept own fun _ => .finished (some (.runtime t cause message))
  | own {t : Token} (cause : Cause) (message : String) :
    own t →
    RunEnd.Placed kept own fun lines => .finished (some (.runtime (t.moved lines) cause message))

/-- If the text stands clear of the other tokens in one place, then the token at which it is stopped
there tells what happens in all places. -/
theorem RunEnd.placed_of_clear {kept own : Token → Prop} {origin : Nat} {finish : Nat → RunEnd}
    (hclear : ∀ t u, kept t → own u → t ≠ u.moved origin)
    (h : ∀ place, Shift.EndRel ⟨origin, place, kept, own⟩ (finish origin) (finish place)) :
    RunEnd.Placed kept own finish := by
  by_cases hstopped : ∃ t cause message, finish origin = .finished (some (.runtime t cause message))
  · obtain ⟨t, cause, message, heq⟩ := hstopped
    have htoken : ∀ place, ∃ u, Shift.TokenRel ⟨origin, place, kept, own⟩ t u ∧
        finish place = .finished (some (.runtime u cause message)) :=
      fun place => Shift.EndRel.runtime (heq ▸ h place)
    obtain ⟨u, hu, -⟩ := htoken origin
    -- What the token is in this place it is in all others, since it cannot be both.
    cases hu with
    | kept ht =>
        have hfinish : finish = fun _ => .finished (some (.runtime t cause message)) := by
          funext place
          obtain ⟨v, hv, hplace⟩ := htoken place
          cases hv with
          | kept _ => exact hplace
          | moved hown => exact absurd rfl (hclear _ _ ht hown)
        exact hfinish ▸ .kept cause message ht
    | @moved u hu =>
        have hfinish : finish = fun lines =>
            .finished (some (.runtime (u.moved lines) cause message)) := by
          funext place
          obtain ⟨v, hv, hplace⟩ := htoken place
          generalize horigin : u.moved origin = t at hv
          cases hv with
          | kept ht => exact absurd horigin.symm (hclear _ _ ht hu)
          | moved _ => rw [hplace, Token.moved_inj horigin]
        exact hfinish ▸ .own cause message hu
  · have hnowhere : ∀ t cause message,
        finish origin ≠ .finished (some (.runtime t cause message)) :=
      fun t cause message heq => hstopped ⟨t, cause, message, heq⟩
    have hfinish : finish = fun _ => finish origin := by
      funext place
      exact (h place).eq_of_nowhere hnowhere
    rw [hfinish]
    exact .nowhere hnowhere

/-! ## Runs -/

namespace Session

/-- Of statements that do not return, the later ones run on what the earlier ones leave, unless those
are stopped. -/
theorem run_append (session : Session) (bound scope : Nat) {ss : List Stmt} (ss' : List Stmt)
    (h : Stmt.anyMayReturn ss = false) :
    session.run bound scope (ss ++ ss') =
      if (session.run bound scope ss).1 = .finished none
      then (session.run bound scope ss).2.run bound scope ss'
      else session.run bound scope ss := by
  unfold run Eval.execAll
  rw [Eval.execAllWith_append ss ss' h, Eval.bind_run]
  cases Eval.execAllWith session.setting (Eval.invoke session.setting bound) bound scope ss
      session.state with
  | ok flow after => rfl
  | error stop after =>
      cases stop with
      | failure diagnostic => rfl
      | defect defect => rfl
      | breakdown => rfl
      | exhausted => rfl

theorem run_setting (session : Session) (bound scope : Nat) (ss : List Stmt) :
    (session.run bound scope ss).2.setting = session.setting := by
  unfold run
  cases Eval.execAll session.setting bound scope ss session.state with
  | ok flow after => rfl
  | error stop after => cases stop <;> rfl

/-- A run ends with a failure if the execution of the statements does. -/
theorem run_failure_iff {session : Session} {bound scope : Nat} {ss : List Stmt}
    {failure : Diagnostic} :
    (session.run bound scope ss).1 = .finished (some failure) ↔
      ∃ t, Eval.execAll session.setting bound scope ss session.state
        = .error (.failure failure) t := by
  unfold run
  cases Eval.execAll session.setting bound scope ss session.state with
  | ok flow after => simp
  | error stop after => cases stop <;> simp

/-- Statements that correspond under a shift, from sessions that do. -/
theorem run_shifted {left right : Session} {d : Shift} {written : Array Line} {depth : Nat}
    (bound scope : Nat) {ss ss' : List Stmt}
    (hnatives : ∀ native ∈ left.setting.natives, native.Oblivious)
    (hsetting : right.setting = left.setting) (hstatus : right.status = left.status)
    (hstate : (d.pairing written).StateRel depth left.state right.state)
    (hlike : List.Forall₂ (Stmt.Like d.likeness) ss ss') :
    d.EndRel (left.run bound scope ss).1 (right.run bound scope ss').1 ∧
      (right.run bound scope ss').2.status = (left.run bound scope ss).2.status ∧
      (d.pairing written).StateRel depth (left.run bound scope ss).2.state
        (right.run bound scope ss').2.state := by
  have hbounds : (d.sim written left.setting).Bounds bound bound := Or.inl ⟨rfl, .exhausted⟩
  have hscope : (d.sim written left.setting).region scope := trivial
  have hends := Sim.execAll_runs (Shift.sim_lawful hnatives) hbounds hscope hlike _ _ hstate
  change Sim.Ends _ _ _ (Eval.execAll left.setting bound scope ss left.state)
    (Eval.execAll left.setting bound scope ss' right.state) at hends
  unfold run
  rw [hsetting]
  rcases hends.cases (fun _ => id) with
    ⟨flow, flow', after, after', hl, hr, -, hafter⟩ |
    ⟨stop, stop', after, after', hl, hr, hstop, hafter⟩
  · rw [hl, hr]
    exact ⟨.quiet, hstatus, hafter⟩
  · rw [hl, hr]
    cases hstop with
    | @failure a b h =>
        refine ⟨.failed h, ?_, hafter⟩
        show right.status.note b = left.status.note a
        rw [hstatus, h.note]
    | defect defect => exact ⟨.defect defect, hstatus, hafter⟩
    | breakdown => exact ⟨.breakdown, hstatus, hafter⟩
    | exhausted => exact ⟨.exhausted, hstatus, hafter⟩

section
variable {session : Session} {text : List Char} (bound scope : Nat)
  (hnatives : ∀ native ∈ session.setting.natives, native.Oblivious)
  (htext : (Reading.ofSource text).diagnostics = [])

include hnatives htext

/-- The same text in two places, run on two sessions that differ in what had been written. -/
theorem run_lowered (origin place : Nat) {other : Session} {written : Array Line}
    (hother : other = { session with state.output := written ++ session.state.output }) :
    let d : Shift := ⟨origin, place, (· ∈ session.state.store.tokens), (· ∈ (scan text).tokens)⟩
    let above := session.run bound scope (Reading.ofSource (lowered origin text)).statements
    let below := other.run bound scope (Reading.ofSource (lowered place text)).statements
    d.EndRel above.1 below.1 ∧ below.2.status = above.2.status ∧
      (d.pairing written).StateRel session.state.depth above.2.state below.2.state := by
  intro d above below
  subst hother
  have hstate : (d.pairing written).StateRel session.state.depth session.state
      { session.state with output := written ++ session.state.output } :=
    ⟨Shift.storeRel_self fun _ ht => ht, rfl, rfl, rfl, rfl⟩
  have hlike := Reading.lowered_like htext origin place (R := d.likeness) fun t ht _ => .moved ht
  exact run_shifted bound scope hnatives rfl rfl hstate hlike

/-- How a text ends in all places. -/
theorem run_placed :
    RunEnd.Placed (· ∈ session.state.store.tokens) (· ∈ (scan text).tokens) fun lines =>
      (session.run bound scope (Reading.ofSource (lowered lines text)).statements).1 := by
  obtain ⟨origin, hclear⟩ := Token.exists_clear session.state.store.tokens (scan text).tokens
  have hsame : session = { session with state.output := #[] ++ session.state.output } := by
    rw [Array.empty_append]
  refine RunEnd.placed_of_clear (fun t u ht hu => hclear t ht u hu) fun place => ?_
  exact (run_lowered bound scope hnatives htext origin place hsame).1

end

/-- Running a text behind another one comes to the same as running the two in turn. What stops the
first one stops the whole at the same place. Otherwise the whole writes what the two write, ends as the
second one does, but for the line of the token that stops it if that is its own, and leaves the same
bindings, but for the lines of the second text in its functions. -/
theorem run_pieces {session : Session} {first second : List Char} (bound scope : Nat)
    (hnatives : ∀ native ∈ session.setting.natives, native.Oblivious)
    (hfirst : (Reading.ofSource first).diagnostics = [])
    (hsecond : (Reading.ofSource second).diagnostics = []) :
    let whole := Reading.ofSource (first ++ '\n' :: second)
    let before := session.run bound scope (Reading.ofSource first).statements
    let after (lines : Nat) := before.2.takeOutput.2.run bound scope
      (Reading.ofSource (lowered lines second)).statements
    let all := session.run bound scope whole.statements
    let lines := lineFeeds first + 1
    let kept (t : Token) := t ∈ before.2.state.store.tokens
    let own (t : Token) := t ∈ (scan second).tokens
    whole.diagnostics = [] ∧
      (before.1 ≠ .finished none → all = before) ∧
      (before.1 = .finished none →
        RunEnd.Placed kept own (fun n => (after n).1) ∧ all.1 = (after lines).1 ∧
        all.2.state.output = before.2.state.output ++ (after 0).2.state.output ∧
        all.2.status = (after 0).2.status ∧
        all.2.state.depth = (after 0).2.state.depth ∧
        (Shift.pairing ⟨0, lines, kept, own⟩ before.2.state.output).StoreRel
          (after 0).2.state.store all.2.state.store) := by
  intro whole before after all lines kept own
  have hwhole := Reading.ofSource_append hfirst hsecond
  obtain ⟨ts, -, hprogram⟩ := Reading.derived hfirst
  have hall : all = if before.1 = .finished none
      then before.2.run bound scope (Reading.ofSource (lowered lines second)).statements
      else before := by
    show session.run bound scope (Reading.ofSource _).statements = _
    rw [hwhole]
    exact run_append session bound scope _ hprogram.mayReturn
  refine ⟨congrArg Reading.diagnostics hwhole, fun hstopped => ?_, fun hquiet => ?_⟩
  · rw [hall, if_neg hstopped]
  · have hnatives' : ∀ native ∈ before.2.takeOutput.2.setting.natives, native.Oblivious := by
      show ∀ native ∈ before.2.setting.natives, native.Oblivious
      rw [run_setting]
      exact hnatives
    have hbefore : before.2 = { before.2.takeOutput.2 with
        state.output := before.2.state.output ++ before.2.takeOutput.2.state.output } := by
      show before.2 = { before.2 with state.output := before.2.state.output ++ #[] }
      rw [Array.append_empty]
    rw [if_pos hquiet] at hall
    have hplace := run_lowered bound scope hnatives' hsecond lines lines hbefore
    have hlines := run_lowered bound scope hnatives' hsecond 0 lines hbefore
    rw [hall]
    exact ⟨run_placed bound scope hnatives' hsecond, hplace.1.eq rfl, hlines.2.2.output, hlines.2.1,
      hlines.2.2.rightDepth.trans hlines.2.2.leftDepth.symm, hlines.2.2.store⟩

/-- A new session meets what is asked of native functions. -/
theorem start_oblivious (wantedDepth : Int) (echo : Bool) (readings : Readings) :
    ∀ native ∈ (start wantedDepth echo readings).setting.natives, native.Oblivious := by
  have hnatives : (start wantedDepth echo readings).setting.natives = #[clock readings] := rfl
  intro native hnative
  rw [hnatives, Array.mem_singleton] at hnative
  subst hnative
  intro C _ n _ _ _
  show NativeReply.Rel C True ((clock readings).run n _) ((clock readings).run n _)
  unfold clock
  dsimp only
  cases readings n with
  | some time => exact .value (.number time)
  | none => exact .pending

/-- A text that declares a function, on two lines. -/
def declaring : List Char := "fun f(x) \x7b\n return -x; \x7d".toList

/-- A text that shows the function and makes it fail. -/
def calling : List Char := "print f; f(nil);".toList

theorem run_pieces_declaring :
    let session := start 512 false (fun _ => some 0)
    let before := session.run 5 globals (Reading.ofSource declaring).statements
    let after (lines : Nat) := before.2.takeOutput.2.run 5 globals
      (Reading.ofSource (lowered lines calling)).statements
    let all := session.run 5 globals (Reading.ofSource (declaring ++ '\n' :: calling)).statements
    (∀ native ∈ session.setting.natives, native.Oblivious) ∧
      (Reading.ofSource declaring).diagnostics = [] ∧
      (Reading.ofSource calling).diagnostics = [] ∧
      before.1 = .finished none ∧ all.1 = (after 2).1 ∧
      all.2.state.output = before.2.state.output ++ (after 0).2.state.output := by
  intro session before after all
  have hnatives : ∀ native ∈ session.setting.natives, native.Oblivious :=
    start_oblivious 512 false (fun _ => some 0)
  have hdeclaring : (Reading.ofSource declaring).diagnostics = [] := by decide +kernel
  have hcalling : (Reading.ofSource calling).diagnostics = [] := by decide +kernel
  have hbefore : before.1 = .finished none := by decide +kernel
  obtain ⟨-, -, hpieces⟩ := run_pieces 5 globals hnatives hdeclaring hcalling
  obtain ⟨-, hfinish, houtput, -⟩ := hpieces hbefore
  exact ⟨hnatives, hdeclaring, hcalling, hbefore, hfinish, houtput⟩

end Session

end LoxLang
