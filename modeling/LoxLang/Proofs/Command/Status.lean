import LoxLang.Command.Lox
import LoxLang.Command.PlainEditor
import LoxLang.Proofs.Session.Origin
import LoxLang.Yaml.Settings

set_option autoImplicit false

/-! # What the exit status tells

The status of the interpreter tells how far it got: to no configuration (64), to no script (1), to no
program (65), to a failure of the program (70), or to its end (0). The cases exclude one another, and
in the first three of them nothing was executed: with the execution of the script as a parameter, the
outcome is the same whatever that parameter is (`status_classifies`).

This holds for every line editor, and for every decoder of configurations that does not take a file
for read if it is not (`Decoder.Careful`). -/

namespace LoxLang

/-- The decoder gives no settings for a file that could not be read. -/
def Decoder.Careful (decode : Decoder) : Prop :=
  ∀ config error, ∃ fault, decode config (.error error) = .error fault

namespace Command

/-! ## With execution as a parameter -/

/-- Runs a script, whose statements are executed in a given way. -/
def runScriptBy (execute : Execution) (readings : Session.Readings) (config : Config)
    (bytes : List UInt8) : Option Outcome := do
  let session := Session.start config.maxCallDepth false readings
  let (transcript, after) ← interpretBy execute session (Utf8.decode bytes)
  let status := if after.status.hadError then 65 else if after.status.hadRuntimeError then 70 else 0
  return ⟨transcript, status⟩

/-- Runs the interpreter, which executes the statements of a script in a given way. -/
def runLoxBy {m : Type → Type} [Monad m] {τ : Type} (execute : Execution) (decode : Decoder)
    (editor : Editor τ) (host : Host m) (around : Surroundings) (args : List String) :
    m (Option Outcome) := do
  match ← plan decode host around.home args with
  | .stop outcome => return some outcome
  | .script config path =>
    match ← host.readFile path with
    | .error error => return some (complain error.message 1)
    | .ok bytes => return runScriptBy execute around.readings config bytes
  | .prompt config =>
    let file := historyPath around.home config.historyFile
    let kept := (← host.readFile file).toOption
    match Repl.run editor around.bound around.readings config kept (← host.readInput) with
    | none => return none
    | some (outcome, kept) =>
      let _ ← host.writeFile file kept
      return some outcome

theorem runLox_eq {m : Type → Type} [Monad m] {τ : Type} (decode : Decoder) (editor : Editor τ)
    (host : Host m) (around : Surroundings) (args : List String) :
    runLox decode editor host around args
      = runLoxBy (globally around.bound) decode editor host around args := rfl

/-! ## Scripts -/

section
variable {execute : Execution} {readings : Session.Readings} {config : Config}
  {bytes : List UInt8} {bound : Nat}

/-- What a script reads as. -/
def scriptReading (bytes : List UInt8) : Reading :=
  Reading.ofSource (Utf8.decode bytes)

/-- How the execution of a script in a session of its own ends, and the session then. -/
def scriptRun (bound : Nat) (readings : Session.Readings) (config : Config)
    (bytes : List UInt8) : RunEnd × Session :=
  (Session.start config.maxCallDepth false readings).run bound Session.globals
    (scriptReading bytes).statements

/-- The exit status for what has been reported. -/
def exitStatus (status : Status) : Nat :=
  if status.hadError then 65 else if status.hadRuntimeError then 70 else 0

theorem runScriptBy_eq :
    runScriptBy execute readings config bytes
      = (interpretBy execute (Session.start config.maxCallDepth false readings)
          (Utf8.decode bytes)).map fun result => ⟨result.1, exitStatus result.2.status⟩ := by
  unfold runScriptBy
  dsimp only
  cases interpretBy execute (Session.start config.maxCallDepth false readings)
      (Utf8.decode bytes) with
  | none => rfl
  | some result => rfl

/-- A script about which something is reported is not executed. -/
theorem runScriptBy_rejected (execute : Execution)
    (h : (scriptReading bytes).diagnostics ≠ []) :
    runScriptBy execute readings config bytes
      = some ⟨⟨"", Diagnostic.render (scriptReading bytes).diagnostics⟩, 65⟩ := by
  have hstatus (session : Session) :
      exitStatus (flush (session.report (scriptReading bytes).diagnostics)).2.status = 65 :=
    if_pos (report_hadError session h)
  rw [runScriptBy_eq, interpretBy_rejected execute _ h, Option.map_some]
  exact congrArg (fun status => some (Outcome.mk ⟨_, _⟩ status)) (hstatus _)

/-- The failures of a new session are those of its program: the native function it has does not
fail. -/
theorem start_failure {wantedDepth : Int} {echo : Bool} {source : List Char} {failure : Diagnostic}
    (h : ((Session.start wantedDepth echo readings).run bound Session.globals
      (Reading.ofSource source).statements).1 = .finished (some failure)) :
    failure.isRuntime = true := by
  have hsourced := Session.sourced_start wantedDepth echo readings
  cases (hsourced.runSource bound Session.globals source).2 failure h with
  | fault fault _ _ => rfl
  | @native native n args message hmem hrun =>
      have hclock : native = Session.clock readings := Array.mem_singleton.mp hmem
      subst hclock
      cases hreading : readings n with
      | none => simp [Session.clock, hreading] at hrun
      | some time => simp [Session.clock, hreading] at hrun

/-- Behind a script that has come to an end, what it ended with is all that is reported. -/
theorem scriptRun_reports {failure : Option Diagnostic}
    (h : (scriptRun bound readings config bytes).1 = .finished failure) :
    (scriptRun bound readings config bytes).2.reports = failure.toList ∧
      (scriptRun bound readings config bytes).2.status = Status.clear.noteAll failure.toList := by
  have hreport := Session.run_report h
  exact ⟨congrArg Session.reports hreport, congrArg Session.status hreport⟩

/-- How the interpreter ends with a configuration and a script, in terms of what reading the script
gives: what is written and with which status, or nothing if the script goes on beyond the bound. What
is written about a script that was executed is what its session has reported. -/
inductive ScriptOutcome (around : Surroundings) (config : Config) :
    Except FileError (List UInt8) → Option Outcome → Prop
  | unread (error : FileError) :
    ScriptOutcome around config (.error error) (some (complain error.message 1))
  | rejected {bytes : List UInt8} : (scriptReading bytes).diagnostics ≠ [] →
    ScriptOutcome around config (.ok bytes)
      (some ⟨⟨"", Diagnostic.render (scriptReading bytes).diagnostics⟩, 65⟩)
  | failed {bytes : List UInt8} {failure : Diagnostic} {after : Session} (out : String) :
    (scriptReading bytes).diagnostics = [] →
    scriptRun around.bound around.readings config bytes = (.finished (some failure), after) →
    failure.isRuntime = true → after.reports = [failure] →
    ScriptOutcome around config (.ok bytes) (some ⟨⟨out, Diagnostic.render after.reports⟩, 70⟩)
  | finished {bytes : List UInt8} {after : Session} (out : String) :
    (scriptReading bytes).diagnostics = [] →
    scriptRun around.bound around.readings config bytes = (.finished none, after) →
    after.reports = [] →
    ScriptOutcome around config (.ok bytes) (some ⟨⟨out, Diagnostic.render after.reports⟩, 0⟩)
  | endless {bytes : List UInt8} : (scriptReading bytes).diagnostics = [] →
    (scriptRun around.bound around.readings config bytes).1 = .exhausted →
    ScriptOutcome around config (.ok bytes) none

/-- A script that was read ends in one of these ways. -/
theorem runScriptBy_outcome (around : Surroundings) (config : Config) (bytes : List UInt8) :
    ScriptOutcome around config (.ok bytes)
      (runScriptBy (globally around.bound) around.readings config bytes) := by
  by_cases hquiet : (scriptReading bytes).diagnostics = []
  · let session := Session.start config.maxCallDepth false around.readings
    obtain ⟨hbreak, hdefect⟩ := (Session.sound_run
      (Session.sound_start config.maxCallDepth false around.readings) around.bound Session.globals
      (Reading.statements_formed (Utf8.decode bytes))).1
    rw [runScriptBy_eq]
    cases hfinish : (scriptRun around.bound around.readings config bytes).1 with
    | finished failure =>
        have hrun : scriptRun around.bound around.readings config bytes
            = (.finished failure, (scriptRun around.bound around.readings config bytes).2) :=
          Prod.ext hfinish rfl
        obtain ⟨hreports, hstatus⟩ := scriptRun_reports hfinish
        generalize (scriptRun around.bound around.readings config bytes).2 = after
          at hrun hreports hstatus
        have hexecute : globally around.bound session (scriptReading bytes).statements
            = (.finished failure, after) := hrun
        have hflush : (flush after).2.status = Status.clear.noteAll failure.toList := hstatus
        rw [interpretBy_finished rfl hquiet hexecute, Option.map_some, hflush]
        cases failure with
        | none =>
            show ScriptOutcome around config (.ok bytes)
              (some ⟨⟨_, Diagnostic.render after.reports⟩, 0⟩)
            exact .finished _ hquiet hrun hreports
        | some failure =>
            have hruntime : failure.isRuntime = true := start_failure hfinish
            have hnote : Status.clear.noteAll [failure] = ⟨false, true⟩ := by
              show Status.clear.note failure = _
              rw [Status.note, if_pos hruntime]
              rfl
            rw [Option.toList_some, hnote]
            show ScriptOutcome around config (.ok bytes)
              (some ⟨⟨_, Diagnostic.render after.reports⟩, 70⟩)
            exact .failed _ hquiet hrun hruntime hreports
    | exhausted =>
        have hendless : ∀ failure, (globally around.bound session
            (scriptReading bytes).statements).1 ≠ .finished failure := by
          intro failure heq
          cases hfinish.symm.trans heq
        rw [interpretBy_unfinished rfl hquiet hendless]
        exact .endless hquiet hfinish
    | breakdown => exact absurd hfinish hbreak
    | defect defect => exact absurd hfinish (hdefect defect)
  · rw [runScriptBy_rejected _ hquiet]
    exact .rejected hquiet

end

/-! ## Configuration -/

/-- The settings are those of a file: it can be read, and what is in it decodes to settings that are
all allowed. -/
structure Accepted (decode : Decoder) (content : Except FileError (List UInt8)) (config : Config) :
    Prop where
  decoded : ∃ bytes, content = .ok bytes ∧ decode Config.default (.ok bytes) = .ok config
  positive : 0 < config.maxCallDepth
  limited : config.maxCallDepth ≤ callDepthLimit

/-- What reading each file gives. -/
abbrev Files := String → Except FileError (List UInt8)

/-- Reading files from the host as it is now gives what is in them and changes nothing. -/
def Serves {σ : Type} (host : Host (StateM σ)) (world : σ) (files : Files) : Prop :=
  ∀ path, (host.readFile path).run world = (files path, world)

/-- The configuration file in a home folder. -/
def homeFile (folder : String) : String := Path.join folder homeConfigFile

/-- The configuration to be used: that in the file which is named or, if none is, that in the home
folder. Only the latter may be missing. -/
inductive Resolves (decode : Decoder) (files : Files) (home : Option String) : String → Config → Prop
  | named {path : String} {config : Config} : path ≠ "" →
    Accepted decode (files path) config → Resolves decode files home path config
  | atHome {folder : String} {config : Config} : home = some folder →
    Accepted decode (files (homeFile folder)) config → Resolves decode files home "" config
  | missing {folder : String} {error : FileError} : home = some folder →
    files (homeFile folder) = .error error → error.opened = false → error.reason = .notFound →
    Resolves decode files home "" Config.default
  | homeless : home = none → Resolves decode files home "" Config.default

section
variable {decode : Decoder} {content : Except FileError (List UInt8)} {path : String}

theorem validate_eq_ok {config settings : Config} :
    config.validate = .ok settings ↔
      config = settings ∧ 0 < config.maxCallDepth ∧ config.maxCallDepth ≤ callDepthLimit := by
  unfold Config.validate
  split
  · simp
    omega
  · split
    · simp
      omega
    · simp
      omega

theorem parse_eq_ok (h : decode.Careful) {config : Config} :
    Config.parse decode content = .ok config ↔ Accepted decode content config := by
  unfold Config.parse
  cases content with
  | error error =>
      obtain ⟨fault, hfault⟩ := h Config.default error
      rw [hfault]
      constructor
      · intro hparse
        cases hparse
      · rintro ⟨⟨bytes, hbytes, -⟩, -, -⟩
        cases hbytes
  | ok bytes =>
      cases hdecode : decode Config.default (.ok bytes) with
      | error fault =>
          constructor
          · intro hparse
            cases hparse
          · rintro ⟨⟨bytes', hbytes, hsettings⟩, -, -⟩
            cases hbytes
            rw [hdecode] at hsettings
            cases hsettings
      | ok settings =>
          show settings.validate = .ok config ↔ _
          rw [validate_eq_ok]
          constructor
          · rintro ⟨rfl, hpositive, hlimited⟩
            exact ⟨⟨bytes, rfl, hdecode⟩, hpositive, hlimited⟩
          · rintro ⟨⟨bytes', hbytes, hsettings⟩, hpositive, hlimited⟩
            cases hbytes
            rw [hdecode] at hsettings
            cases hsettings
            exact ⟨rfl, hpositive, hlimited⟩

/-- What becomes of a file's content: it could not be opened, or it is parsed. -/
theorem configOf_cases (decode : Decoder) (path : String) (content : Except FileError (List UInt8)) :
    (∃ error, content = .error error ∧ error.opened = false ∧
      configOf decode path content = .error (.unopened error)) ∨
    (∀ error, content = .error error → error.opened = true) ∧
      configOf decode path content
        = (Config.parse decode content).mapError (LoadError.refused path) := by
  unfold configOf
  cases content with
  | error error =>
      cases hopened : error.opened with
      | true => exact Or.inr ⟨by simp [hopened], by simp [hopened]⟩
      | false => exact Or.inl ⟨error, rfl, hopened, by simp [hopened]⟩
  | ok bytes => exact Or.inr ⟨by simp, rfl⟩

theorem configOf_eq_ok (h : decode.Careful) {config : Config} :
    configOf decode path content = .ok config ↔ Accepted decode content config := by
  rcases configOf_cases decode path content with ⟨error, rfl, -, hconfig⟩ | ⟨-, hconfig⟩
  · rw [hconfig]
    constructor
    · intro hok
      cases hok
    · rintro ⟨⟨bytes, hbytes, -⟩, -, -⟩
      cases hbytes
  · rw [hconfig, ← parse_eq_ok h]
    cases Config.parse decode content with
    | ok settings => simp [Except.mapError]
    | error refusal =>
        constructor
        · intro hok
          cases hok
        · intro hok
          cases hok

/-- A file counts as missing if it could not be opened because it is not there. -/
theorem isMissing_iff {error : LoadError} (h : configOf decode path content = .error error) :
    error.isMissing = true ↔
      ∃ e, content = .error e ∧ e.opened = false ∧ e.reason = .notFound := by
  rcases configOf_cases decode path content with ⟨e, rfl, hopened, hconfig⟩ | ⟨hopened, hconfig⟩
  · rw [hconfig] at h
    cases h
    simp [LoadError.isMissing, hopened]
  · rw [hconfig] at h
    have hrefused : error.isMissing = false := by
      cases hparse : Config.parse decode content with
      | ok settings =>
          rw [hparse] at h
          cases h
      | error refusal =>
          rw [hparse] at h
          cases h
          rfl
    rw [hrefused]
    constructor
    · intro hfalse
      cases hfalse
    · rintro ⟨e, hcontent, hunopened, -⟩
      rw [hopened e hcontent] at hunopened
      cases hunopened

end

section
variable {σ τ : Type} {decode : Decoder} {host : Host (StateM σ)} {world : σ}
  {files : Files} {home : Option String}

theorem loadConfig_run (h : Serves host world files) (path : String) :
    (loadConfig decode host path).run world = (configOf decode path (files path), world) := by
  unfold loadConfig
  rw [StateT.run_bind, h path]
  rfl

/-- Without a name, a home folder decides: by its file, or because it has none. -/
theorem resolves_home {folder : String} {config : Config} :
    Resolves decode files (some folder) "" config ↔
      Accepted decode (files (homeFile folder)) config ∨
      (config = Config.default ∧ ∃ e, files (homeFile folder) = .error e ∧ e.opened = false ∧
        e.reason = .notFound) := by
  constructor
  · intro h
    cases h with
    | named hne _ => exact absurd rfl hne
    | atHome hhome hconfig =>
        cases hhome
        exact Or.inl hconfig
    | missing hhome hfile hopened hreason =>
        cases hhome
        exact Or.inr ⟨rfl, _, hfile, hopened, hreason⟩
    | homeless hhome => cases hhome
  · rintro (hconfig | ⟨rfl, e, hfile, hopened, hreason⟩)
    · exact .atHome rfl hconfig
    · exact .missing rfl hfile hopened hreason

/-- The configuration that is chosen is the one to be used, if there is one. -/
theorem chooseConfig_run (hdecode : decode.Careful) (h : Serves host world files)
    (home : Option String) (path : String) :
    ∃ chosen, (chooseConfig decode host home path).run world = (chosen, world) ∧
      ∀ config, chosen = .ok config ↔ Resolves decode files home path config := by
  unfold chooseConfig
  by_cases hpath : path = ""
  · subst hpath
    rw [if_neg (by simp)]
    cases home with
    | none =>
        refine ⟨.ok Config.default, rfl, fun config => ⟨?_, ?_⟩⟩
        · rintro ⟨⟩
          exact .homeless rfl
        · intro hconfig
          cases hconfig with
          | named hne _ => exact absurd rfl hne
          | atHome hhome _ => cases hhome
          | missing hhome _ _ _ => cases hhome
          | homeless _ => rfl
    | some folder =>
        dsimp only
        rw [StateT.run_bind, loadConfig_run h]
        have haccepted (config : Config) : Accepted decode (files (homeFile folder)) config ↔
            configOf decode (homeFile folder) (files (homeFile folder)) = .ok config :=
          (configOf_eq_ok hdecode).symm
        simp only [resolves_home, haccepted]
        cases hload : configOf decode (homeFile folder) (files (homeFile folder)) with
        | ok loaded =>
            refine ⟨.ok loaded, ?_, fun config => ?_⟩
            · rw [homeFile] at hload
              rw [hload]
              rfl
            · obtain ⟨⟨bytes, hbytes, -⟩, -, -⟩ := (configOf_eq_ok hdecode).mp hload
              simp [hbytes]
        | error error =>
            have hmissing := isMissing_iff hload
            rw [homeFile] at hload
            rw [hload]
            -- The error is passed on, unless it only tells that there is no such file.
            refine ⟨if error.isMissing then .ok Config.default else .error error, rfl,
              fun config => ?_⟩
            by_cases hisMissing : error.isMissing = true
            · have hfile := hmissing.mp hisMissing
              rw [if_pos hisMissing]
              constructor
              · rintro ⟨⟩
                exact Or.inr ⟨rfl, hfile⟩
              · rintro (hconfig | ⟨rfl, -⟩)
                · cases hconfig
                · rfl
            · rw [if_neg hisMissing]
              constructor
              · intro hconfig
                cases hconfig
              · rintro (hconfig | ⟨-, hfile⟩)
                · cases hconfig
                · exact absurd (hmissing.mpr hfile) hisMissing
  · rw [if_pos (by simpa using hpath), loadConfig_run h]
    refine ⟨_, rfl, fun config => ?_⟩
    rw [configOf_eq_ok hdecode]
    refine ⟨.named hpath, fun hconfig => ?_⟩
    cases hconfig with
    | named _ hconfig => exact hconfig
    | atHome _ _ => exact absurd rfl hpath
    | missing _ _ _ _ => exact absurd rfl hpath
    | homeless _ => exact absurd rfl hpath

/-! ## The command -/

variable {around : Surroundings} {args : List String} {options : Options} {config : Config}
  {script : String} {outcome : Outcome} (editor : Editor τ)

theorem replRun_status {bound : Nat} {readings : Session.Readings} {kept : Option (List UInt8)}
    {input kept' : List UInt8}
    (h : Repl.run editor bound readings config kept input = some (outcome, kept')) :
    outcome.status = 0 := by
  unfold Repl.run at h
  obtain ⟨result, -, hresult⟩ := Option.bind_eq_some_iff.mp h
  cases hresult
  rfl

/-- Arguments that are not refused come with a configuration, and they name a script or nothing. -/
theorem exists_of_not_refused
    (hrefused : ¬ (1 < options.rest.length ∨
      ∀ config, ¬ Resolves decode files home options.config config)) :
    ∃ config, Resolves decode files home options.config config ∧
      (options.rest = [] ∨ ∃ script, options.rest = [script]) := by
  have hfew : ¬ 1 < options.rest.length := fun hmany => hrefused (Or.inl hmany)
  have hexists : ∃ config, Resolves decode files home options.config config := by
    by_contra hnone
    exact hrefused (Or.inr fun config hconfig => hnone ⟨config, hconfig⟩)
  obtain ⟨config, hconfig⟩ := hexists
  refine ⟨config, hconfig, ?_⟩
  cases hrest : options.rest with
  | nil => exact Or.inl rfl
  | cons script more =>
      rw [hrest, List.length_cons] at hfew
      have hmore : more = [] := List.eq_nil_of_length_eq_zero (by omega)
      exact Or.inr ⟨script, by rw [hmore]⟩

section
variable (hdecode : decode.Careful) (h : Serves host world files)
  (hoptions : parseOptions "" args = .ok options)

include hdecode h hoptions

theorem plan_refused (hrefused : 1 < options.rest.length ∨
      ∀ config, ¬ Resolves decode files home options.config config) :
    ∃ message, (plan decode host home args).run world = (.stop (complain message 64), world) := by
  unfold plan
  rw [hoptions]
  dsimp only
  by_cases hmany : 1 < options.rest.length
  · rw [if_pos hmany]
    exact ⟨usage, rfl⟩
  · have hnone := hrefused.resolve_left hmany
    obtain ⟨chosen, hrun, hchosen⟩ := chooseConfig_run hdecode h home options.config
    rw [if_neg hmany, StateT.run_bind, hrun]
    cases chosen with
    | error error => exact ⟨error.message, rfl⟩
    | ok config => exact absurd ((hchosen config).mp rfl) (hnone config)

theorem plan_resolved (hconfig : Resolves decode files home options.config config) :
    (options.rest = [] → (plan decode host home args).run world = (.prompt config, world)) ∧
      ∀ script, options.rest = [script] →
        (plan decode host home args).run world = (.script config script, world) := by
  obtain ⟨chosen, hrun, hchosen⟩ := chooseConfig_run hdecode h home options.config
  rw [(hchosen config).mpr hconfig] at hrun
  unfold plan
  rw [hoptions]
  dsimp only
  constructor
  · intro hrest
    rw [if_neg (by simp [hrest]), StateT.run_bind, hrun, hrest]
    rfl
  · intro script hrest
    rw [if_neg (by simp [hrest]), StateT.run_bind, hrun, hrest]
    rfl

theorem runLoxBy_refused (hrefused : 1 < options.rest.length ∨
      ∀ config, ¬ Resolves decode files around.home options.config config) :
    ∃ message, ∀ execute, (runLoxBy execute decode editor host around args).run world
      = (some (complain message 64), world) := by
  obtain ⟨message, hplan⟩ := plan_refused hdecode h hoptions hrefused
  refine ⟨message, fun execute => ?_⟩
  unfold runLoxBy
  rw [StateT.run_bind, hplan]
  rfl

theorem runLoxBy_script (hrest : options.rest = [script])
    (hconfig : Resolves decode files around.home options.config config) (execute : Execution) :
    (∀ error, files script = .error error →
      (runLoxBy execute decode editor host around args).run world
        = (some (complain error.message 1), world)) ∧
    ∀ bytes, files script = .ok bytes →
      (runLoxBy execute decode editor host around args).run world
        = (runScriptBy execute around.readings config bytes, world) := by
  have hplan := (plan_resolved hdecode h hoptions hconfig).2 script hrest
  unfold runLoxBy
  rw [StateT.run_bind, hplan]
  constructor
  · intro error hfile
    show StateT.run (host.readFile script >>= _) world = _
    rw [StateT.run_bind, h script, hfile]
    rfl
  · intro bytes hfile
    show StateT.run (host.readFile script >>= _) world = _
    rw [StateT.run_bind, h script, hfile]
    rfl

theorem runLox_outcome (hrest : options.rest = [script])
    (hconfig : Resolves decode files around.home options.config config) :
    ScriptOutcome around config (files script)
      ((runLox decode editor host around args).run world).1 := by
  obtain ⟨herror, hok⟩ :=
    runLoxBy_script editor hdecode h hoptions hrest hconfig (globally around.bound)
  rw [runLox_eq]
  cases hfile : files script with
  | error error =>
      rw [herror error hfile]
      exact .unread error
  | ok bytes =>
      rw [hok bytes hfile]
      exact runScriptBy_outcome around config bytes

/-- With one of these statuses the script is not executed. -/
theorem runLoxBy_unexecuted (hrest : options.rest = [script])
    (hconfig : Resolves decode files around.home options.config config)
    (hrun : ((runLox decode editor host around args).run world).1 = some outcome)
    (hstatus : outcome.status = 1 ∨ outcome.status = 65) :
    outcome.transcript.out = "" ∧ ∀ execute,
      (runLoxBy execute decode editor host around args).run world = (some outcome, world) := by
  have hended := runLox_outcome editor hdecode h hoptions hrest hconfig
  rw [hrun] at hended
  have hscript := runLoxBy_script editor hdecode h hoptions hrest hconfig
  -- Each case of the outcome says what reading the file gives, so that has to be a variable.
  generalize files script = content at hended hscript
  cases hended with
  | unread error => exact ⟨rfl, fun execute => (hscript execute).1 error rfl⟩
  | rejected hloud =>
      refine ⟨rfl, fun execute => ?_⟩
      rw [(hscript execute).2 _ rfl, runScriptBy_rejected execute hloud]
  | failed out _ _ _ _ => simp at hstatus
  | finished out _ _ _ => simp at hstatus

/-- Lines at a prompt always end well. -/
theorem runLox_prompt (hrest : options.rest = [])
    (hconfig : Resolves decode files around.home options.config config)
    (hrun : ((runLox decode editor host around args).run world).1 = some outcome) :
    outcome.status = 0 := by
  have hplan := (plan_resolved hdecode h hoptions hconfig).1 hrest
  -- One step after the other: the plan, what was kept, the input, and the lines of it.
  unfold runLox at hrun
  rw [StateT.run_bind, hplan] at hrun
  change (StateT.run (host.readFile (historyPath around.home config.historyFile) >>= _) world).1
    = _ at hrun
  rw [StateT.run_bind, h] at hrun
  change (StateT.run (host.readInput >>= _) world).1 = _ at hrun
  rw [StateT.run_bind] at hrun
  cases hinput : host.readInput.run world with
  | mk input world' =>
      rw [hinput] at hrun
      dsimp only [bind, pure] at hrun
      split at hrun
      case h_1 => cases hrun
      case h_2 ended kept hlines =>
          have hended : ended = outcome := Option.some.inj hrun
          rw [← hended]
          exact replRun_status editor hlines

theorem status_eq_64_iff
    (hrun : ((runLox decode editor host around args).run world).1 = some outcome) :
    outcome.status = 64 ↔ 1 < options.rest.length ∨
      ∀ config, ¬ Resolves decode files around.home options.config config := by
  constructor
  · intro hstatus
    by_contra hrefused
    obtain ⟨config, hconfig, hrest | ⟨script, hrest⟩⟩ := exists_of_not_refused hrefused
    · have hzero : outcome.status = 0 := runLox_prompt editor hdecode h hoptions hrest hconfig hrun
      omega
    · have hended := runLox_outcome editor hdecode h hoptions hrest hconfig
      rw [hrun] at hended
      generalize files script = content at hended
      cases hended <;> cases hstatus
  · intro hrefused
    obtain ⟨message, hall⟩ := runLoxBy_refused editor hdecode h hoptions hrefused
    rw [runLox_eq, hall] at hrun
    cases hrun
    rfl

end

/-- The exit status classifies what was done. It is 64 if there are too many arguments or there is no
configuration to be used; otherwise, for a script, 1 if it cannot be read, 65 if something is reported
about it, 70 if it fails and 0 if it comes to its end. With 64, 1 and 65 nothing is written to the
output and no statement is executed. What is written about a script are the diagnostics that were
reported: for one that fails the failure alone, and none for one that comes to its end. There is no
status only if the run of the script is exhausted. -/
theorem status_classifies (hdecode : decode.Careful) (h : Serves host world files)
    (hoptions : parseOptions "" args = .ok options) :
    (∀ config script, Resolves decode files around.home options.config config →
      options.rest = [script] →
      (((runLox decode editor host around args).run world).1 = none ↔
        ∃ bytes, files script = .ok bytes ∧ (scriptReading bytes).diagnostics = [] ∧
        (scriptRun around.bound around.readings config bytes).1 = .exhausted)) ∧
    ∀ outcome, ((runLox decode editor host around args).run world).1 = some outcome →
      (outcome.status = 64 ↔ 1 < options.rest.length ∨
        ∀ config, ¬ Resolves decode files around.home options.config config) ∧
      (∀ config script, Resolves decode files around.home options.config config →
        options.rest = [script] →
        (outcome.status = 1 ↔ ∃ error, files script = .error error) ∧
        (outcome.status = 65 ↔ ∃ bytes, files script = .ok bytes ∧
          (scriptReading bytes).diagnostics ≠ []) ∧
        (outcome.status = 70 ↔ ∃ bytes failure, files script = .ok bytes ∧
          (scriptReading bytes).diagnostics = [] ∧
          (scriptRun around.bound around.readings config bytes).1 = .finished (some failure) ∧
          failure.isRuntime = true) ∧
        (outcome.status = 0 ↔ ∃ bytes, files script = .ok bytes ∧
          (scriptReading bytes).diagnostics = [] ∧
          (scriptRun around.bound around.readings config bytes).1 = .finished none) ∧
        ∀ bytes, files script = .ok bytes →
          (outcome.status = 65 →
            outcome.transcript.err = Diagnostic.render (scriptReading bytes).diagnostics) ∧
          (∀ failure, outcome.status = 70 →
            (scriptRun around.bound around.readings config bytes).1 = .finished (some failure) →
            (scriptRun around.bound around.readings config bytes).2.reports = [failure] ∧
            outcome.transcript.err = Diagnostic.render [failure]) ∧
          (outcome.status = 0 →
            (scriptRun around.bound around.readings config bytes).2.reports = [] ∧
            outcome.transcript.err = "")) ∧
      (outcome.status = 64 ∨ outcome.status = 1 ∨ outcome.status = 65 →
        outcome.transcript.out = "" ∧
          ∀ execute, (runLoxBy execute decode editor host around args).run world
            = (runLox decode editor host around args).run world) := by
  refine ⟨?_, fun outcome hrun => ⟨?_, ?_, ?_⟩⟩
  · intro config script hconfig hrest
    have hended := runLox_outcome editor hdecode h hoptions hrest hconfig
    generalize files script = content at hended
    generalize ((runLox decode editor host around args).run world).1 = ended at hended
    cases hended with
    | unread error => simp
    | rejected hloud => simp [hloud]
    | failed out hquiet hscript _ _ => simp [hscript]
    | finished out hquiet hscript _ => simp [hscript]
    | endless hquiet hfinish => simp [hquiet, hfinish]
  · exact status_eq_64_iff editor hdecode h hoptions hrun
  · intro config script hconfig hrest
    have hended := runLox_outcome editor hdecode h hoptions hrest hconfig
    rw [hrun] at hended
    generalize files script = content at hended
    cases hended with
    | unread error => simp [complain]
    | rejected hloud => simp [hloud]
    | failed out hquiet hscript hruntime hreports =>
        simp [hquiet, hscript, hruntime, hreports]
    | finished out hquiet hscript hreports =>
        simp [hquiet, hscript, hreports, Diagnostic.render]
  · intro hstatus
    rw [runLox_eq]
    by_cases hrefused : 1 < options.rest.length ∨
        ∀ config, ¬ Resolves decode files around.home options.config config
    · obtain ⟨message, hall⟩ := runLoxBy_refused editor hdecode h hoptions hrefused
      refine ⟨?_, fun execute => (hall execute).trans (hall _).symm⟩
      rw [runLox_eq, hall] at hrun
      cases hrun
      rfl
    · have hnot : outcome.status ≠ 64 := fun heq =>
        hrefused ((status_eq_64_iff editor hdecode h hoptions hrun).mp heq)
      obtain ⟨config, hconfig, hrest | ⟨script, hrest⟩⟩ := exists_of_not_refused hrefused
      · have hzero : outcome.status = 0 := runLox_prompt editor hdecode h hoptions hrest hconfig hrun
        omega
      · obtain ⟨hout, hall⟩ := runLoxBy_unexecuted editor hdecode h hoptions hrest hconfig hrun
          (hstatus.resolve_left hnot)
        exact ⟨hout, fun execute => (hall execute).trans (hall _).symm⟩

end

/-- Files that are only read. -/
def shelf (files : Files) : Host (StateM Unit) where
  readInput := pure []
  readFile path := pure (files path)
  writeFile _ _ := pure none

/-- A script that does not stop calling itself, and a configuration by which no more than three calls
may be active. -/
def sinking : Files := fun path =>
  if path = "sink.lox" then .ok (Utf8.encode "fun f() \x7b return f(); \x7d print \"down\"; f();")
  else if path = "shallow.yaml" then .ok (Utf8.encode "max_call_depth: 3\n")
  else .error ⟨false, path, .notFound⟩

/-- The decoder that the command line uses. -/
theorem decoder_careful : Yaml.decoder.Careful := by
  intro config error
  exact ⟨.malformed ("yaml: input error: " ++ error.message), rfl⟩

theorem status_classifies_sinking :
    let around : Surroundings := ⟨none, "/work", fun _ => some 0, 5⟩
    let args := ["-config", "shallow.yaml", "sink.lox"]
    let config : Config := ⟨3, "> ", ".tlox_history"⟩
    Resolves Yaml.decoder sinking none "shallow.yaml" config ∧
      ∃ outcome bytes failure,
        ((runLox Yaml.decoder plainEditor (shelf sinking) around args).run ()).1 = some outcome ∧
        outcome.transcript = ⟨"down\n", Diagnostic.render [failure]⟩ ∧ outcome.status = 70 ∧
        sinking "sink.lox" = .ok bytes ∧ (scriptReading bytes).diagnostics = [] ∧
        (scriptRun 5 around.readings config bytes).1 = .finished (some failure) ∧
        (scriptRun 5 around.readings config bytes).2.reports = [failure] ∧
        failure.isRuntime = true := by
  intro around args config
  have hserves : Serves (shelf sinking) () sinking := fun _ => rfl
  have hoptions : parseOptions "" args = .ok ⟨"shallow.yaml", ["sink.lox"]⟩ := by decide +kernel
  have hyaml : Yaml.decoder Config.default (sinking "shallow.yaml") = .ok config := by
    decide +kernel
  have hconfig : Resolves Yaml.decoder sinking none "shallow.yaml" config :=
    .named (by decide) ⟨⟨_, rfl, hyaml⟩, by decide, by decide⟩
  have hrun : ((runLox Yaml.decoder plainEditor (shelf sinking) around args).run ()).1.map
      (fun outcome => (outcome.transcript.out, outcome.status)) = some ("down\n", 70) := by
    decide +kernel
  obtain ⟨outcome, hsome, hpair⟩ := Option.map_eq_some_iff.mp hrun
  obtain ⟨hout, hstatus⟩ := Prod.mk.inj hpair
  have hclassified :=
    (status_classifies plainEditor decoder_careful hserves hoptions).2 outcome hsome
  obtain ⟨-, -, hfailed, -, hwritten⟩ := hclassified.2.1 config "sink.lox" hconfig rfl
  obtain ⟨bytes, failure, hbytes, hquiet, hend, hruntime⟩ := hfailed.mp hstatus
  obtain ⟨hreports, herr⟩ := (hwritten bytes hbytes).2.1 failure hstatus hend
  have htranscript : outcome.transcript = ⟨"down\n", Diagnostic.render [failure]⟩ := by
    rw [← hout, ← herr]
  exact ⟨hconfig, outcome, bytes, failure, hsome, htranscript, hstatus, hbytes, hquiet, hend,
    hreports, hruntime⟩

end Command

end LoxLang
