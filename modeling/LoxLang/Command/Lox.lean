import LoxLang.Command.Options
import LoxLang.Command.Prompt
import LoxLang.Files.Host
import LoxLang.Files.Path

set_option autoImplicit false

/-! # The interpreter as a command

`tlox [-config file] [script]` runs a script or, without one, the lines at a prompt. The status tells
how it went: 64 for arguments or a configuration that cannot be used, 1 for a script that cannot be
read, 65 for a script that cannot be understood, 70 for one that failed while it ran. -/

namespace LoxLang.Command

/-- The line that tells how to call the interpreter. -/
def usage : String := "Usage: tlox [-config file] [script]"

/-- The configuration in the home folder. -/
def homeConfigFile : String := ".tlox.yaml"

/-! ## Configuration -/

/-- Why a configuration file was not accepted. -/
inductive LoadError where
  | unopened (error : FileError)
  | refused (path : String) (error : ConfigError)
  deriving DecidableEq, Repr

/-- The text of a load error. -/
def LoadError.message : LoadError → String
  | .unopened error => "config: " ++ error.message
  | .refused path error => "config " ++ path ++ ": " ++ error.message

/-- Whether the file is just not there. -/
def LoadError.isMissing : LoadError → Bool
  | .unopened error => error.reason == .notFound
  | _ => false

/-- The configuration that a file holds, given what reading it gave. A file that could be opened is for
the decoder to deal with. -/
def configOf (decode : Decoder) (path : String) (content : Except FileError (List UInt8)) :
    Except LoadError Config :=
  match content with
  | .error error =>
    if error.opened then (Config.parse decode content).mapError (LoadError.refused path)
    else .error (.unopened error)
  | .ok _ => (Config.parse decode content).mapError (LoadError.refused path)

/-- Loads the configuration at a path. -/
def loadConfig {m : Type → Type} [Monad m] (decode : Decoder) (host : Host m) (path : String) :
    m (Except LoadError Config) :=
  return configOf decode path (← host.readFile path)

/-- The configuration named in the arguments or else the one in the home folder, which may be
missing. -/
def chooseConfig {m : Type → Type} [Monad m] (decode : Decoder) (host : Host m)
    (home : Option String) (path : String) : m (Except LoadError Config) := do
  if path != "" then loadConfig decode host path
  else match home with
    | none => return .ok Config.default
    | some home =>
      match ← loadConfig decode host (Path.join home homeConfigFile) with
      | .error error => return if error.isMissing then .ok Config.default else .error error
      | .ok config => return .ok config

/-! ## Scripts -/

/-- Runs a script. -/
def runScript (bound : Nat) (readings : Session.Readings) (config : Config)
    (bytes : List UInt8) : Option Outcome := do
  let session := Session.start config.maxCallDepth false readings
  let (transcript, after) ← interpret bound session (Utf8.decode bytes)
  let status := if after.status.hadError then 65 else if after.status.hadRuntimeError then 70 else 0
  return ⟨transcript, status⟩

/-! ## The command -/

/-- What is to be done after the arguments and the configuration have been read. -/
inductive Plan where
  | stop (outcome : Outcome)
  | script (config : Config) (path : String)
  | prompt (config : Config)

/-- The end of a command whose options are not accepted. -/
def OptionFault.outcome (fault : OptionFault) : Outcome :=
  match fault.message? with
  | none => complain usage 0
  | some message => complain (message ++ "\n" ++ usage) 2

/-- Reads the arguments and the configuration. -/
def plan {m : Type → Type} [Monad m] (decode : Decoder) (host : Host m) (home : Option String)
    (args : List String) : m Plan := do
  match parseOptions "" args with
  | .error fault => return .stop fault.outcome
  | .ok options =>
    if 1 < options.rest.length then return .stop (complain usage 64)
    else match ← chooseConfig decode host home options.config with
      | .error error => return .stop (complain error.message 64)
      | .ok config =>
        match options.rest with
        | [] => return .prompt config
        | path :: _ => return .script config path

/-- Where the history is kept. A relative path is taken from the home folder, if there is one. -/
def historyPath (home : Option String) (file : String) : String :=
  if file == "" || Path.isAbsolute file then file
  else match home with
    | none => file
    | some home => Path.join home file

/-- Runs the interpreter, with a decoder for its configuration and an editor for its lines. `none` if a
run is exhausted before its end. -/
def runLox {m : Type → Type} [Monad m] {σ : Type} (decode : Decoder) (editor : Editor σ)
    (host : Host m) (around : Surroundings) (args : List String) : m (Option Outcome) := do
  match ← plan decode host around.home args with
  | .stop outcome => return some outcome
  | .script config path =>
    match ← host.readFile path with
    | .error error => return some (complain error.message 1)
    | .ok bytes => return runScript around.bound around.readings config bytes
  | .prompt config =>
    let file := historyPath around.home config.historyFile
    let kept := (← host.readFile file).toOption
    match Repl.run editor around.bound around.readings config kept (← host.readInput) with
    | none => return none
    | some (outcome, kept) =>
      let _ ← host.writeFile file kept
      return some outcome

end LoxLang.Command
