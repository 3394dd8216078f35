import LoxLang.Files.Host
import LoxLang.Session

set_option autoImplicit false

/-! # Configuration

The settings of an interpreter can be read from a document. How a document is decoded is left to a
`Decoder`; what the decoder makes of it, over the defaults, is accepted if all values are allowed. -/

namespace LoxLang

/-- The settings of an interpreter. -/
structure Config where
  /-- How many calls may be active at once. -/
  maxCallDepth : Int
  /-- What is written in front of every line that is asked for. -/
  prompt : String
  /-- Where the lines entered are kept. -/
  historyFile : String
  deriving DecidableEq, Repr

/-- The settings without a document. -/
def Config.default : Config :=
  ⟨defaultCallDepth, "> ", ".tlox_history"⟩

/-- Why a document is not decoded, in the words of the decoder. -/
inductive DecodeFault where
  /-- It cannot be read. -/
  | malformed (text : String)
  /-- Its entries do not fit the settings. -/
  | mismatched (text : String)
  deriving DecidableEq, Repr

/-- The text of a fault. -/
def DecodeFault.text : DecodeFault → String
  | malformed text | mismatched text => text

/-- Decodes a document over settings that are there already, given what reading its file gave. -/
abbrev Decoder := Config → Except FileError (List UInt8) → Except DecodeFault Config

/-- Why settings are refused. -/
inductive ConfigError where
  /-- The document is not decoded. -/
  | undecoded (fault : DecodeFault)
  /-- The call depth is not positive. -/
  | depthNotPositive (depth : Int)
  /-- The call depth is beyond the limit. -/
  | depthTooLarge (depth : Int)
  deriving DecidableEq, Repr

namespace ConfigError

/-- The text of an error. -/
def message : ConfigError → String
  | undecoded fault => fault.text
  | depthNotPositive depth =>
    "invalid config: max_call_depth must be positive, got " ++ toString depth
  | depthTooLarge depth =>
    "invalid config: max_call_depth must be at most " ++ toString callDepthLimit ++ ", got " ++
      toString depth

/-- Whether the settings have the right types, but one of them has a value that is not allowed. -/
def isInvalid : ConfigError → Bool
  | depthNotPositive _ | depthTooLarge _ => true
  | _ => false

end ConfigError

namespace Config

/-- The settings if all their values are allowed. -/
def validate (config : Config) : Except ConfigError Config :=
  if config.maxCallDepth ≤ 0 then .error (.depthNotPositive config.maxCallDepth)
  else if (callDepthLimit : Int) < config.maxCallDepth then
    .error (.depthTooLarge config.maxCallDepth)
  else .ok config

/-- The settings of a document. -/
def parse (decode : Decoder) (content : Except FileError (List UInt8)) :
    Except ConfigError Config :=
  match decode default content with
  | .error fault => .error (.undecoded fault)
  | .ok config => config.validate

end Config

end LoxLang
