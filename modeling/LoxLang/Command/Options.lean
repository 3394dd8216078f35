set_option autoImplicit false

/-! # Options on the command line

The interpreter takes one option, the path of a configuration, written with one or two dashes and its
value behind an equals sign or in the next argument. Options end at two dashes alone or at the first
argument that does not look like one. -/

namespace LoxLang.Command

/-- The arguments taken apart. -/
structure Options where
  /-- The path of the configuration; empty if none is given. -/
  config : String
  /-- What is left behind the options. -/
  rest : List String
  deriving DecidableEq, Repr

/-- Why arguments are not accepted. -/
inductive OptionFault where
  /-- Help was asked for. -/
  | help
  | badSyntax (argument : String)
  | unknown (name : String)
  | noValue (name : String)
  deriving DecidableEq, Repr

/-- The text of a fault, if it has one. -/
def OptionFault.message? : OptionFault → Option String
  | .help => none
  | .badSyntax argument => some ("bad flag syntax: " ++ argument)
  | .unknown name => some ("flag provided but not defined: -" ++ name)
  | .noValue name => some ("flag needs an argument: -" ++ name)

/-- An argument that looks like an option: its name and the value behind an equals sign. -/
structure Flag where
  name : List Char
  value : Option (List Char)

/-- Takes apart the text behind the dashes. The equals sign cannot come first. -/
def Flag.ofText : List Char → Option Flag
  | [] => none
  | c :: rest =>
    if c == '-' || c == '=' then none
    else
      let name := rest.takeWhile (· != '=')
      match rest.drop name.length with
      | [] => some ⟨c :: name, none⟩
      | _ :: value => some ⟨c :: name, some value⟩

/-- Takes the options off the front of the arguments, with the last value given so far. -/
def parseOptions (config : String) : List String → Except OptionFault Options
  | [] => .ok ⟨config, []⟩
  | argument :: rest =>
    match argument.toList with
    | ['-', '-'] => .ok ⟨config, rest⟩
    | '-' :: c :: more =>
      let text := if c == '-' then more else c :: more
      match Flag.ofText text with
      | none => .error (.badSyntax argument)
      | some flag =>
        let name := String.ofList flag.name
        if name == "config" then
          match flag.value with
          | some value => parseOptions (String.ofList value) rest
          | none =>
            match rest with
            | value :: more => parseOptions value more
            | [] => .error (.noValue name)
        else if name == "help" || name == "h" then .error .help
        else .error (.unknown name)
    | _ => .ok ⟨config, argument :: rest⟩

end LoxLang.Command
