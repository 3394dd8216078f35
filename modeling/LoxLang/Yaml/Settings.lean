import LoxLang.Config
import LoxLang.Text.Quoted
import LoxLang.Text.Utf8
import LoxLang.Yaml.Read
import LoxLang.Yaml.Resolve

set_option autoImplicit false

/-! # Settings in YAML

The decoder that the command line uses. A setting that the document does not mention, or leaves empty,
keeps its value; a key that names no setting is an error. All entries of the wrong type are told at
once, in the order of the document. -/

namespace LoxLang.Yaml

/-- What decoding has found: the settings so far and the faults so far. Without a result, the
document cannot be decoded at all. -/
structure Decoding where
  config : Config
  faults : List String

/-- Adds a fault on a line. -/
def Decoding.fault (d : Decoding) (line : Nat) (text : String) : Decoding :=
  { d with faults := d.faults ++ ["line " ++ toString line ++ ": " ++ text] }

/-- The bytes of a text up to a limit, with a sign of what was left out. -/
def abridged (text : String) : String :=
  let bytes := Utf8.encode text
  if 10 < bytes.length then String.ofList (Utf8.decode (bytes.take 7)) ++ "..." else text

/-- The text that tells of a node with a tag that does not become a value of a type. -/
def mismatchText (tag : String) (value : String) (type : String) : String :=
  let shown :=
    if tag == "!!seq" || tag == "!!map" then value else " \x60" ++ abridged value ++ "\x60"
  "cannot unmarshal " ++ tag ++ shown ++ " into " ++ type

/-- The tag that tells of a scalar: the one that is written, or else that of its meaning. The mark of
merged entries has a tag of its own. -/
def scalarTag (tag : Option String) (quoted : Bool) (text : String) (meaning : Meaning) : String :=
  tag.getD (if !quoted && text == "<<" then "!!merge" else meaning.tag)

/-- Two keys that count as the same, by the text of the second. -/
def sameKey? : Node → Node → Option String
  | .scalar _ _ _ a, .scalar _ _ _ b => if a == b then some b else none
  | .sequence .., .sequence .. => some ""
  | .mapping .., .mapping .. => some ""
  | .mention _ a _, .mention _ b _ => if a == b then some b else none
  | _, _ => none

/-- The faults of a mapping that has keys twice. -/
def duplicateFaults : List (Node × Node) → List String
  | [] => []
  | (key, _) :: more =>
    (more.filterMap fun (other, _) =>
      (sameKey? key other).map fun text =>
        "line " ++ toString other.line ++ ": mapping key " ++ Quoted.encode text ++
          " already defined at line " ++ toString key.line) ++ duplicateFaults more

/-- The least integer of 64 bits. -/
def minInt64 : Int := -(Nat.pow 2 63 : Nat)

/-- A double cut to an integer, if it is not above the integers of 64 bits. What is below them, and
the one number that only just exceeds them, becomes the least integer. -/
def truncated? (x : Float) : Option Int :=
  let bits := Binary64.magnitude x
  if Binary64.infinityBits < bits then none
  else
    let parts := Binary64.Parts.ofBits bits
    let exact := parts.significand * Nat.pow 2 parts.exponent.toNat
    let size := exact / Nat.pow 2 (-parts.exponent).toNat
    if Binary64.isNegative x then
      some (if size ≤ Nat.pow 2 63 then -(size : Int) else minInt64)
    else if exact ≤ Nat.pow 2 63 * Nat.pow 2 (-parts.exponent).toNat then
      some (if size < Nat.pow 2 63 then (size : Int) else minInt64)
    else none

/-- Reads a node as an integer; the current value stays where nothing is written. -/
def decodeInt (current : Int) (faults : List String) : Node → Option (Int × List String)
  | .mention _ _ target => decodeInt current faults target
  | .sequence line tag _ =>
    some (current, faults ++
      ["line " ++ toString line ++ ": " ++ mismatchText (tag.getD "!!seq") "" "int"])
  | .mapping line tag entries =>
    let doubles := duplicateFaults entries
    some (current, faults ++ if doubles.isEmpty then
      ["line " ++ toString line ++ ": " ++ mismatchText (tag.getD "!!map") "" "int"] else doubles)
  | .scalar line tag quoted text => do
    let meaning ← resolve tag quoted text
    let refused := faults ++
      ["line " ++ toString line ++ ": " ++ mismatchText (scalarTag tag quoted text meaning) text "int"]
    match meaning with
    | .null => some (current, faults)
    | .int n => some (if n < (Nat.pow 2 63 : Nat) then (n, faults) else (current, refused))
    | .float x =>
      match truncated? x with
      | some n => some (n, faults)
      | none => some (current, refused)
    | _ => some (current, refused)

/-- Reads a node as a string, for which the text of any scalar will do; `none` as the first part says
that nothing is written there. -/
def decodeString (faults : List String) : Node → Option (Option String × List String)
  | .mention _ _ target => decodeString faults target
  | .sequence line tag _ =>
    some (none, faults ++
      ["line " ++ toString line ++ ": " ++ mismatchText (tag.getD "!!seq") "" "string"])
  | .mapping line tag entries =>
    let doubles := duplicateFaults entries
    some (none, faults ++ if doubles.isEmpty then
      ["line " ++ toString line ++ ": " ++ mismatchText (tag.getD "!!map") "" "string"] else doubles)
  | .scalar _ tag quoted text => do
    match ← resolve tag quoted text with
    | .null => some (none, faults)
    | .string own => some (some own, faults)
    | _ => some (some text, faults)

/-- Reads the value of a setting. -/
def decodeSetting (d : Decoding) (key : String) (line : Nat) (value : Node) : Option Decoding :=
  match key with
  | "max_call_depth" => do
    let (depth, faults) ← decodeInt d.config.maxCallDepth d.faults value
    return ⟨{ d.config with maxCallDepth := depth }, faults⟩
  | "prompt" => do
    let (text, faults) ← decodeString d.faults value
    return ⟨{ d.config with prompt := text.getD d.config.prompt }, faults⟩
  | "history_file" => do
    let (text, faults) ← decodeString d.faults value
    return ⟨{ d.config with historyFile := text.getD d.config.historyFile }, faults⟩
  | _ => some (d.fault line ("field " ++ key ++ " not found in type lox.Config"))

/-- Whether a key asks for the entries of another mapping. -/
def isMergeKey : Node → Bool
  | .scalar _ none false "<<" => true
  | .scalar _ (some "!!merge") _ "<<" => true
  | _ => false

/-- Reads the settings of a mapping, except those in `taken`, and finds the node whose entries are to
be merged, if there is one. -/
def decodeEntries (taken : List String) : Decoding → List (Node × Node) →
    Option (Decoding × Option Node)
  | d, [] => some (d, none)
  | d, (key, value) :: more =>
    if isMergeKey key then do
      let (d, merged) ← decodeEntries taken d more
      return (d, merged <|> some value)
    else do
      let (name, faults) ← decodeString d.faults key
      let d := { d with faults }
      match name with
      | none => decodeEntries taken d more
      | some name =>
        if taken.contains name then decodeEntries taken d more
        else do
          let d ← decodeSetting d name key.line value
          decodeEntries taken d more

/-- The keys that a mapping spells out. -/
def ownKeys (entries : List (Node × Node)) : List String :=
  entries.filterMap fun (key, _) =>
    match key with
    | .scalar _ _ _ text => some text
    | _ => none

/-- The entries of a mapping, which may be mentioned by its anchor. -/
def entriesOf? : Node → Option (List (Node × Node))
  | .mapping _ _ entries => some entries
  | .mention _ _ (.mapping _ _ entries) => some entries
  | _ => none

/-- The mappings that a node to be merged stands for: itself, or each item of a sequence. -/
def mergeSources? : Node → Option (List (List (Node × Node)))
  | .sequence _ _ items => items.mapM entriesOf?
  | node => (entriesOf? node).map fun entries => [entries]

/-- Reads the settings of a mapping and then those of the mappings merged into it, as far as they are
not spelled out before. -/
def decodeMapping : Nat → List String → Decoding → List (Node × Node) → Option Decoding
  | 0, _, _, _ => none
  | n + 1, taken, d, entries =>
    let doubles := duplicateFaults entries
    if !doubles.isEmpty then some { d with faults := d.faults ++ doubles }
    else do
      let (d, merged) ← decodeEntries taken d entries
      let sources ← match merged with
        | none => some []
        | some node => mergeSources? node
      let (d, _) ← sources.foldlM (fun (d, taken) source => do
        return (← decodeMapping n taken d source, taken ++ ownKeys source))
        (d, taken ++ ownKeys entries)
      return d

/-- How deep merged mappings may be nested. -/
def mergeDepth : Nat := 100

/-- Reads the settings of a document. -/
def decodeRoot (d : Decoding) : Node → Option Decoding
  | .mention _ _ target => decodeRoot d target
  | .scalar line tag quoted text => do
    match ← resolve tag quoted text with
    | .null => some d
    | meaning => some (d.fault line (mismatchText (scalarTag tag quoted text meaning) text "lox.Config"))
  | .sequence line tag _ =>
    some (d.fault line (mismatchText (tag.getD "!!seq") "" "lox.Config"))
  | .mapping _ _ entries => decodeMapping mergeDepth [] d entries

/-- Reads settings from the text of a document. -/
def decodeText (config : Config) (text : List Char) : Except DecodeFault Config :=
  let unreadable := DecodeFault.malformed "yaml: the document cannot be read"
  match document? text with
  | none => .error unreadable
  | some none => .ok config
  | some (some node) =>
    match decodeRoot ⟨config, []⟩ node with
    | none => .error unreadable
    | some d =>
      if d.faults.isEmpty then .ok d.config
      else
        .error (.mismatched ("yaml: unmarshal errors:" ++ String.join (d.faults.map ("\n  " ++ ·))))

/-- Reads settings from what is in a file, which has to be UTF-8. -/
def decoder : Decoder := fun config content =>
  match content with
  | .error error => .error (.malformed ("yaml: input error: " ++ error.message))
  | .ok bytes =>
    if Utf8.isValid bytes then decodeText config (Utf8.decode bytes)
    else .error (.malformed "yaml: the document is no UTF-8")

end LoxLang.Yaml
