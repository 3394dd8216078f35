set_option autoImplicit false

/-! # Reading and writing files

The commands touch the world only through a `Host`: something that can read and write whole files, and
says why it could not, and that has an input of its own. `Files/Tree.lean` has a host that works on a
tree of folders held in memory. -/

namespace LoxLang

/-- Why a file could not be used. -/
inductive FileReason where
  | notFound
  | isDirectory
  | notDirectory
  /-- Any other reason, in words. -/
  | other (text : String)
  deriving DecidableEq, Repr

/-- A reason in words. -/
def FileReason.text : FileReason → String
  | .notFound => "no such file or directory"
  | .isDirectory => "is a directory"
  | .notDirectory => "not a directory"
  | .other text => text

/-- A failed attempt to use a file. -/
structure FileError where
  /-- Whether the file could be opened, and failed to be read. -/
  opened : Bool
  path : String
  reason : FileReason
  deriving DecidableEq, Repr

/-- The text of a failed attempt. -/
def FileError.message (e : FileError) : String :=
  (if e.opened then "read " else "open ") ++ e.path ++ ": " ++ e.reason.text

/-- Access to files and to what is entered. -/
structure Host (m : Type → Type) where
  /-- All that is entered until the input ends. -/
  readInput : m (List UInt8)
  readFile : String → m (Except FileError (List UInt8))
  writeFile : String → List UInt8 → m (Option FileError)

end LoxLang
