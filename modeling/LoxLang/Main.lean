import LoxLang.Command

set_option autoImplicit false

/-! # The program

Runs one of the tools on the disk. The name that the program is called by chooses the tool; any name
that is not one of theirs stands for the interpreter. -/

namespace LoxLang.Command

/-- Why an attempt failed. For a path of the wrong type, the words tell
which type it has. -/
def reasonOf : IO.Error → FileReason
  | .noFileOrDirectory .. => .notFound
  | .inappropriateType _ _ details =>
    if details.toLower == FileReason.isDirectory.text then .isDirectory else .notDirectory
  | .permissionDenied .. => .other "permission denied"
  | error => .other (toString error)

/-- Reads a whole file. A folder can be opened, but not read. -/
def readFromDisk (path : String) : IO (Except FileError (List UInt8)) := do
  try
    return .ok (← IO.FS.readBinFile path).toList
  catch error =>
    let reason := reasonOf error
    return .error ⟨reason == .isDirectory, path, reason⟩

/-- Writes a whole file. -/
def writeToDisk (path : String) (content : List UInt8) : IO (Option FileError) := do
  try
    IO.FS.writeBinFile path ⟨content.toArray⟩
    return none
  catch error =>
    return some ⟨false, path, reasonOf error⟩

/-- Access to the disk. The input is read when it is asked for, and kept in case it is asked for
again. -/
def diskHost (entered : IO.Ref (Option (List UInt8))) : Host IO where
  readInput := do
    match ← entered.get with
    | some bytes => return bytes
    | none =>
      let bytes := (← (← IO.getStdin).readBinToEnd).toList
      entered.set (some bytes)
      return bytes
  readFile := readFromDisk
  writeFile := writeToDisk

/-- Far more nested calls, loop turns and readings than a run can get through. -/
def diskBound : Nat := Nat.pow 2 62

/-- What the clock reads. -/
def readClock : IO Float :=
  return (← IO.monoMsNow).toFloat / 1000.0

/-- Runs a tool with the clock readings that have been taken. A run that is exhausted has asked for one
more: the clock is read, and the run is repeated with that reading. What a run does is given by its
readings, so it gets to the place where it has asked, and leaves no trace before it has come to its
end. -/
def runTimed (tool : Tool) (host : Host IO) (around : Session.Readings → Surroundings)
    (args : List String) : Nat → Array Float → IO (Option Outcome)
  | 0, _ => return none
  | tries + 1, taken => do
    match ← run tool host (around (taken[·]?)) args with
    | some outcome => return some outcome
    | none => runTimed tool host around args tries (taken.push (← readClock))

end LoxLang.Command

open LoxLang.Command in
/-- Runs the tool and gives its status. -/
def main (args : List String) : IO UInt32 := do
  let name := LoxLang.Path.base (toString (← IO.appPath))
  let tool := (Tool.ofName? name).getD .interpreter
  let home := (← IO.getEnv "HOME").filter (· != "")
  let folder := toString (← IO.currentDir)
  let around (readings : LoxLang.Session.Readings) : Surroundings :=
    { home, folder, readings, bound := diskBound }
  let host := diskHost (← IO.mkRef none)
  match ← runTimed tool host around args diskBound #[] with
  | none => return 1
  | some outcome =>
    IO.print outcome.transcript.out
    IO.eprint outcome.transcript.err
    return outcome.status.toUInt32
