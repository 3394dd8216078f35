import LoxLang.Session
import LoxLang.Text.Utf8

set_option autoImplicit false

/-! # What a command leaves behind

A command writes to two channels and ends with a status. `interpret` runs one source text in a session
and gives what it writes. -/

namespace LoxLang.Command

/-- Text on the two channels. -/
structure Transcript where
  out : String
  err : String
  deriving DecidableEq, Repr

namespace Transcript

/-- Nothing is written. -/
def empty : Transcript := ⟨"", ""⟩

/-- What is written first and what is written then. -/
def append (a b : Transcript) : Transcript :=
  ⟨a.out ++ b.out, a.err ++ b.err⟩

instance : Append Transcript := ⟨append⟩

end Transcript

/-- How a command ended. -/
structure Outcome where
  transcript : Transcript
  status : Nat
  deriving DecidableEq, Repr

/-- The end of a command that only writes a line of complaint. -/
def complain (message : String) (status : Nat) : Outcome :=
  ⟨⟨"", message ++ "\n"⟩, status⟩

/-- What a command knows of its surroundings. -/
structure Surroundings where
  /-- The home folder, if there is one. -/
  home : Option String
  /-- The working folder. -/
  folder : String
  /-- What its clock reads. -/
  readings : Session.Readings
  /-- A bound on nested calls and loop turns. -/
  bound : Nat

/-- What a session has written and reported, as text on the two channels, and the session without
it. -/
def flush (session : Session) : Transcript × Session :=
  let (lines, session) := session.takeOutput
  let (reports, session) := session.takeReports
  (⟨renderLines lines, Diagnostic.render reports⟩, session)

/-- Reads a source text and, if nothing has been reported, runs it in the global scope. `none` if the
run is exhausted before its end. -/
def interpret (bound : Nat) (session : Session) (source : List Char) :
    Option (Transcript × Session) :=
  let reading := Reading.ofSource source
  let session := session.report reading.diagnostics
  if session.status.hadError then some (flush session)
  else
    match session.run bound Session.globals reading.statements with
    | (.finished _, after) => some (flush after)
    | _ => none

end LoxLang.Command
