import LoxLang.Command.Outcome
import LoxLang.Config

set_option autoImplicit false

/-! # Lines at a prompt

Without a script the interpreter asks for one line after the other and runs each in the same session.
Empty lines are passed over. The lines come from a line editor, which shows the prompt, hands over what
is entered, and remembers lines so that they can be called up again. -/

namespace LoxLang.Command

/-! ## Line editors -/

/-- What an editor answers when it is asked for a line. -/
inductive Reply where
  | line (bytes : List UInt8)
  /-- There are no more lines. -/
  | ended
  /-- It cannot ask for one, for a reason in words. -/
  | failed (message : String)

/-- A line editor, with the states it can be in. -/
structure Editor (σ : Type) where
  /-- The editor for an input. -/
  start : List UInt8 → σ
  /-- Takes over the lines that a file has kept. -/
  restore : List UInt8 → σ → σ
  /-- Asks for a line behind a prompt: what is shown, and what is answered. -/
  ask : String → σ → (String × Reply) × σ
  /-- Remembers a line. -/
  remember : List UInt8 → σ → σ
  /-- What a file is to keep of the lines that are remembered. -/
  kept : σ → List UInt8

/-! ## The loop -/

/-- Runs one line in a session. Whatever it reports is forgotten before the next one. -/
def enter (bound : Nat) (session : Session) (line : List UInt8) : Option (Transcript × Session) :=
  if line.isEmpty then some (.empty, session)
  else do
    let (transcript, session) ← interpret bound session (Utf8.decode line)
    return (transcript, session.reset)

/-- What lives through the lines. -/
structure Repl (σ : Type) where
  session : Session
  editor : σ

namespace Repl

variable {σ : Type} (editor : Editor σ)

/-- The editor behind a line, which it remembers unless it is empty. -/
def noted (line : List UInt8) (state : σ) : σ :=
  if line.isEmpty then state else editor.remember line state

/-- Asks for lines until there are no more, `turns` times at most. At the end of the input the line
with the prompt is completed. -/
def loop (bound : Nat) (prompt : String) : Nat → Repl σ → Option (Transcript × Repl σ)
  | 0, _ => none
  | turns + 1, ⟨session, state⟩ =>
    match editor.ask prompt state with
    | ((shown, .ended), state) => some (⟨shown ++ "\n", ""⟩, ⟨session, state⟩)
    | ((shown, .failed message), state) => some (⟨shown, message ++ "\n"⟩, ⟨session, state⟩)
    | ((shown, .line line), state) => do
      let (answer, session) ← enter bound session line
      let (rest, last) ← loop bound prompt turns ⟨session, noted editor line state⟩
      return (⟨shown, ""⟩ ++ answer ++ rest, last)

/-- Runs the lines of an input in a new session. What was kept of earlier lines, if anything, is called
up before, and what is to be kept is given back. -/
def run (bound : Nat) (readings : Session.Readings) (config : Config) (kept : Option (List UInt8))
    (input : List UInt8) : Option (Outcome × List UInt8) := do
  let state := editor.start input
  let state := match kept with
    | some bytes => editor.restore bytes state
    | none => state
  let session := Session.start config.maxCallDepth true readings
  let (transcript, last) ← loop editor bound config.prompt bound ⟨session, state⟩
  return (⟨transcript, 0⟩, editor.kept last.editor)

end Repl

end LoxLang.Command
