import LoxLang.Command.Prompt
import LoxLang.Text.Control

set_option autoImplicit false

/-! # A plain editor

The editor that the command line uses. It takes the lines of a byte stream one after the other, and
its history leaves out a line equal to the one before it. -/

namespace LoxLang.Command

/-! ## Lines of a byte stream -/

/-- The greatest number of bytes that are taken as one line. -/
def maxLineBytes : Nat := 4096

/-- A line of a byte stream and the bytes behind it. -/
structure RawLine where
  bytes : List UInt8
  /-- Whether the line was cut because it is too long. -/
  isCut : Bool
  rest : List UInt8

/-- A list without its last element, if that is a carriage return. -/
def dropReturn (bytes : List UInt8) : List UInt8 :=
  if bytes.getLast? == some 0x0D then bytes.dropLast else bytes

/-- The next line of a byte stream without the line feed, or carriage return and line feed, at its end.
A line that is too long is cut, but not between a carriage return and what follows it. -/
def nextLine? (bytes : List UInt8) : Option RawLine :=
  match bytes with
  | [] => none
  | _ =>
    let chunk := bytes.take maxLineBytes
    let line := chunk.takeWhile (· != 0x0A)
    if line.length < chunk.length then
      some ⟨dropReturn line, false, bytes.drop (line.length + 1)⟩
    else if chunk.length < maxLineBytes then some ⟨chunk, false, []⟩
    else
      let piece := dropReturn chunk
      some ⟨piece, true, bytes.drop piece.length⟩

/-- The lines of a byte stream, `n` at most. -/
def linesUpTo : Nat → List UInt8 → List RawLine
  | 0, _ => []
  | n + 1, bytes =>
    match nextLine? bytes with
    | none => []
    | some line => line :: linesUpTo n line.rest

/-- The lines of a byte stream. Every line takes a byte at least. -/
def linesOf (bytes : List UInt8) : List RawLine :=
  linesUpTo bytes.length bytes

/-! ## History -/

/-- The lines entered so far, the oldest first. -/
abbrev History := List (List UInt8)

namespace History

/-- The greatest number of lines that are remembered. -/
def limit : Nat := 1000

/-- Forgets the oldest line if there are too many. -/
def trim (history : History) : History :=
  if limit < history.length then history.drop 1 else history

/-- Remembers a line, unless it is equal to the last one. -/
def add (history : History) (line : List UInt8) : History :=
  if history.getLast? == some line then history else trim (history ++ [line])

/-- The history that a file holds: its lines up to the first that is too long or no text. -/
def ofBytes (bytes : List UInt8) : History :=
  let lines := (linesOf bytes).takeWhile fun line => !line.isCut && Utf8.isValid line.bytes
  lines.foldl (fun history line => trim (history ++ [line.bytes])) []

/-- What is written to the file. -/
def toBytes (history : History) : List UInt8 :=
  history.flatMap (· ++ [0x0A])

end History

/-- Whether a prompt can be shown: no character of it may be a control. -/
def isShowable (prompt : String) : Bool :=
  !prompt.toList.any isControl

/-! ## The editor -/

/-- A byte stream, and the lines that are remembered. -/
structure PlainEditor where
  input : List UInt8
  history : History

/-- The editor that shows the prompt as it is and takes the next line of the stream. -/
def plainEditor : Editor PlainEditor where
  start input := ⟨input, []⟩
  restore bytes editor := { editor with history := History.ofBytes bytes }
  ask prompt editor :=
    if isShowable prompt then
      match nextLine? editor.input with
      | none => ((prompt, .ended), editor)
      | some line => ((prompt, .line line.bytes), { editor with input := line.rest })
    else (("", .failed "invalid prompt"), editor)
  remember line editor := { editor with history := editor.history.add line }
  kept editor := editor.history.toBytes

end LoxLang.Command
