import LoxLang.Command.Outcome
import LoxLang.Files.Host
import LoxLang.Tree.Printed

set_option autoImplicit false

/-! # Listing expressions

`ast_printer` reads a source text from its arguments or, without any, from its input, and lists the
expressions of its statements in prefix form, one per line. -/

namespace LoxLang.Command

/-- Lists the expressions of a source text; with faults in it, only those are told. Trees that are
read from a text have no defects, so every expression has a prefix form. -/
def listing (source : List Char) : Outcome :=
  let reading := Reading.ofSource source
  if reading.diagnostics.isEmpty then
    let shown := (reading.statements.filterMap Stmt.shownExpr?).filterMap (·.printed.toOption)
    ⟨⟨String.join (shown.map (· ++ "\n")), ""⟩, 0⟩
  else ⟨⟨"", Diagnostic.render reading.diagnostics⟩, 65⟩

/-- Lists the expressions in the arguments or, without any, in the input. -/
def runListing {m : Type → Type} [Monad m] (host : Host m) (args : List String) : m Outcome := do
  match args with
  | [] => return listing (Utf8.decode (← host.readInput))
  | _ => return listing (" ".intercalate args).toList

end LoxLang.Command
