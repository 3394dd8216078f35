import LoxLang.Command.Outcome
import LoxLang.Files.Host
import LoxLang.Files.Path
import LoxLang.Schema
import LoxLang.Schema.Clause

set_option autoImplicit false

/-! # Writing node declarations

`ast_codegen <output directory>` writes the declarations of the two families of nodes into a folder, in
a package that is named after it. -/

namespace LoxLang.Command

/-- Writes one family into a folder, given by its absolute path. The message tells why it could not. -/
def writeFamily {m : Type → Type} [Monad m] (host : Host m) (folder : String)
    (family : Schema.Family) : m (Except String Unit) := do
  match Schema.packageOf (Path.base folder) with
  | .error message => return .error ("format " ++ family.name ++ ": " ++ message)
  | .ok package =>
    let content := Utf8.encode (family.source package)
    match ← host.writeFile (Path.join folder family.fileName) content with
    | some error => return .error error.message
    | none => return .ok ()

/-- Writes families one after the other, up to the first that cannot be written. -/
def writeFamilies {m : Type → Type} [Monad m] (host : Host m) (folder : String) :
    List Schema.Family → m Outcome
  | [] => return ⟨.empty, 0⟩
  | family :: more => do
    match ← writeFamily host folder family with
    | .error message => return complain message 1
    | .ok () => writeFamilies host folder more

/-- Writes all families into the folder named by the only argument. -/
def runNodes {m : Type → Type} [Monad m] (host : Host m) (around : Surroundings)
    (args : List String) : m Outcome := do
  match args with
  | [path] => writeFamilies host (Path.absolute around.folder path) Schema.families
  | _ => return ⟨⟨"Usage: ast_codegen <output directory>\n", ""⟩, 64⟩

end LoxLang.Command
