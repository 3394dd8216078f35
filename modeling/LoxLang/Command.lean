import LoxLang.Command.Listing
import LoxLang.Command.Lox
import LoxLang.Command.Nodes
import LoxLang.Command.PlainEditor
import LoxLang.Files.Tree
import LoxLang.Yaml.Settings

set_option autoImplicit false

/-! # The commands

Three tools share this library: the interpreter, the lister of expressions and the writer of node
declarations. `run` runs one of them on any host, `runIn` on a tree of folders in memory. The
interpreter reads its configuration as YAML and its lines with the plain editor. -/

namespace LoxLang.Command

/-- The tools. -/
inductive Tool where
  | interpreter
  | lister
  | nodeWriter
  deriving DecidableEq, Repr

/-- The name that a tool is called by. -/
def Tool.name : Tool → String
  | interpreter => "tlox"
  | lister => "ast_printer"
  | nodeWriter => "ast_codegen"

/-- The tool of a name. -/
def Tool.ofName? (name : String) : Option Tool :=
  [Tool.interpreter, .lister, .nodeWriter].find? (·.name == name)

/-- Runs a tool. `none` if the run of a program that it interprets is exhausted. -/
def run {m : Type → Type} [Monad m] (tool : Tool) (host : Host m) (around : Surroundings)
    (args : List String) : m (Option Outcome) :=
  match tool with
  | .interpreter => runLox Yaml.decoder plainEditor host around args
  | .lister => some <$> runListing host args
  | .nodeWriter => some <$> runNodes host around args

/-- Runs a tool on a tree of folders and gives the tree behind it. -/
def runIn (tree : FileTree) (input : List UInt8) (tool : Tool) (around : Surroundings)
    (args : List String) : Option Outcome × FileTree :=
  (run tool (FileTree.host input) around args).run tree

end LoxLang.Command
