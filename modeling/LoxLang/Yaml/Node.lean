set_option autoImplicit false

/-! # Documents

A YAML document is a tree of scalars, sequences and mappings. Every node knows the line it starts on
and the tag written before it. -/

namespace LoxLang.Yaml

/-- A node of a document. -/
inductive Node where
  /-- A scalar; `quoted` says that it was written in quotes or as a block, so that its text alone
  does not make it a number or a truth value. -/
  | scalar (line : Nat) (tag : Option String) (quoted : Bool) (text : String)
  | sequence (line : Nat) (tag : Option String) (items : List Node)
  | mapping (line : Nat) (tag : Option String) (entries : List (Node × Node))
  /-- Another node, mentioned by its anchor. -/
  | mention (line : Nat) (name : String) (target : Node)
  deriving Repr

namespace Node

/-- The line on which a node starts. -/
def line : Node → Nat
  | scalar line .. => line
  | sequence line .. => line
  | mapping line .. => line
  | mention line .. => line

/-- The scalar that stands where nothing is written. -/
def empty (line : Nat) : Node :=
  scalar line none false ""

/-- A node with the tag and from the line that are written before it. -/
def withTag (line : Nat) (tag : Option String) : Node → Node
  | scalar _ own quoted text => scalar line (tag <|> own) quoted text
  | sequence _ own items => sequence line (tag <|> own) items
  | mapping _ own entries => mapping line (tag <|> own) entries
  | mention own name target => mention own name target

end Node

end LoxLang.Yaml
