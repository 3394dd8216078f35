set_option autoImplicit false

/-! # The shape of syntax trees as declarations

The nodes of a syntax tree form two families, expressions and statements. `Family.source` writes the
declarations of a family in Go: an interface that seals the family and, for every node type, a struct,
a function that builds it and the method that makes it a member. -/

namespace LoxLang.Schema

/-- A field of a node type. -/
structure Field where
  name : String
  type : String
  deriving DecidableEq, Repr

/-- A node type, named without its family. -/
structure NodeType where
  name : String
  fields : List Field
  deriving DecidableEq, Repr

/-- A family of node types. -/
structure Family where
  name : String
  types : List NodeType
  deriving DecidableEq, Repr

/-- The expressions. A call keeps its closing parenthesis, so that a failed call can be located. -/
def expressions : Family :=
  ⟨"Expr",
    [⟨"Assign", [⟨"Name", "*Token"⟩, ⟨"Value", "Expr"⟩]⟩,
      ⟨"Binary", [⟨"Left", "Expr"⟩, ⟨"Op", "*Token"⟩, ⟨"Right", "Expr"⟩]⟩,
      ⟨"Call", [⟨"Callee", "Expr"⟩, ⟨"Paren", "*Token"⟩, ⟨"Args", "[]Expr"⟩]⟩,
      ⟨"Grouping", [⟨"Expression", "Expr"⟩]⟩,
      ⟨"Literal", [⟨"Value", "interface\x7b\x7d"⟩]⟩,
      ⟨"Logical", [⟨"Left", "Expr"⟩, ⟨"Op", "*Token"⟩, ⟨"Right", "Expr"⟩]⟩,
      ⟨"Unary", [⟨"Op", "*Token"⟩, ⟨"Right", "Expr"⟩]⟩,
      ⟨"Variable", [⟨"Name", "*Token"⟩]⟩]⟩

/-- The statements. -/
def statements : Family :=
  ⟨"Stmt",
    [⟨"Block", [⟨"Statements", "[]Stmt"⟩]⟩,
      ⟨"Expression", [⟨"Expression", "Expr"⟩]⟩,
      ⟨"Function", [⟨"Name", "*Token"⟩, ⟨"Params", "[]*Token"⟩, ⟨"Body", "[]Stmt"⟩]⟩,
      ⟨"If", [⟨"Condition", "Expr"⟩, ⟨"ThenBranch", "Stmt"⟩, ⟨"ElseBranch", "Stmt"⟩]⟩,
      ⟨"Print", [⟨"Expression", "Expr"⟩]⟩,
      ⟨"Return", [⟨"Keyword", "*Token"⟩, ⟨"Value", "Expr"⟩]⟩,
      ⟨"Var", [⟨"Name", "*Token"⟩, ⟨"Initializer", "Expr"⟩]⟩,
      ⟨"While", [⟨"Condition", "Expr"⟩, ⟨"Body", "Stmt"⟩]⟩]⟩

/-- All families, in the order in which they are written. -/
def families : List Family := [expressions, statements]

/-- A name with a small first letter. -/
def smallFirst (name : String) : String :=
  match name.toList with
  | [] => ""
  | c :: rest => String.ofList (c.toLower :: rest)

/-- The name of a family in small letters. -/
def Family.smallName (family : Family) : String :=
  String.ofList (family.name.toList.map Char.toLower)

/-- The method that every member of a family has. -/
def Family.marker (family : Family) : String :=
  family.smallName ++ "Node"

/-- The file that holds a family. -/
def Family.fileName (family : Family) : String :=
  family.smallName ++ ".go"

/-- The struct of a node type. Types stand below each other, one blank behind the longest name. -/
def structSource (name : String) (fields : List Field) : String :=
  let width := (fields.map (·.name.length)).foldl max 0
  let line (f : Field) : String :=
    "\t" ++ f.name ++ String.ofList (List.replicate (width + 1 - f.name.length) ' ') ++ f.type ++ "\n"
  "type " ++ name ++ " struct \x7b\n" ++ String.join (fields.map line) ++ "\x7d\n"

/-- The function that builds a node. -/
def builderSource (name : String) (fields : List Field) : String :=
  let params := fields.map fun f => smallFirst f.name ++ " " ++ f.type
  let args := fields.map fun f => smallFirst f.name
  "func New" ++ name ++ "(" ++ ", ".intercalate params ++ ") *" ++ name ++ " \x7b\n\treturn &" ++
    name ++ "\x7b" ++ ", ".intercalate args ++ "\x7d\n\x7d\n"

/-- The declarations of a node type. -/
def Family.typeSource (family : Family) (type : NodeType) : String :=
  let name := type.name ++ family.name
  "\n" ++ structSource name type.fields ++ "\n" ++ builderSource name type.fields ++
    "\nfunc (*" ++ name ++ ") " ++ family.marker ++ "() \x7b\x7d\n"

/-- The declarations of a family, in a package. -/
def Family.source (family : Family) (package : String) : String :=
  "// Code generated by ast_codegen; DO NOT EDIT.\n\npackage " ++ package ++ "\n\n// " ++
    family.name ++ " is implemented by every " ++ family.smallName ++
    " node of the syntax tree.\ntype " ++ family.name ++ " interface \x7b\n\t" ++ family.marker ++
    "()\n\x7d\n" ++ String.join (family.types.map family.typeSource)

end LoxLang.Schema
