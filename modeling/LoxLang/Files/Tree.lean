import LoxLang.Files.Host
import LoxLang.Files.Path

set_option autoImplicit false

/-! # A tree of folders in memory

Files and folders below one folder, the working folder. Paths are followed part by part, as on a disk:
every part but the last has to be a folder that exists. Places outside the working folder cannot be
seen: nothing is found there, and what is written there is lost. -/

namespace LoxLang

/-- The files and folders below the working folder, by the parts of their paths. A folder with
something in it need not be listed. -/
structure FileTree where
  /-- The absolute path of the working folder. -/
  root : String
  files : List (List String × List UInt8)
  folders : List (List String)

namespace FileTree

/-- What a path leads to. -/
inductive Place where
  | file (parts : List String) (content : List UInt8)
  | folder (parts : List String)
  /-- Nothing, in a folder that exists. -/
  | free (parts : List String)
  /-- A part before the last is missing, or is no folder. -/
  | blocked (reason : FileReason)
  | outside
  deriving DecidableEq, Repr

/-- Whether there is a folder at these parts. -/
def isFolder (tree : FileTree) (parts : List String) : Bool :=
  parts.isEmpty || tree.folders.any (parts.isPrefixOf ·) ||
    tree.files.any fun (other, _) => parts.isPrefixOf other && parts != other

/-- What stands at these parts. -/
def placeAt (tree : FileTree) (parts : List String) : Place :=
  match tree.files.lookup parts with
  | some content => .file parts content
  | none => if tree.isFolder parts then .folder parts else .free parts

/-- Goes on from a place by one part of a path; an empty part stands behind a trailing slash. -/
def step (tree : FileTree) (place : Place) (part : String) : Place :=
  match place with
  | .folder parts =>
    if part == "." || part == "" then place
    else if part == ".." then
      match parts with
      | [] => .outside
      | _ => .folder parts.dropLast
    else tree.placeAt (parts ++ [part])
  | .file .. => .blocked .notDirectory
  | .free _ => .blocked .notFound
  | .blocked reason => .blocked reason
  | .outside => .outside

/-- The place that a path names. An absolute path has to start with that of the working folder. -/
def find (tree : FileTree) (path : String) : Place :=
  if path == "" then .blocked .notFound
  else if Path.isAbsolute path then
    let start := tree.root.splitOn "/"
    let steps := path.splitOn "/"
    if start.isPrefixOf steps then (steps.drop start.length).foldl tree.step (.folder [])
    else .outside
  else (path.splitOn "/").foldl tree.step (.folder [])

/-- Reads a file. -/
def read (tree : FileTree) (path : String) : Except FileError (List UInt8) :=
  match tree.find path with
  | .file _ content => .ok content
  | .folder _ => .error ⟨true, path, .isDirectory⟩
  | .free _ | .outside => .error ⟨false, path, .notFound⟩
  | .blocked reason => .error ⟨false, path, reason⟩

/-- Lists with the content of one file replaced or added. -/
def put (parts : List String) (content : List UInt8) :
    List (List String × List UInt8) → List (List String × List UInt8)
  | [] => [(parts, content)]
  | (other, old) :: more =>
    if other == parts then (parts, content) :: more else (other, old) :: put parts content more

/-- Writes a file. -/
def write (tree : FileTree) (path : String) (content : List UInt8) :
    Option FileError × FileTree :=
  match tree.find path with
  | .file parts _ | .free parts => (none, { tree with files := put parts content tree.files })
  | .folder _ => (some ⟨false, path, .isDirectory⟩, tree)
  | .blocked reason => (some ⟨false, path, reason⟩, tree)
  | .outside => (none, tree)

/-- Access to the files of a tree, with a given input. -/
def host (input : List UInt8) : Host (StateM FileTree) where
  readInput := return input
  readFile path := return (← get).read path
  writeFile path content := modifyGet fun tree => tree.write path content

/-- The files of a tree that another tree does not have, or has with another content. -/
def changes (before after : FileTree) : List (List String × List UInt8) :=
  after.files.filter fun (parts, content) => before.files.lookup parts != some content

end FileTree

end LoxLang
