set_option autoImplicit false

/-! # Paths

Paths are texts whose parts are separated by slashes. `Path.clean` gives the shortest path that names
the same place when the parts are followed one by one; joining two paths cleans the result. -/

namespace LoxLang.Path

/-- Whether a path starts at the root. -/
def isAbsolute (path : String) : Bool :=
  path.toList.head? == some '/'

/-- The parts of a path that name something. -/
def parts (path : String) : List String :=
  (path.splitOn "/").filter (· != "")

/-- Follows one part, from parts that are kept in reverse. A step up undoes the last step down; at the
root it does nothing, and at the start of a relative path it has to stay. -/
def follow (absolute : Bool) (done : List String) (part : String) : List String :=
  if part == "." then done
  else if part == ".." then
    match done with
    | [] => if absolute then [] else [".."]
    | last :: before => if last == ".." then ".." :: done else before
  else part :: done

/-- The shortest path to the same place. -/
def clean (path : String) : String :=
  let absolute := isAbsolute path
  let done := ((parts path).foldl (follow absolute) []).reverse
  let text := "/".intercalate done
  if absolute then "/" ++ text
  else if done.isEmpty then "."
  else text

/-- The place that `path` names from `folder`. -/
def join (folder path : String) : String :=
  clean (folder ++ "/" ++ path)

/-- The absolute path of a place, seen from a folder. -/
def absolute (folder path : String) : String :=
  if isAbsolute path then clean path else join folder path

/-- The last part of an absolute path. -/
def base (path : String) : String :=
  (parts path).getLast?.getD "/"

end LoxLang.Path
