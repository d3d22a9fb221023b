/-!
# Paths of files

A path is a text whose parts stand between slashes. Empty parts and `.` name nothing, except that
a relative path may begin with `.`; so `a//b/.` and `a/b` are the same path. The functions here
work on the text alone and do not look at any file.
-/

namespace AppManifest.Host

/-- The texts between the slashes of a path. -/
def parts (path : String) : List String := path.splitOn "/"

/-- Whether a path begins at the root. -/
def isAbsolute (path : String) : Bool := path.startsWith "/"

/-- Whether a part of a path names nothing. -/
def isVoid (part : String) : Bool := part = "" || part = "."

/-- The parts that tell a path from others: two texts are the same path if these are equal. -/
def components (path : String) : List String :=
  match parts path with
  | [] => []
  | first :: rest =>
    let rest := rest.filter fun part ↦ !isVoid part
    if isAbsolute path then "/" :: rest else if first = "" then rest else first :: rest

/-- The last name on a path; none if the path is a root or goes up at its end. -/
def fileName? (path : String) : Option String :=
  match ((parts path).filter fun part ↦ !isVoid part).getLast? with
  | some name => if name = ".." then none else some name
  | none => none

/-- The part of a file name behind its last dot, unless nothing stands before the dot. -/
def extension? (fileName : String) : Option String :=
  let backwards := fileName.toList.reverse
  match backwards.dropWhile (· ≠ '.') with
  | _ :: _ :: _ => some (String.ofList (backwards.takeWhile (· ≠ '.')).reverse)
  | _ => none

/-- Drop parts at the end that name nothing. The input and the output are in reverse; the first
part of the path stays. -/
def dropVoid : List String → List String
  | [] => []
  | [first] => [first]
  | last :: before => if isVoid last then dropVoid before else last :: before

/-- The path without its last component, if it has one. -/
def parent? (path : String) : Option String :=
  match dropVoid (parts path).reverse with
  | [] => none
  | [first] => if first = "" then none else some ""
  | _ :: before =>
    match dropVoid before with
    | [""] => some "/"
    | kept => some ("/".intercalate kept.reverse)

/-- The path of a name in a directory. -/
def join (directory name : String) : String :=
  if directory = "" || directory.endsWith "/" then directory ++ name
  else directory ++ "/" ++ name

end AppManifest.Host
