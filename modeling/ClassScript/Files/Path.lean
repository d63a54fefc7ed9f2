/-!
# Paths

Paths as texts with slashes between the names. A path can be simplified without looking at the
files: empty names and single dots go, and two dots take the name before them away.
-/

namespace ClassScript.Path

/-- Whether a path starts at the root. -/
def isAbsolute (path : String) : Bool := path.startsWith "/"

/-- The names in a path, with the empty ones. -/
def names (path : String) : List String := path.splitOn "/"

/-- The names in a path, without the empty ones at its end. -/
def namesBeforeSlash (path : String) : List String :=
  ((names path).reverse.dropWhile (·.isEmpty)).reverse

/-- Adds a name to the simplified names of a path, the last one first. Above the root there is
nothing. -/
def push (absolute : Bool) (stack : List String) (name : String) : List String :=
  if name = "" ∨ name = "." then stack
  else if name = ".." then
    match stack with
    | [] => if absolute then [] else [name]
    | top :: below => if top = ".." then name :: stack else below
  else name :: stack

/-- The path of simplified names, the last one first. -/
def ofStack (absolute : Bool) (stack : List String) : String :=
  let joined := String.intercalate "/" stack.reverse
  if absolute then "/" ++ joined else if joined.isEmpty then "." else joined

/-- The simplest path that leads to the same place. -/
def clean (path : String) : String :=
  ofStack (isAbsolute path) ((names path).foldl (push (isAbsolute path)) [])

/-- A path below a directory, simplified. -/
def join (dir path : String) : String :=
  if dir.isEmpty then if path.isEmpty then "" else clean path
  else if path.isEmpty then clean dir
  else clean (dir ++ "/" ++ path)

/-- A path as it is seen from a directory. -/
def resolve (dir path : String) : String := if isAbsolute path then path else join dir path

/-- The directory of a simplified absolute path and all directories around it, the innermost
first. -/
def ancestors (path : String) : List String :=
  let rec above : List String → List String
    | [] => [ofStack true []]
    | name :: below => ofStack true (name :: below) :: above below
  above ((names path).foldl (push true) [])

end ClassScript.Path
