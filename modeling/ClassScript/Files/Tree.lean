import ClassScript.Cbor.Read
import ClassScript.Files.Host
import ClassScript.Files.Path

/-!
# Files in memory

A tree of files as a value, and the surroundings of a command that consist of such a tree and of
what was written to the standard streams.
-/

namespace ClassScript

/-- A file or directory. -/
inductive FileTree.Entry where
  /-- A file with its contents. -/
  | file (content : List UInt8)
  /-- A directory. -/
  | directory

/-- Files and directories by their simplified absolute paths. -/
structure FileTree where
  /-- The files and directories; of two with one path the first one counts. -/
  entries : List (String × FileTree.Entry) := []

namespace FileTree

/-- What is at a simplified absolute path. -/
def get? (t : FileTree) (path : String) : Option Entry :=
  if path = "/" then some .directory else t.entries.lookup path

/-- Adds the directory of a simplified absolute path and all directories around it. -/
def addDirectory (t : FileTree) (path : String) : FileTree :=
  { t with entries := t.entries ++ (Path.ancestors path).map (·, .directory) }

/-- Adds a file and the directories around it. -/
def addFile (t : FileTree) (path : String) (content : List UInt8) : FileTree :=
  { entries := (path, .file content) ::
      ((t.addDirectory path).entries.filter fun e => e.1 != path) }

/-- The greatest number of bytes of a name. -/
def nameLimit : Nat := 255

/-- The number of bytes at which a path is too long. -/
def pathLimit : Nat := 4096

/-- What is at the end of simplified names, the last one first. -/
def entry (t : FileTree) (stack : List String) : Except FileFault Entry :=
  if stack.head?.any (nameLimit < ·.utf8ByteSize) then .error .nameTooLong
  else
    match t.get? (Path.ofStack true stack) with
    | some entry => .ok entry
    | none => .error .missing

/-- Follows names from a directory; every place on the way has to be a directory. -/
def walk (t : FileTree) : List String → List String → Except FileFault (List String)
  | stack, [] => .ok stack
  | stack, name :: rest => do
    match ← t.entry stack with
    | .directory => t.walk (Path.push true stack name) rest
    | .file _ => throw .notDirectory

/-- Whether a path can be used at all. -/
def checkPath (path : String) : Except FileFault Unit :=
  if path.contains '\x00' then .error .invalid
  else if path.isEmpty then .error .missing
  else if pathLimit ≤ path.utf8ByteSize then .error .nameTooLong
  else .ok ()

/-- The simplified names that a path starts with, the last one first. -/
def origin (dir path : String) : List String :=
  (Path.names (if Path.isAbsolute path then "/" else dir)).foldl (Path.push true) []

/-- What a path leads to from a directory. -/
def locate (t : FileTree) (dir path : String) : Except FileFault Entry := do
  checkPath path
  t.entry (← t.walk (origin dir path) (Path.names path))

/-- The contents of the file at a path. -/
def read (t : FileTree) (dir path : String) : Except FileFault (List UInt8) := do
  match ← t.locate dir path with
  | .file content => return content
  | .directory => throw .isDirectory

/-- Gives the file at a path new contents. A path with a slash at its end can only be the path of a
directory. -/
def write (t : FileTree) (dir path : String) (content : List UInt8) :
    Except FileFault FileTree := do
  checkPath path
  let stack ← t.walk (origin dir path) (Path.namesBeforeSlash path)
  if path.endsWith "/" then throw .isDirectory
  match t.entry stack with
  | .ok .directory => throw .isDirectory
  | .ok (.file _) | .error .missing =>
    return { entries := (Path.ofStack true stack, .file content) :: t.entries }
  | .error fault => throw fault

end FileTree

/-- The surroundings of a command in memory. -/
structure Surroundings where
  /-- The files. -/
  files : FileTree := {}
  /-- The directory that relative paths start at. -/
  workingDirectory : String := "/"
  /-- The directory of the user. -/
  home : String := "/"
  /-- What was written to the standard output. -/
  output : String := ""
  /-- What was written to the standard error output. -/
  errors : String := ""

/-- Surroundings in memory as the surroundings of a command. -/
def Surroundings.host : Host (StateM Surroundings) where
  workingDirectory := return (← get).workingDirectory
  home := return (← get).home
  sessionName := return ""
  now := return 0
  «exists» path := do
    let s ← get
    return (s.files.locate s.workingDirectory path).toBool
  read path := do
    let s ← get
    return (s.files.read s.workingDirectory path).mapError (FileError.reading path)
  write path content := do
    let s ← get
    match s.files.write s.workingDirectory path content with
    | .ok files =>
      set { s with files }
      return .ok ()
    | .error fault => return .error (.writing path fault)
  print text := modify fun s => { s with output := s.output ++ text }
  complain text := modify fun s => { s with errors := s.errors ++ text }
  codec := .plain

end ClassScript
