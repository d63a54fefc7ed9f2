import ClassScript.Files.Host
import ClassScript.Files.Path
import ClassScript.Text.Glyph
import ClassScript.Toml.Parse

/-!
# Manifests

The settings of a project, kept in a file of its directory. A command uses the manifest of the
nearest directory that has one, from the working directory upward.
-/

namespace ClassScript

/-- The settings of a project. -/
structure Manifest where
  /-- The name of the project. -/
  name : String := ""
  /-- The version of the project. -/
  version : String := ""
  /-- The path of the program to run. -/
  entry : String := ""
  /-- Whether types are checked, if that is said. -/
  typecheck : Option Bool := none
  /-- The amount of logging. -/
  verbosity : Int64 := 0
  /-- The path of the log. -/
  logFile : String := ""
  /-- The path of the interactive history. -/
  history : String := ""
  /-- The directory of the manifest. -/
  dir : String := ""

namespace Manifest

/-- The name of the file. -/
def fileName : String := "kestrel.toml"

/-- The history path of a manifest without one. -/
def defaultHistory : String := ".kestrel_history"

/-! ### Reading -/

/-- A character without its case, as far as the names of settings go. -/
def foldChar (c : Char) : Char :=
  if c = '\u017f' then 's' else if c = '\u212a' then 'k' else c.toLower

/-- Whether a key names a setting; case does not matter. -/
def names (key setting : String) : Bool := key.toList.map foldChar = setting.toList

/-- A setting of a section: how a value changes the manifest, or nothing if it cannot. -/
abbrev Setting := String × (Toml.Item → Manifest → Option Manifest)

/-- A setting that is a text. -/
def textSetting (name : String) (set : String → Manifest → Manifest) : Setting :=
  (name, fun item m =>
    match item with
    | .scalar (.text s) => some (set s m)
    | _ => none)

/-- The settings by section. -/
def sections : List (String × List Setting) :=
  [("project",
      [textSetting "name" fun name m => { m with name },
       textSetting "version" fun version m => { m with version }]),
   ("source", [textSetting "entry" fun entry m => { m with entry }]),
   ("check",
      [("typecheck", fun item m =>
        match item with
        | .scalar (.flag b) => some { m with typecheck := some b }
        | _ => none)]),
   ("log",
      [("verbosity", fun item m =>
        match item with
        | .scalar (.integer verbosity) => some { m with verbosity }
        | _ => none),
       textSetting "file" fun logFile m => { m with logFile }]),
   ("repl", [textSetting "history" fun history m => { m with history }])]

/-- The thing that a key names, the one of exactly that name first. -/
def named? {α : Type} (things : List (String × α)) (key : String) : Option α :=
  things.lookup key <|> (things.find? fun t => names key t.1).map Prod.snd

/-- Applies the values of a section. Keys that name nothing are passed over. -/
def readSection? (settings : List Setting) (entries : Toml.Entries) (m : Manifest) :
    Option Manifest :=
  entries.foldlM (fun m (key, item) =>
    match named? settings key with
    | some set => set item m
    | none => some m) m

/-- The manifest of a document, without its directory. -/
def ofEntries? (entries : Toml.Entries) : Option Manifest :=
  entries.foldlM (fun m (key, item) =>
    match named? sections key, item with
    | none, _ => some m
    | some settings, .table entries => readSection? settings entries m
    | some _, _ => none) ({} : Manifest)

/-- The manifest of a document in a directory, with defaults for what it does not say. -/
def parse? (dir document : String) : Option Manifest := do
  let m ← ofEntries? (← Toml.parse? document)
  return { m with
    dir
    typecheck := some (m.typecheck.getD true)
    history := if m.history.isEmpty then defaultHistory else m.history }

/-! ### Finding -/

/-- Why a manifest could not be used. -/
inductive Error where
  /-- The file could not be read. -/
  | read (path : String) (error : FileError)
  /-- The file is not a manifest. -/
  | parse (path : String)

/-- The failure in words. -/
def Error.text : Error → String
  | read path error => "cannot read " ++ path ++ ": " ++ error.text
  | parse path => "parse error in " ++ path ++ ": not a manifest"

/-- Reads the manifest of a directory. -/
def load {m : Type → Type} [Monad m] (host : Host m) (dir : String) :
    m (Except Error Manifest) := do
  let path := Path.join dir fileName
  match ← host.read path with
  | .error error => return .error (.read path error)
  | .ok bytes =>
    let here := Path.resolve (← host.workingDirectory) dir
    match (Glyph.wholeText? (Glyph.decode bytes)).bind (parse? (Path.clean here)) with
    | some manifest => return .ok manifest
    | none => return .error (.parse path)

/-- Reads the manifest of the first of several directories that has one. -/
def findIn {m : Type → Type} [Monad m] (host : Host m) :
    List String → m (Except Error (Option Manifest))
  | [] => return .ok none
  | dir :: rest => do
    if ← host.exists (Path.join dir fileName) then return (← load host dir).map some
    else findIn host rest

/-- Reads the manifest of the nearest directory that has one, from a directory upward. -/
def find {m : Type → Type} [Monad m] (host : Host m) (dir : String) :
    m (Except Error (Option Manifest)) := do
  findIn host (Path.ancestors (Path.resolve (← host.workingDirectory) dir))

/-! ### Using -/

/-- Whether types are checked; that is the default. -/
def checksTypes (m : Option Manifest) : Bool := (m.bind (·.typecheck)).getD true

/-- The path of the program to run, if there is one. -/
def entryPath? (m : Option Manifest) : Option String :=
  (m.filter (!·.entry.isEmpty)).map fun m => Path.resolve m.dir m.entry

/-- The path of the log, if there is one. -/
def logPath? (m : Option Manifest) : Option String :=
  (m.filter (!·.logFile.isEmpty)).map fun m => Path.resolve m.dir m.logFile

/-- The path of the interactive history. -/
def historyPath (m : Manifest) : String := Path.resolve m.dir m.history

end Manifest

end ClassScript
