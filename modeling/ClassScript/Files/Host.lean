import ClassScript.Cbor.Codec

/-!
# Files and terminals

What a command needs of its surroundings, in any monad: files, the standard streams, a few names
and a codec. The errors of files are told in the words of the operating system.
-/

namespace ClassScript

/-- Why a file could not be used. -/
inductive FileFault where
  /-- There is no such file. -/
  | missing
  /-- A directory is in the place of the file. -/
  | isDirectory
  /-- A file is in the place of a directory. -/
  | notDirectory
  /-- A name or the whole path is too long. -/
  | nameTooLong
  /-- No path looks like this. -/
  | invalid
  /-- Any other reason, in words. -/
  | other (reason : String)
deriving DecidableEq

/-- A reason in words. -/
def FileFault.message : FileFault → String
  | missing => "no such file or directory"
  | isDirectory => "is a directory"
  | notDirectory => "not a directory"
  | nameTooLong => "file name too long"
  | invalid => "invalid argument"
  | other reason => reason

/-- A step on a file that failed. -/
structure FileError where
  /-- The step. -/
  step : String
  /-- The path of the file, as it was given. -/
  path : String
  /-- The reason. -/
  fault : FileFault

/-- The failure in words. -/
def FileError.text (e : FileError) : String := e.step ++ " " ++ e.path ++ ": " ++ e.fault.message

/-- The failure of reading a file; a directory can be opened, but not read. -/
def FileError.reading (path : String) (fault : FileFault) : FileError :=
  { step := if fault = .isDirectory then "read" else "open", path, fault }

/-- The failure of writing a file. -/
def FileError.writing (path : String) (fault : FileFault) : FileError :=
  { step := "open", path, fault }

/-- What a command needs of its surroundings. -/
structure Host (m : Type → Type) where
  /-- The directory that relative paths start at. -/
  workingDirectory : m String
  /-- The directory of the user. -/
  home : m String
  /-- A name for a new session. -/
  sessionName : m String
  /-- The time, in seconds. -/
  now : m Float
  /-- Whether there is a file or directory. -/
  «exists» : String → m Bool
  /-- The contents of a file. -/
  read : String → m (Except FileError (List UInt8))
  /-- Gives a file new contents. -/
  write : String → List UInt8 → m (Except FileError Unit)
  /-- Writes to the standard output. -/
  print : String → m Unit
  /-- Writes to the standard error output. -/
  complain : String → m Unit
  /-- The codec of reports. -/
  codec : Cbor.Codec

/-- The bytes of a text. -/
def bytesOf (s : String) : List UInt8 := s.toUTF8.data.toList

end ClassScript
