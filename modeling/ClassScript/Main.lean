import ClassScript.Cbor.Read
import ClassScript.Command.Run

/-!
# The program

The command with real files and streams.
-/

namespace ClassScript

/-- The reason why a file could not be used. -/
def FileFault.ofError : IO.Error → FileFault
  | .noFileOrDirectory .. => .missing
  | .inappropriateType _ code _ => if code = 20 then .notDirectory else .isDirectory
  | .invalidArgument .. => .invalid
  | .permissionDenied .. => .other "permission denied"
  | e => .other (toString e)

/-- The files and streams of the operating system. -/
def disk : Host IO where
  workingDirectory := return (← IO.currentDir).toString
  home := return (← IO.getEnv "HOME").getD ""
  sessionName := do
    let bytes ← IO.getRandomBytes 16
    let digits := bytes.data.toList.flatMap fun b => Text.hexadecimal 2 b.toNat
    return "session_" ++ String.ofList digits
  now := return (← IO.monoMsNow).toFloat / 1000
  «exists» path := do ((← IO.currentDir) / path).pathExists
  read path := do
    try return .ok (← IO.FS.readBinFile path).data.toList
    catch e => return .error (.reading path (.ofError e))
  write path content := do
    try
      IO.FS.writeBinFile path ⟨content.toArray⟩
      return .ok ()
    catch e => return .error (.writing path (.ofError e))
  print text := do
    let output ← IO.getStdout
    output.putStr text
    output.flush
  complain := IO.eprint
  codec := .plain

/-- Takes lines at the prompt until one of them stops it or the input ends. -/
partial def Command.prompt (input : IO.FS.Stream) (repl : Repl) : List Text.Line → IO Nat
  | line :: rest => do
    let (next, repl) ← takeLine disk repl line.text
    match next with
    | .line =>
      unless rest.isEmpty do disk.print repl.prompt
      prompt input repl rest
    | .quit => finish disk repl
    | .breakdown => return breakdownCode
  | [] => do
    disk.print repl.prompt
    match Text.lines (bytesOf (← input.getLine)) with
    | [] =>
      disk.print "\n"
      finish disk repl
    | lines => prompt input repl lines

end ClassScript

/-- Runs the command. -/
def main (arguments : List String) : IO UInt32 := do
  match ← ClassScript.Command.start ClassScript.disk arguments with
  | .exit code => return code.toUInt32
  | .interactive repl =>
    return (← ClassScript.Command.prompt (← IO.getStdin) repl []).toUInt32
