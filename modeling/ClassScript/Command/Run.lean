import ClassScript.Command.Flags
import ClassScript.Command.Repl
import ClassScript.Files.Tree
import ClassScript.Manifest
import ClassScript.Report

/-!
# The command

Runs or checks the program of a file, or goes on interactively. What the command line does not say
comes from the manifest of the project.
-/

namespace ClassScript.Command

/-- The version of the language. -/
def version : String := "0.1.0"

/-- The help on the command line. -/
def usage : String :=
  "Usage: kestrel [options] [file]\n\n" ++
  "Runs a Kestrel program, or starts the REPL when no file is given.\n\n" ++
  "Options:\n" ++
  "  -check\n    \tRun the static passes only\n" ++
  "  -i\tStart interactive REPL (after running the file, if any)\n" ++
  "  -lsp\n    \tStart the language server on stdio\n" ++
  "  -no-typecheck\n    \tSkip the type checker\n" ++
  "  -report string\n    \tWrite a CBOR diagnostics report to this path\n" ++
  "  -v int\n    \tLog verbosity\n" ++
  "\nExamples:\n" ++
  "  kestrel                    # Start REPL\n" ++
  "  kestrel main.ks            # Run a program\n" ++
  "  kestrel -check main.ks     # Parse, resolve and type check only\n" ++
  "  kestrel -i main.ks         # Run, then continue in the REPL\n" ++
  "  kestrel -lsp               # Language server for editors\n"

/-- The exit status of a command line with wrong flags. -/
def flagFaultCode (fault : FlagFault) : Nat := if fault = .help then 0 else 2

/-- How the command goes on. -/
inductive Start where
  /-- It ends with a status. -/
  | exit (code : Nat)
  /-- It takes lines. -/
  | interactive (repl : Repl)

variable {m : Type → Type} [Monad m]

/-- Writes a report to its file, if there is one to write. -/
def writeReport (host : Host m) (flags : Flags) (path : String) (s : Session) : m Nat := do
  if flags.report.isEmpty then return s.exit.code
  let report := s.toReport path (← host.sessionName)
  match report.encode host.codec with
  | .error reason =>
    host.complain ("Error: session: marshal report: " ++ reason ++ "\n")
    return Session.Exit.files.code
  | .ok bytes =>
    match ← host.write flags.report bytes with
    | .ok () => return s.exit.code
    | .error e =>
      host.complain ("Error: session: write report: " ++ e.text ++ "\n")
      return Session.Exit.files.code

/-- The exit status of a command that breaks down, for want of an answer. -/
def breakdownCode : Nat := 2

/-- Runs or checks a source, and says whether there is an outcome. -/
def process (flags : Flags) (source : String) (s : Session) : Bool × Session :=
  if flags.checkOnly then
    let (outcome, s) := s.check source
    (outcome.isDecided, s)
  else
    let (outcome, s) := s.run source
    (outcome.isDecided, s)

/-- Runs or checks the program of a file. Without an outcome there is no report. -/
def runFile (host : Host m) (flags : Flags) (path : String) (s : Session) : m (Nat × Session) := do
  match ← host.read path with
  | .error e =>
    host.complain ("Error: " ++ e.text ++ "\n")
    return (Session.Exit.files.code, s)
  | .ok bytes =>
    let source := Glyph.text (Glyph.decode bytes)
    let s := s.setClock (← host.now)
    let (decided, s) := process flags source s
    host.print s.output
    host.complain s.problems
    if !decided then return (breakdownCode, s)
    return (← writeReport host flags path s, s.clearOutput)

/-- The path of the interactive history. -/
def historyPath (host : Host m) : Option Manifest → m String
  | some manifest => return manifest.historyPath
  | none => return Path.join (← host.home) Manifest.defaultHistory

/-- Starts the interactive prompt, with the history of earlier times. -/
def startRepl (host : Host m) (manifest : Option Manifest) (session : Session) : m Start := do
  host.print (Repl.greeting version)
  let historyPath ← historyPath host manifest
  let history := match ← host.read historyPath with
    | .ok bytes => Repl.ofHistoryFile bytes
    | .error _ => []
  return .interactive { session := session.reset, history, historyPath }

/-- The amount of logging at which there is no log at all. -/
def silence : Int := -4

/-- The amount of logging; a flag comes before the manifest. -/
def verbosity (flags : Flags) (manifest : Option Manifest) : Int :=
  flags.verbosity.getD ((manifest.map (·.verbosity.toInt)).getD 0)

/-- Makes sure that there is a file for the log, if one is wanted. -/
def openLog (host : Host m) (flags : Flags) (manifest : Option Manifest) :
    m (Except FileError Unit) := do
  match Manifest.logPath? manifest with
  | none => return .ok ()
  | some path =>
    if verbosity flags manifest ≤ silence then return .ok ()
    match ← host.read path with
    | .ok _ => return .ok ()
    | .error _ => host.write path []

/-- The exit status of a command that cannot open its log. -/
def logFaultCode : Nat := 1

/-- Goes on with the flags and the path of a program, or nothing. -/
def proceed (host : Host m) (flags : Flags) (path : String) (manifest : Option Manifest) :
    m Start := do
  let session : Session :=
    { checksTypes := Manifest.checksTypes manifest && !flags.noTypecheck }
  let path := if path.isEmpty then (Manifest.entryPath? manifest).getD "" else path
  -- There is no transport for the protocol of editors, so the server ends at once.
  if flags.languageServer then return .exit Session.Exit.success.code
  else if path.isEmpty then
    if flags.checkOnly then
      host.complain "Error: -check needs a file\n"
      return .exit Session.Exit.usage.code
    else startRepl host manifest session
  else
    let (code, session) ← runFile host flags path session
    if flags.interactive && !([Session.Exit.files.code, breakdownCode].contains code) then
      startRepl host manifest session
    else return .exit code

/-- Opens the log and goes on. -/
def startWith (host : Host m) (flags : Flags) (path : String) (manifest : Option Manifest) :
    m Start := do
  match ← openLog host flags manifest with
  | .ok () => proceed host flags path manifest
  | .error e =>
    host.complain ("log file error: " ++ e.text ++ "\n")
    return .exit logFaultCode

/-- Starts the command. -/
def start (host : Host m) (arguments : List String) : m Start := do
  match parseFlags {} arguments with
  | .error fault =>
    host.complain (((fault.message?.map (· ++ "\n")).getD "") ++ usage)
    return .exit (flagFaultCode fault)
  | .ok (flags, arguments) =>
    if arguments.length > 1 then
      host.complain usage
      return .exit Session.Exit.usage.code
    match ← Manifest.find host (← host.workingDirectory) with
    | .error e =>
      host.complain ("Error: " ++ e.text ++ "\n")
      return .exit Session.Exit.usage.code
    | .ok manifest => startWith host flags (arguments.headD "") manifest

/-- Takes one line at the prompt; the answer says how to go on. -/
def takeLine (host : Host m) (repl : Repl) (line : String) : m (Repl.Next × Repl) := do
  let (answer, repl) := { repl with session := repl.session.setClock (← host.now) }.feed line
  host.print answer.output
  host.complain answer.errors
  return (answer.next, repl)

/-- Ends the interactive prompt and keeps its history. -/
def finish (host : Host m) (repl : Repl) : m Nat := do
  let _ ← host.write repl.historyPath (bytesOf repl.historyFile)
  return Session.Exit.success.code

/-- Takes all lines of an input at the prompt. A prompt that is lost does not keep its history. -/
def takeLines (host : Host m) (repl : Repl) : List String → m Nat
  | [] => do
    host.print (repl.prompt ++ "\n")
    finish host repl
  | line :: rest => do
    host.print repl.prompt
    let (next, repl) ← takeLine host repl line
    match next with
    | .line => takeLines host repl rest
    | .quit => finish host repl
    | .breakdown => return breakdownCode

/-- Runs the command on an input that is known in advance. -/
def run (host : Host m) (arguments : List String) (input : String) : m Nat := do
  match ← start host arguments with
  | .exit code => return code
  | .interactive repl => takeLines host repl ((Text.lines (bytesOf input)).map (·.text))

end ClassScript.Command
