import ClassScript.Diagnostic
import ClassScript.Machine.Run
import ClassScript.Parse.Grammar
import ClassScript.Typing.Check

/-!
# Sessions

A session reads, analyses and runs one source after the other. The machine, the resolver and the
checker live on between sources. All problems are collected, and a source with a problem that is
found before it runs does not run.
-/

namespace ClassScript

/-- What the checker makes of a global value. -/
def Value.seed : Value → Typing.Checker.Seed
  | .nativeClass c => .nativeClass c
  | .nativeFunction f => .nativeFunction f
  | _ => .other

/-- A checker that knows the globals of a machine. -/
def Typing.Checker.ofMachine (m : Machine) : Checker :=
  ofGlobals (m.globals.toList.map fun (name, v) => (name, v.seed))

namespace Diagnostic

/-- A violation of the grammar. -/
def ofParse (e : Parse.Error) : Diagnostic := atToken .parse e.token e.message

/-- A misuse of a name. -/
def ofScope (r : Scope.Report) : Diagnostic := atToken .resolve r.token r.misuse.message

/-- A violation of the types. -/
def ofTyping (e : Typing.Error) : Diagnostic := atToken .type e.token e.fault.message

/-- A failure of a running program. -/
def ofRuntime (e : RuntimeError) : Diagnostic := atToken .runtime e.token e.cause.message

end Diagnostic

/-- A pipeline that lives on between sources. -/
structure Session where
  /-- Whether types are checked. -/
  checksTypes : Bool
  /-- The machine that programs run on. -/
  machine : Machine := .initial
  /-- The resolver. -/
  resolver : Scope.Resolver := {}
  /-- The checker. -/
  checker : Typing.Checker := .ofMachine .initial
  /-- The problems since the last reset, in the order they were found. -/
  diagnostics : List Diagnostic := []
  /-- Whether a problem was found before a program ran. -/
  hadStaticError : Bool := false
  /-- Whether a program failed while it ran. -/
  hadRuntimeError : Bool := false
  /-- The identity of the next syntax node. -/
  nextId : NodeId := 0

namespace Session

/-- Exit statuses for the command line. -/
inductive Exit where
  /-- There was no problem. -/
  | success
  /-- The command line is wrong. -/
  | usage
  /-- A problem was found before a program ran. -/
  | static
  /-- A program failed while it ran. -/
  | runtime
  /-- A file could not be read or written. -/
  | files
deriving DecidableEq

/-- The number of an exit status. -/
def Exit.code : Exit → Nat
  | success => 0
  | usage => 64
  | static => 65
  | runtime => 70
  | files => 74

/-- The outcome of the passes before a run. -/
inductive Outcome where
  /-- No problem was found. -/
  | passed
  /-- A problem was found. -/
  | rejected
  /-- The checker found no answer. -/
  | undecided
deriving DecidableEq

/-- The outcome of a run. -/
inductive RunOutcome where
  /-- The program ran to its end. -/
  | finished
  /-- The program did not run, because of a problem that was found before. -/
  | rejected
  /-- The program failed. -/
  | failed (error : RuntimeError)
  /-- The checker or the machine found no answer. -/
  | undecided

/-- Whether there is an outcome at all. -/
def Outcome.isDecided : Outcome → Bool
  | undecided => false
  | _ => true

/-- Whether there is an outcome at all. -/
def RunOutcome.isDecided : RunOutcome → Bool
  | undecided => false
  | _ => true

/-- Notes several problems. -/
def reportAll (s : Session) (ds : List Diagnostic) : Session :=
  { s with
    diagnostics := s.diagnostics ++ ds
    hadStaticError := s.hadStaticError || ds.any (·.kind.isStatic)
    hadRuntimeError := s.hadRuntimeError || ds.any (!·.kind.isStatic) }

/-- Notes a problem. -/
def report (s : Session) (d : Diagnostic) : Session := s.reportAll [d]

/-- Forgets all problems, and keeps the state of the programs. -/
def reset (s : Session) : Session :=
  { s with diagnostics := [], hadStaticError := false, hadRuntimeError := false }

/-- The exit status that the problems so far amount to. -/
def exit (s : Session) : Exit :=
  if s.hadStaticError then .static else if s.hadRuntimeError then .runtime else .success

/-- Reads a source. -/
def parse (s : Session) (source : String) : Parsed × Session :=
  let parsed := Parse.source source s.nextId
  (parsed, { s with nextId := parsed.nextId }.reportAll (parsed.errors.map .ofParse))

/-- Checks the types of a program. -/
def checkTypes (s : Session) (program : List Stmt) : Outcome × Session :=
  let (verdict, checker) := s.checker.check program
  let s := { s with checker }
  match verdict with
  | .accepted => (.passed, s)
  | .rejected e => (.rejected, s.report (.ofTyping e))
  | .endless | .fault => (.undecided, s)

/-- Runs the passes before a run. The names are always resolved; the types are checked only if
the names are right. -/
def analyze (s : Session) (program : List Stmt) : Outcome × Session :=
  let (reports, resolver) := s.resolver.run program
  let s := { s with resolver }.reportAll (reports.map .ofScope)
  if !reports.isEmpty then (.rejected, s)
  else if s.checksTypes then s.checkTypes program
  else (.passed, s)

/-- Reads and analyses a source. -/
def check (s : Session) (source : String) : Outcome × Session :=
  let (parsed, s) := s.parse source
  if parsed.errors.isEmpty then s.analyze parsed.program else (.rejected, s)

/-- Runs a program that has been analysed. -/
def execute (s : Session) (program : List Stmt) : RunOutcome × Session :=
  let (ending, machine) :=
    (s.machine.addDistances s.resolver.distances).interpret defaultFuel program
  let s := { s with machine }
  match ending with
  | .finished => (.finished, s)
  | .failed error => (.failed error, s.report (.ofRuntime error))
  | .fault | .exhausted => (.undecided, s)

/-- Reads, analyses and runs a source. -/
def run (s : Session) (source : String) : RunOutcome × Session :=
  let (parsed, s) := s.parse source
  if parsed.errors.isEmpty then
    match s.analyze parsed.program with
    | (.passed, s) => s.execute parsed.program
    | (.rejected, s) => (.rejected, s)
    | (.undecided, s) => (.undecided, s)
  else (.rejected, s)

/-- What the programs printed since it was last cleared. -/
def output (s : Session) : String := s.machine.output.text

/-- Forgets what the programs printed. -/
def clearOutput (s : Session) : Session := { s with machine := s.machine.clearOutput }

/-- Sets the clock of the programs. -/
def setClock (s : Session) (now : Float) : Session := { s with machine := { s.machine with now } }

/-- The problems since the last reset, one behind the other. -/
def problems (s : Session) : String := String.join (s.diagnostics.map (·.text ++ "\n"))

end Session

/-- What is known of one document without running it. -/
structure Analysis where
  /-- The statements that follow the grammar. -/
  program : List Stmt
  /-- All problems. -/
  diagnostics : List Diagnostic
  /-- The checker with the types of the document. -/
  checker : Typing.Checker

/-- Analyses a document on its own. What follows the grammar is analysed even if other parts of the
document do not. There is no analysis if the checker finds no answer. -/
def Analysis.ofSource? (source : String) : Option Analysis :=
  let (parsed, s) := ({ checksTypes := true } : Session).parse source
  match s.analyze parsed.program with
  | (.undecided, _) => none
  | (_, s) => some { program := parsed.program, diagnostics := s.diagnostics, checker := s.checker }

end ClassScript
