import ClassScript.Session
import ClassScript.Text.Characters
import ClassScript.Text.Lines

/-!
# The interactive prompt

Lines are collected until they make up a whole program, which then runs; globals live on from one
input to the next. An input that starts with a colon is a command to the prompt itself.
-/

namespace ClassScript

/-- The state of the interactive prompt. -/
structure Repl where
  /-- The session that inputs run in. -/
  session : Session
  /-- The lines collected so far. -/
  pending : String := ""
  /-- The inputs so far, the oldest first. -/
  history : List String := []
  /-- The path of the history. -/
  historyPath : String := ""

namespace Repl

/-- How the prompt goes on. -/
inductive Next where
  /-- It takes another line. -/
  | line
  /-- It was told to stop. -/
  | quit
  /-- It is lost, because something has no answer. -/
  | breakdown

/-- What the prompt answers to a line. -/
structure Answer where
  /-- What goes to the standard output. -/
  output : String := ""
  /-- What goes to the standard error output. -/
  errors : String := ""
  /-- How it goes on. -/
  next : Next := .line

/-- The greatest number of inputs that are kept. -/
def historyLimit : Nat := 1000

/-- The text in front of a line. -/
def prompt (r : Repl) : String := if r.pending.isEmpty then ">> " else ".. "

/-- The first line of an interactive session. -/
def greeting (version : String) : String :=
  "Kestrel " ++ version ++ " REPL (type :help for commands)\n"

/-- The help on the commands. -/
def helpText : String :=
  "REPL commands:\n" ++
  "  :help, :h     Show this help\n" ++
  "  :globals      List global names and their types\n" ++
  "  :quit         Exit the REPL\n" ++
  "Ctrl+C cancels the current input, Ctrl+D exits.\n"

/-- A list without its oldest items beyond a limit. -/
def limited (history : List String) : List String := history.drop (history.length - historyLimit)

/-- Adds an input to the history, unless it is the same as the one before. -/
def remember (history : List String) (input : String) : List String :=
  if history.getLast? = some input then history else limited (history ++ [input])

/-- The texts up to the first one that is missing. -/
def present : List (Option String) → List String
  | some text :: rest => text :: present rest
  | _ => []

/-- The history that a file holds, up to a line that is too long or not made of characters. -/
def ofHistoryFile (content : List UInt8) : List String :=
  limited (present ((Text.lines content).map (·.wholeText?)))

/-- The contents of the history file. -/
def historyFile (r : Repl) : String := String.join (r.history.map (· ++ "\n"))

/-- A line with the name and the type of each global, unless the text of the type has no end. -/
def globalsLines (c : Typing.Checker) : List (Option String) :=
  c.globals.toList.map fun (name, t) =>
    (c.typeText? t).map fun type => "  " ++ Text.padRight 12 name ++ " " ++ type ++ "\n"

/-- Writes lines up to the first one that is missing. -/
def writeLines (lines : List (Option String)) : Answer :=
  { output := String.join (present lines)
    next := if lines.all (·.isSome) then .line else .breakdown }

/-- Carries a command out. -/
def command (r : Repl) (input : String) : Answer :=
  if [":quit", ":q"].contains input then { next := .quit }
  else if [":help", ":h", ":?"].contains input then { output := helpText }
  else if input = ":globals" then writeLines (globalsLines r.session.checker)
  else { output := "Unknown command: " ++ input ++ " (type :help for commands)\n" }

/-- Runs an input. Earlier problems do not matter to it. -/
def run (r : Repl) (input : String) : Answer × Repl :=
  let (outcome, session) := r.session.reset.run input
  ({ output := session.output, errors := session.problems
     next := if outcome.isDecided then .line else .breakdown },
    { r with session := session.clearOutput })

/-- Takes a whole input. -/
def input (r : Repl) (text : String) : Answer × Repl :=
  let trimmed := Text.trim text
  if trimmed.isEmpty then ({}, r)
  else
    let r := { r with history := remember r.history text }
    if trimmed.startsWith ":" then (r.command trimmed, r) else r.run text

/-- Takes a line. -/
def feed (r : Repl) (line : String) : Answer × Repl :=
  let text := if r.pending.isEmpty then line else r.pending ++ "\n" ++ line
  -- A command is never continued, whatever its text would be as a program.
  let isCommand := (Text.trim text).startsWith ":"
  if isCommand || !(Parse.source text 0).incomplete then { r with pending := "" }.input text
  else ({}, { r with pending := text })

end Repl

end ClassScript
