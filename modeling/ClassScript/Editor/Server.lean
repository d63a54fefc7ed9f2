import ClassScript.Editor.Completion
import ClassScript.Editor.Hover
import ClassScript.Editor.Worker

/-!
# The language server

The server keeps the text of every open document, and a worker keeps the latest analysis of each.
Every message from the editor is handled in at most two steps: one on the texts, and one job for the
worker. The steps of several messages can alternate; a whole message is one step and then the
other.
-/

namespace ClassScript.Editor

/-- The name of the server. -/
def serverName : String := "kestrel-lsp"

/-- What the server can do. -/
structure Capabilities where
  /-- Whether it wants to know which documents are open. -/
  openClose : Bool := true
  /-- Whether it wants a changed document as a whole. -/
  wholeDocuments : Bool := true
  /-- The characters that ask for proposals at once. -/
  triggers : List String := ["."]
  /-- Whether it says what is under the pointer. -/
  hover : Bool := true
  /-- Whether it finds declarations. -/
  definition : Bool := true
  /-- Whether it finds uses. -/
  references : Bool := true

/-- A problem as an editor shows it. -/
structure Problem where
  /-- The text that it is about. -/
  range : Range
  /-- The pass that found it. -/
  code : String
  /-- What is wrong. -/
  message : String

/-- The problem of a diagnostic. At the end of a document there is no text to mark. -/
def Problem.ofDiagnostic (d : Diagnostic) : Problem :=
  { range := .ofLexeme d.line.toInt d.column.toInt (if d.atEnd then "" else d.lexeme)
    code := d.kind.name
    message := d.message }

/-- The problems of an analysis. -/
def problems (a : Analysis) : List Problem := a.diagnostics.map .ofDiagnostic

/-! ### Analyses -/

/-- The latest analyses of documents. -/
structure Workspace where
  /-- The analyses by document. -/
  analyses : Std.TreeMap String Analysis := ∅

namespace Workspace

/-- Analyses a text and keeps the outcome. Without one, what was kept stays. -/
def analyze (w : Workspace) (uri text : String) : Option (Analysis × Workspace) :=
  (Analysis.ofSource? text).map fun a => (a, { analyses := w.analyses.insert uri a })

/-- Forgets a document. -/
def forget (w : Workspace) (uri : String) : Workspace := { analyses := w.analyses.erase uri }

/-- The analysis that is kept or, where there is none, that of a text. -/
def consult (w : Workspace) (uri text : String) : Option (Analysis × Workspace) :=
  match w.analyses[uri]? with
  | some a => some (a, w)
  | none => w.analyze uri text

end Workspace

/-! ### Steps -/

/-- The state of the server. -/
structure Server where
  /-- The texts of the open documents. -/
  documents : Std.TreeMap String String := ∅
  /-- The worker with the analyses. -/
  worker : Worker Workspace := { state := {} }

/-- A message that concerns the state of a document. -/
inductive Message where
  /-- The document is open and has a text. -/
  | update (uri text : String)
  /-- The document is closed. -/
  | close (uri : String)
  /-- Something is asked about the document. -/
  | ask (uri : String)

/-- The part of a message that is left to the worker. -/
inductive Task where
  /-- To analyse a text and keep the outcome. -/
  | analyze (uri text : String)
  /-- To forget a document. -/
  | forget (uri : String)
  /-- To look an analysis up, and to analyse a text only if there is none. -/
  | consult (uri text : String)

/-- Why a text has no analysis. -/
def failureText : String := "the checker found no answer"

/-- What a job answers that leads to an analysis, or fails to. -/
def reply : Option (Analysis × Workspace) → Except String (Option Analysis × Workspace)
  | some (a, w) => .ok (some a, w)
  | none => .error failureText

/-- A task as a job; only the analysis of a text can fail. -/
def Task.job : Task → Job Workspace (Option Analysis)
  | analyze uri text => fun w => reply (w.analyze uri text)
  | forget uri => fun w => .ok (none, w.forget uri)
  | consult uri text => fun w => reply (w.consult uri text)

namespace Server

/-- The first step of a message, on the texts. Nothing is left to do about a question on a document
that is not open. -/
def begin (s : Server) : Message → Option Task × Server
  | .update uri text =>
    (some (.analyze uri text), { s with documents := s.documents.insert uri text })
  | .close uri => (some (.forget uri), { s with documents := s.documents.erase uri })
  | .ask uri => (s.documents[uri]?.map (.consult uri), s)

/-- The second step of a message, on the analyses. -/
def finish (s : Server) (task : Task) : Except String (Option Analysis) × Server :=
  let (answer, worker) := s.worker.perform task.job
  (answer, { s with worker })

/-- Both steps of a message, with the analysis they lead to. -/
def handle (s : Server) (message : Message) : Option Analysis × Server :=
  match s.begin message with
  | (none, s) => (none, s)
  | (some task, s) =>
    match s.finish task with
    | (.ok a, s) => (a, s)
    | (.error _, s) => (none, s)

/-! ### Messages -/

/-- Takes the text of a document; the answer is its problems. -/
def update (s : Server) (uri text : String) : Option (List Problem) × Server :=
  let (a, s) := s.handle (.update uri text)
  (a.map problems, s)

/-- A change of a document. -/
inductive Change where
  /-- The new text as a whole. -/
  | whole (text : String)
  /-- A new text for a part. -/
  | part (text : String)

/-- Takes the changes of a document. Only the last one counts, and only if it is whole. -/
def change (s : Server) (uri : String) (changes : List Change) : Option (List Problem) × Server :=
  match changes.getLast? with
  | some (.whole text) => s.update uri text
  | _ => (none, s)

/-- Closes a document, which then has no problems. -/
def close (s : Server) (uri : String) : List Problem × Server := ([], (s.handle (.close uri)).2)

/-- Answers a question about a document from its text and analysis. -/
def ask {α : Type} (s : Server) (uri : String) (answer : String → Analysis → α) :
    Option α × Server :=
  let text := s.documents[uri]?
  let (a, s) := s.handle (.ask uri)
  (text.bind fun text => a.map (answer text), s)

/-- The proposals at a place. The server is lost if there is no answer. -/
def completion? (s : Server) (uri : String) (p : Position) : Option (List Proposal × Server) :=
  let (r, s) := s.ask uri fun text a => complete? a text p
  (r.getD (some [])).map (·, s)

/-- What is shown about a place. The server is lost if there is no answer. -/
def hover? (s : Server) (uri : String) (p : Position) : Option (Option String × Server) :=
  let (r, s) := s.ask uri fun text a => Editor.hover? a text p
  (r.getD (some none)).map (·, s)

/-- The locations of tokens that belong to the word at a place. -/
def locate (s : Server) (uri : String) (p : Position) (find : List Stmt → String → List Token) :
    List Location × Server :=
  let (r, s) := s.ask uri fun text a =>
    let word := wordAt text p
    if word.isEmpty then [] else locations uri (find a.program word)
  (r.getD [], s)

/-- The declarations of the name at a place. -/
def definition (s : Server) (uri : String) (p : Position) : List Location × Server :=
  s.locate uri p declarations

/-- The uses of the name at a place and, if asked for, its declarations. -/
def references (s : Server) (uri : String) (p : Position) (withDeclarations : Bool) :
    List Location × Server :=
  s.locate uri p fun program name => Editor.references program name withDeclarations

/-- Ends the work of the server. -/
def shutdown (s : Server) : Server := { s with worker := s.worker.stop }

end Server

end ClassScript.Editor
