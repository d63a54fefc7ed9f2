import ClassScript.Machine.Evaluate

/-!
# Running programs

Programs run one after the other on one machine. The first error of a program stops it, and the
machine is ready for the next one with its globals as they are.
-/

namespace ClassScript

/-- How a program ends. -/
inductive Ending where
  /-- All statements were executed. -/
  | finished
  /-- An error stopped it. -/
  | failed (error : RuntimeError)
  /-- The machine did something that has no meaning. -/
  | fault
  /-- The bound on the execution was used up. -/
  | exhausted

namespace Machine

/-- A machine without anything under way. -/
def idle (m : Machine) : Machine := { m with scope := globalScope, calls := .none, site := .absent }

/-- Runs a program on an engine. -/
def interpretBy (eng : Engine) (m : Machine) : List Stmt → Ending × Machine
  | [] => (.finished, m)
  | s :: rest =>
    match eng.execute s m with
    | .ok _ m' => interpretBy eng m' rest
    | .error e m' =>
      match e.locate s.token with
      | .located error => (.failed error, m'.idle)
      | .exhausted => (.exhausted, m'.idle)
      | _ => (.fault, m'.idle)

/-- Runs a program. -/
def interpret (fuel : Nat) (m : Machine) (program : List Stmt) : Ending × Machine :=
  m.interpretBy (engine fuel) program

/-- The outcome of a step that is asked for from outside. -/
inductive Reply (α : Type) where
  /-- A result. -/
  | value (a : α)
  /-- An error. -/
  | failed (error : RuntimeError)
  /-- The machine did something that has no meaning. -/
  | fault
  /-- The bound on the execution was used up. -/
  | exhausted

/-- Runs a step that is asked for from outside. -/
def ask {α : Type} (m : Machine) (x : Exec α) : Reply α × Machine :=
  match x m with
  | .ok a m' => (.value a, m')
  | .error e m' =>
    match e.locate m.site with
    | .located error => (.failed error, m')
    | .exhausted => (.exhausted, m')
    | _ => (.fault, m')

/-- Calls a value. -/
def call (fuel : Nat) (m : Machine) (callee : Value) (args : List Value) : Reply Value × Machine :=
  m.ask ((engine fuel).invoke m.site callee args [])

/-- Sends a message. -/
def send (fuel : Nat) (m : Machine) (receiver : Value) (name : String) (args : List Value) :
    Reply Value × Machine :=
  m.ask ((engine fuel).send m.site receiver name args)

/-- Asks a value for its text. -/
def stringify (fuel : Nat) (m : Machine) (v : Value) : Reply String × Machine :=
  m.ask ((engine fuel).stringify v)

/-- Binds a name in the outermost scope. -/
def defineGlobal (m : Machine) (name : String) (v : Value) : Machine :=
  { m with store.environments := m.store.environments.define globalScope name v }

/-- The value of a name in the outermost scope. -/
def global? (m : Machine) (name : String) : Option Value := m.globals[name]?

/-- Forgets what was printed. -/
def clearOutput (m : Machine) : Machine := { m with output.text := "" }

end Machine

end ClassScript
