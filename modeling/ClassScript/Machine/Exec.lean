import ClassScript.Machine.Error
import ClassScript.Machine.Store
import ClassScript.Scope.Resolve

/-!
# The machine

The state of a running program and the steps that change it. A step keeps what it did when it is
left early. Whatever a step changes for the time of an inner step, the current scope, the active
calls and the call site, it puts back on every way out.
-/

namespace ClassScript

/-- One active call of a program's function. -/
structure Frame where
  /-- The method that a superclass call without a name refers to, or nothing. -/
  home : String

/-- The active calls, with their number. -/
structure Calls where
  /-- The calls, the innermost first. -/
  frames : List Frame := []
  /-- The number of calls, which is asked for at every call. -/
  depth : Nat := 0
  /-- The number is that of the calls. -/
  depth_eq : depth = frames.length := by rfl

/-- No call at all. -/
def Calls.none : Calls := {}

/-- A further call inside the others. -/
def Calls.push (calls : Calls) (frame : Frame) : Calls where
  frames := frame :: calls.frames
  depth := calls.depth + 1
  depth_eq := congrArg (· + 1) calls.depth_eq

/-- The calls around the innermost one. -/
def Calls.pop (calls : Calls) : Calls where
  frames := calls.frames.tail
  depth := calls.depth - 1
  depth_eq := by rw [calls.depth_eq, List.length_tail]

/-- The calls around a further call are those that it is inside of. -/
@[simp] theorem Calls.pop_push (calls : Calls) (frame : Frame) : (calls.push frame).pop = calls :=
  rfl

/-- Where `print` writes. -/
structure Output where
  /-- What was printed. -/
  text : String := ""
  /-- Why nothing can be printed, if so. -/
  failure : Option String := none

/-- The state of a running program. -/
structure Machine where
  /-- Everything that can change. -/
  store : Store := {}
  /-- The current scope. -/
  scope : ScopeId := 0
  /-- The active calls. -/
  calls : Calls := {}
  /-- The greatest number of calls that were active at once. -/
  deepest : Nat := 0
  /-- The innermost call site, for errors raised by native code. -/
  site : Token := .absent
  /-- The bound on the number of active calls. -/
  maxDepth : Int := 1000
  /-- The distances of the uses of local names. -/
  distances : Scope.Distances := ∅
  /-- Where `print` writes. -/
  output : Output := {}
  /-- The time that `clock` answers, in seconds. -/
  now : Float := 0

/-- The place of the outermost scope. -/
def globalScope : ScopeId := 0

/-- A step of the machine. -/
abbrev Exec := EStateM Interrupt Machine

namespace Exec

/-- Raises an error without a place. -/
def raise {α : Type} (cause : Cause) : Exec α := throw (.raised cause)

/-- Raises an error with a place. -/
def raiseAt {α : Type} (token : Token) (cause : Cause) : Exec α := throw (.located ⟨token, cause⟩)

/-- Stops at something that has no meaning. -/
def fault {α : Type} : Exec α := throw .fault

/-- A part of the store. -/
def read {α : Type} (f : Store → α) : Exec α := return f (← get).store

/-- Changes the store. -/
def update (f : Store → Store) : Exec Unit := modify fun m => { m with store := f m.store }

/-- Makes something new in the store. -/
def allocate {α : Type} (f : Store → Store × α) : Exec α :=
  modifyGet fun m =>
    let (store, a) := f m.store
    (a, { m with store })

/-- A new identity. -/
def freshId : Exec ObjectId :=
  allocate fun s => ({ s with nextId := s.nextId + 1 }, s.nextId)

/-- A new scope inside another one. -/
def newScope (origin : Scope.Origin) (parent : ScopeId) : Exec ScopeId :=
  allocate fun s =>
    let place := s.environments.table.size
    ({ s with environments := s.environments.push origin (some parent) }, place)

/-- Declares a name in a scope. -/
def define (scope : ScopeId) (name : String) (v : Value) : Exec Unit :=
  update fun s =>
    { s with
      environments := s.environments.define scope name v
      declared := (scope, name) :: s.declared }

/-- Declares a name in the current scope. -/
def defineHere (name : String) (v : Value) : Exec Unit := do define (← get).scope name v

/-- A new list. -/
def newList (items : List Value) : Exec Value := return .list (← allocate (·.newList items))

/-- A new iterator. -/
def newIterator (c : Cursor) : Exec Value := return .iterator (← allocate (·.newIterator c))

/-- Runs a step in a scope. -/
def inScope {α : Type} (scope : ScopeId) (x : Exec α) : Exec α := fun m =>
  let outer := m.scope
  match x { m with scope } with
  | .ok a m' => .ok a { m' with scope := outer }
  | .error e m' => .error e { m' with scope := outer }

/-- Runs a step at a call site. -/
def atSite {α : Type} (site : Token) (x : Exec α) : Exec α := fun m =>
  let outer := m.site
  match x { m with site } with
  | .ok a m' => .ok a { m' with site := outer }
  | .error e m' => .error e { m' with site := outer }

/-- Runs a step inside an active call. -/
def inFrame {α : Type} (frame : Frame) (x : Exec α) : Exec α := fun m =>
  match x { m with
      calls := m.calls.push frame, deepest := max m.deepest (m.calls.depth + 1) } with
  | .ok a m' => .ok a { m' with calls := m'.calls.pop }
  | .error e m' => .error e { m' with calls := m'.calls.pop }

/-- Gives the errors of a step a place. -/
def located {α : Type} (site : Token) (x : Exec α) : Exec α := fun m =>
  match x m with
  | .ok a m' => .ok a m'
  | .error e m' => .error (e.locate site) m'

/-- Raises another error in place of the errors of a step. -/
def orRaise {α : Type} (x : Exec α) (error : RuntimeError) : Exec α := fun m =>
  match x m with
  | .ok a m' => .ok a m'
  | .error (.raised _) m' | .error (.located _) m' => .error (.located error) m'
  | .error e m' => .error e m'

/-- The method that a superclass call without a name refers to, or nothing. -/
def home : Exec String := return ((← get).calls.frames.head?.map Frame.home).getD ""

end Exec

namespace Machine

/-- A machine whose outermost scope holds the native classes and functions. -/
def initial : Machine :=
  let environments := ({} : Environments).push .globals none
  let withClasses := NativeClass.all.foldl
    (fun es c => es.define globalScope c.name (.nativeClass c)) environments
  let withFunctions := NativeFunction.all.foldl
    (fun es f => es.define globalScope f.name (.nativeFunction f)) withClasses
  { store := { environments := withFunctions } }

/-- The values of the outermost scope. -/
def globals (m : Machine) : Bindings := m.store.environments.bindings globalScope

/-- Adds distances of uses. -/
def addDistances (m : Machine) (ds : Scope.Distances) : Machine :=
  { m with distances := ds.foldl (fun acc id d => acc.insert id d) m.distances }

end Machine

end ClassScript
