import ClassScript.Proofs.Machine.Code

/-!
# The bookkeeping of a run

Every part of an execution puts the current scope, the active calls and the call site back. Native
code and other code are steps over an engine, so they restore the machine if the engine does, as in
every regime, and an engine is one level of execution over the engine below it. Induction on the
levels then covers every execution, and one program after the other leaves an idle machine idle.
-/

namespace ClassScript

open Exec (Abides Obeys Restores)

/-- An engine whose steps restore the machine. -/
structure Engine.Restoring (eng : Engine) : Prop where
  /-- Evaluating an expression restores the machine. -/
  evaluate : ∀ e, Restores (eng.evaluate e)
  /-- Executing a statement restores the machine. -/
  execute : ∀ s, Restores (eng.execute s)
  /-- Calling a value restores the machine. -/
  invoke : ∀ site callee positional named,
    Restores (eng.invoke site callee positional named)

/-! ### The regime of restored machines -/

/-- A quiet step restores the machine. -/
theorem Machine.Quiet.restored {m m' : Machine} (h : m.Quiet m') : m.Restored m' where
  scope := h.scope
  calls := h.calls
  site := h.site
  maxDepth := h.maxDepth
  distances := h.distances
  mark := Nat.le_of_eq h.deepest.symm
  deepest := by
    rw [h.deepest]
    exact Nat.le_max_left ..
  environments := h.environments ▸ .refl _
  store := h.store

/-- Any machine, with any values. What matters is what a step leaves of the machine. -/
abbrev Regime.restoring : Regime where
  Inv _ := True
  Holds _ _ := True
  Later := Machine.Restored
  refl := .refl
  trans := .trans
  holds _ _ := trivial
  contents _ := .of_forall fun _ => trivial
  quiet _ hq _ := ⟨trivial, hq.restored⟩
  enterSite _ := trivial
  leaveSite _ hl := ⟨trivial, { hl with site := rfl }⟩
  holdsSite _ := trivial
  flat _ := trivial
  pair := by simp
  varargs := by simp
  iteratorResult := .rfl
  boundMethod := .rfl

namespace Exec

variable {α : Type} {x : Exec α}

/-- A step that restores a machine abides by the regime. -/
theorem abides_restored {m : Machine} (h : m.Restored (final x m)) : Abides .restoring m x x :=
  .of_eq rfl (fun _ => rfl) (fun _ {_ _} hr => ⟨final_ok hr ▸ h, trivial, trivial⟩)
    fun _ {_ _} hr => ⟨final_error hr ▸ h, trivial⟩

/-- A step that obeys the regime restores the machine. -/
theorem Obeys.restored {m : Machine} {Q : α → Machine → Prop} (h : Obeys .restoring m x x Q) :
    m.Restored (final x m) := by
  cases hr : x m with
  | ok a m' => exact final_ok hr ▸ (h.ok trivial hr).1
  | error e m' => exact final_error hr ▸ (h.error trivial hr).1

/-- A step that restores every machine abides by the regime on each. -/
theorem Restores.abides (h : Restores x) (m : Machine) : Abides .restoring m x x :=
  abides_restored (h.restored m)

/-- What a step does in the regime of restored machines. -/
theorem Restores.of_obeys {Q : α → Machine → Prop} (h : ∀ m, Obeys .restoring m x x Q) :
    Restores x :=
  ⟨fun m => (h m).restored⟩

end Exec

/-! ### Members -/

/-- Giving a function its receiver restores the machine. -/
theorem Closure.restores_bind (fn : Closure) (receiver : Value) : Restores (fn.bind receiver) :=
  .bind (.read _) fun _ => .bind (.newScope ..) fun _ => .bind (.define ..) fun _ =>
    .bind .freshId fun _ => .pure _

/-- The regime knows all methods, since it knows all values. -/
theorem Regime.restoring_binds : Regime.restoring.BindsMethods := fun _ _ =>
  (Closure.restores_bind ..).abides _

/-- It knows those of superclasses for the same reason. -/
theorem Regime.restoring_bindsSupers : Regime.restoring.BindsSupers := fun _ _ _ =>
  (Closure.restores_bind ..).abides _

/-- Reading a member restores the machine. -/
theorem restores_member (site : Token) (v : Value) (name : String) :
    Restores (member site v name) :=
  .of_obeys fun _ => yields_member Regime.restoring_binds site trivial name

/-! ### Native code -/

namespace Engine

variable {eng : Engine}

/-- An engine that restores the machine calls values alike, in the regime of restored machines. -/
theorem Restoring.callsBy (h : eng.Restoring) : CallsBy .restoring eng eng where
  binds := Regime.restoring_binds
  invoke _ _ _ _ _ _ _ := (h.invoke ..).abides _

/-- Sending a message restores the machine. -/
theorem restores_send (h : eng.Restoring) (site : Token) (receiver : Value) (name : String)
    (args : List Value) : Restores (eng.send site receiver name args) :=
  .of_obeys fun _ => yields_send h.callsBy site name trivial fun _ _ => trivial

/-- Asking for a text restores the machine. -/
theorem restores_stringify (h : eng.Restoring) (v : Value) : Restores (eng.stringify v) :=
  .of_obeys fun _ => abides_stringify h.callsBy trivial

/-- Testing a condition restores the machine. -/
theorem restores_condition (h : eng.Restoring) (token : Token) (v : Value) :
    Restores (eng.condition token v) :=
  .of_obeys fun _ => abides_condition h.callsBy token trivial

end Engine

/-! ### Names -/

/-- Assigning a variable restores the machine. -/
theorem restores_assignVariable (name : String) (id : NodeId) (v : Value) :
    Restores (assignVariable name id v) := by
  refine .modify fun m => ?_
  split
  · exact .of_store (m.store.environments.grows_assignAt ..) (.of_outside rfl rfl rfl)
  · exact .of_store (m.store.environments.grows_assign ..) (.of_outside rfl rfl rfl)

/-- Making a function restores it. -/
theorem restores_newClosure (fn : Lambda) : Restores (newClosure fn) :=
  .bind .freshId fun _ => .bind .get fun _ => .bind .home fun _ => .pure _

/-! ### Classes -/

/-- Making the methods of a class restores the machine. -/
theorem restores_newMethods (scope : ScopeId) (fns : List Lambda)
    (methods : List (String × Closure)) : Restores (Engine.newMethods scope fns methods) := by
  induction fns generalizing methods with
  | nil => exact .pure _
  | cons fn rest ih => exact .bind .freshId fun _ => ih _

/-- Making a class restores it. -/
theorem restores_declareClass (id : NodeId) (name : Token) (methods : List Lambda)
    (classes : List Class) : Restores (declareClass id name methods classes) :=
  .bind .get fun _ => .bind (.newScope ..) fun _ => .bind (.define ..) fun _ =>
    .bind (restores_newMethods ..) fun _ => .bind .freshId fun _ => .defineHere ..

/-! ### Executions -/

/-- Any code may run. -/
def Regime.restoringCode : Regime.restoring.Code where
  Place := Unit
  after _ _ := ()
  Fits _ _ := True
  Leads _ _ _ := True
  Matches _ _ := True
  Binds _ _ _ _ := True
  fits _ _ _ := trivial
  leads _ _ _ := trivial
  binds _ _ _ := trivial
  evaluatesIn _ _ := trivial
  executesIn _ _ := trivial
  leaveScope _ _ hl := ⟨{ hl with scope := rfl }, trivial⟩
  holdsScope _ := trivial
  object _ _ := trivial
  receiver _ := .read (fun _ => rfl) fun _ _ _ => trivial
  operand _ _ := trivial
  lookUp _ := yields_lookUpVariable _ (fun _ _ _ => rfl) (fun _ => rfl) fun _ _ _ _ => trivial
  lookUpSelf _ := yields_lookUpVariable _ (fun _ _ _ => rfl) (fun _ => rfl) fun _ _ _ _ => trivial
  assign _ _ := (restores_assignVariable ..).abides _
  super _ := yields_evaluateSuper Regime.restoring_bindsSupers _ _ (fun _ _ _ _ _ _ => rfl)
    fun _ _ _ _ _ => trivial
  lambda _ := (restores_newClosure _).abides _
  matched _ := trivial
  call _ _ _ := (Exec.Restores.newScope ..).abides _
  default _ _ := trivial
  bindParam _ _ := (Exec.Restores.define ..).abides _
  body _ := ⟨(), trivial⟩
  operandOf _ _ := trivial
  branch _ _ := trivial
  past _ _ := trivial
  varDecl _ _ := (Exec.Restores.defineHere ..).abides _
  function _ := (Exec.Restores.bind (restores_newClosure _) fun _ => .defineHere ..).abides _
  classDecl _ _ := (restores_declareClass ..).abides _
  block _ := ((Exec.Restores.newScope ..).abides _).mono fun _ _ _ _ _ => ⟨(), trivial⟩
  round _ := ((Exec.Restores.newScope ..).abides _).mono fun _ _ _ _ _ _ _ =>
    ((Exec.Restores.define ..).abides _).mono fun _ _ _ _ _ => ⟨(), trivial⟩

namespace Engine

variable {eng : Engine}

/-- An engine that restores the machine does so with all code. -/
theorem Restoring.runsBy (h : eng.Restoring) : RunsBy Regime.restoringCode eng eng where
  toCallsBy := h.callsBy
  fuel := rfl
  evaluate e _ := (h.evaluate e).abides _
  execute s _ _ := ((h.execute s).abides _).mono fun c _ _ _ _ => by cases c <;> trivial

/-- A function is called only if there is room for a further call, so the calls that are active
at once stay within the bound. -/
theorem Restoring.callsFunctions (h : eng.Restoring) :
    CallsFunctions Regime.restoringCode eng eng := by
  intro m fn site slots hfn hmatch hslots
  refine yields_callClosure site fun room => Exec.abides_restored ?_
  refine Exec.restored_inFrame room fun m' hcalls => ?_
  have hhome : m'.home = fn.home := by
    unfold Machine.home
    rw [hcalls]
    rfl
  exact (yields_callBody h.runsBy hhome trivial hmatch fun s _ =>
    .of_forall (fun _ => trivial) s).restored

/-- Evaluating an expression restores the machine if the level below does. -/
theorem restores_evaluateWith (h : eng.Restoring) (e : Expr) : Restores (eng.evaluateWith e) :=
  .of_obeys fun _ => yields_evaluateWith h.runsBy e trivial

/-- Executing a statement restores the machine if the level below does. -/
theorem restores_executeWith (h : eng.Restoring) (s : Stmt) : Restores (eng.executeWith s) :=
  .of_obeys fun _ => obeys_executeWith h.runsBy (p := ()) s [] trivial

/-- Running a callable restores the machine. -/
theorem restores_apply (h : eng.Restoring) (callee : Value) (site : Token)
    (slots : List (Slot Value)) : Restores (eng.apply callee site slots) :=
  .of_obeys fun _ => yields_apply h.callsBy h.callsFunctions site trivial (fun _ _ => trivial)
    fun s _ => .of_forall (fun _ => trivial) s

/-- A call restores the machine. -/
theorem restores_invokeWith (h : eng.Restoring) (site : Token) (callee : Value)
    (positional : List Value) (named : List (String × Value)) :
    Restores (eng.invokeWith site callee positional named) :=
  .of_obeys fun _ => yields_invokeWith h.callsBy h.callsFunctions site trivial
    (fun _ _ => trivial) fun _ _ => trivial

end Engine

/-! ### Runs -/

/-- Every execution restores the machine, whatever the number of levels that it may go down. -/
theorem engine_restoring (levels : Nat) : (engine levels).Restoring := by
  induction levels with
  | zero =>
    exact ⟨fun _ => .throw _, fun _ => .throw _, fun _ _ _ _ => .throw _⟩
  | succ levels ih =>
    exact ⟨fun e => Engine.restores_evaluateWith ih e, fun s => Engine.restores_executeWith ih s,
      fun site callee positional named =>
        Engine.restores_invokeWith ih site callee positional named⟩

/-- What can be asked of a machine. -/
inductive Task where
  /-- Executing a statement. -/
  | execute (s : Stmt)
  /-- Evaluating an expression. -/
  | evaluate (e : Expr)
  /-- Calling a value with arguments that are still to be matched to its parameters. -/
  | invoke (site : Token) (callee : Value) (positional : List Value)
    (named : List (String × Value))
  /-- Reading a member of a value. -/
  | member (site : Token) (v : Value) (name : String)
  /-- Testing a condition. -/
  | condition (token : Token) (v : Value)
  /-- Asking a value for its text. -/
  | stringify (v : Value)
  /-- Running a callable with matched arguments. -/
  | apply (callee : Value) (site : Token) (slots : List (Slot Value))

/-- The steps of a task, without its answer. -/
def Task.steps (eng : Engine) : Task → Exec Unit
  | .execute s => do let _ ← eng.execute s
  | .evaluate e => do let _ ← eng.evaluate e
  | .invoke site callee positional named => do let _ ← eng.invoke site callee positional named
  | .member site v name => do let _ ← ClassScript.member site v name
  | .condition token v => do let _ ← eng.condition token v
  | .stringify v => do let _ ← eng.stringify v
  | .apply callee site slots => do let _ ← eng.apply callee site slots

/-- Every task restores the machine. -/
theorem Task.restores_steps {eng : Engine} (h : eng.Restoring) (task : Task) :
    Restores (task.steps eng) := by
  cases task with
  | execute s => exact .bind (h.execute s) fun _ => .pure _
  | evaluate e => exact .bind (h.evaluate e) fun _ => .pure _
  | invoke site callee positional named => exact .bind (h.invoke ..) fun _ => .pure _
  | member site v name => exact .bind (restores_member ..) fun _ => .pure _
  | condition token v => exact .bind (Engine.restores_condition h ..) fun _ => .pure _
  | stringify v => exact .bind (Engine.restores_stringify h v) fun _ => .pure _
  | apply callee site slots => exact .bind (Engine.restores_apply h ..) fun _ => .pure _

namespace Machine

/-- A machine with nothing under way. -/
structure Idle (m : Machine) : Prop where
  /-- The current scope is the outermost one. -/
  scope : m.scope = globalScope
  /-- No call is active. -/
  frames : m.calls.frames = []
  /-- There is no call site. -/
  site : m.site = .absent

/-- A machine that is idle stays idle where everything is put back. -/
theorem Restored.isIdle {m m' : Machine} (h : m.Restored m') (hm : m.Idle) : m'.Idle where
  scope := h.scope.trans hm.scope
  frames := h.calls ▸ hm.frames
  site := h.site.trans hm.site

/-- A machine that is made idle has nothing under way. -/
theorem idle_isIdle (m : Machine) : m.idle.Idle := ⟨rfl, rfl, rfl⟩

/-- A program that runs on an idle machine leaves it idle, whether it succeeds or fails. -/
theorem Idle.interpret {m : Machine} (hm : m.Idle) (fuel : Nat) (program : List Stmt) :
    (m.interpret fuel program).2.Idle := by
  induction program generalizing m with
  | nil => exact hm
  | cons s rest ih =>
    have h := ((engine_restoring fuel).execute s).restored m
    unfold Machine.interpret Machine.interpretBy
    split
    · next hr =>
      rw [Exec.final_ok hr] at h
      exact ih (h.isIdle hm)
    · split <;> exact idle_isIdle _

/-- A step that is asked for from outside leaves an idle machine idle. -/
theorem Idle.ask {m : Machine} (hm : m.Idle) {α : Type} {x : Exec α} (hx : Restores x) :
    (m.ask x).2.Idle := by
  have h := hx.restored m
  unfold Machine.ask
  split
  · next hr =>
    rw [Exec.final_ok hr] at h
    exact h.isIdle hm
  · next hr =>
    rw [Exec.final_error hr] at h
    split <;> exact h.isIdle hm

/-- The machines that are at hand between programs. -/
inductive Reachable : Machine → Prop where
  /-- A new machine. -/
  | initial : Reachable .initial
  /-- A program was run, to its end or to its first error. -/
  | interpret {m : Machine} (h : Reachable m) (fuel : Nat) (program : List Stmt) :
    Reachable (m.interpret fuel program).2
  /-- The distances of the next program were added. -/
  | addDistances {m : Machine} (h : Reachable m) (ds : Scope.Distances) :
    Reachable (m.addDistances ds)
  /-- The bound on the active calls was changed. -/
  | setMaxDepth {m : Machine} (h : Reachable m) (maxDepth : Int) : Reachable { m with maxDepth }
  /-- Another output or another time was set. -/
  | setOutside {m : Machine} (h : Reachable m) (output : Output) (now : Float) :
    Reachable { m with output, now }
  /-- A global was defined. -/
  | defineGlobal {m : Machine} (h : Reachable m) (name : String) (v : Value) :
    Reachable (m.defineGlobal name v)
  /-- A value was called. -/
  | call {m : Machine} (h : Reachable m) (fuel : Nat) (callee : Value) (args : List Value) :
    Reachable (m.call fuel callee args).2
  /-- A message was sent. -/
  | send {m : Machine} (h : Reachable m) (fuel : Nat) (receiver : Value) (name : String)
      (args : List Value) :
    Reachable (m.send fuel receiver name args).2
  /-- A value was asked for its text. -/
  | stringify {m : Machine} (h : Reachable m) (fuel : Nat) (v : Value) :
    Reachable (m.stringify fuel v).2

/-- Between programs a machine has nothing under way. -/
theorem Reachable.isIdle {m : Machine} (h : m.Reachable) : m.Idle := by
  -- The last three run code of the program, and that gives back what it puts on the stack.
  induction h with
  | initial => exact ⟨rfl, rfl, rfl⟩
  | interpret _ fuel program ih => exact ih.interpret fuel program
  | addDistances _ ds ih => exact ⟨ih.scope, ih.frames, ih.site⟩
  | setMaxDepth _ maxDepth ih => exact ⟨ih.scope, ih.frames, ih.site⟩
  | setOutside _ output now ih => exact ⟨ih.scope, ih.frames, ih.site⟩
  | defineGlobal _ name v ih => exact ⟨ih.scope, ih.frames, ih.site⟩
  | call _ fuel callee args ih => exact ih.ask ((engine_restoring fuel).invoke ..)
  | send _ fuel receiver name args ih =>
    exact ih.ask (Engine.restores_send (engine_restoring fuel) ..)
  | stringify _ fuel v ih => exact ih.ask (Engine.restores_stringify (engine_restoring fuel) v)

end Machine

/-- The bookkeeping of a run. Whatever is asked of a machine, and however it ends, the current
scope, the active calls and the call site are afterwards what they were, and at no time were more
calls active than the bound allows or were active before. So a program that starts on a new
machine, or after other programs, leaves the machine idle, whether it succeeds or fails. -/
theorem bookkeeping_restored :
    (∀ (levels : Nat) (task : Task) (m m' : Machine),
      Exec.final (task.steps (engine levels)) m = m' →
        m'.scope = m.scope ∧ m'.calls.frames = m.calls.frames ∧ m'.site = m.site ∧
        m.deepest ≤ m'.deepest ∧
        m'.deepest ≤ max m.deepest (max m.maxDepth.toNat m.calls.frames.length)) ∧
    ∀ (m : Machine), m.Reachable → ∀ (fuel : Nat) (program : List Stmt),
      (m.interpret fuel program).2.scope = globalScope ∧
      (m.interpret fuel program).2.calls.frames = [] ∧
      (m.interpret fuel program).2.site = .absent := by
  constructor
  · rintro levels task m _ rfl
    have h := (task.restores_steps (engine_restoring levels)).restored m
    refine ⟨h.scope, congrArg Calls.frames h.calls, h.site, h.mark, ?_⟩
    rw [← m.calls.depth_eq]
    exact h.deepest
  · intro m hm fuel program
    have h := hm.isIdle.interpret fuel program
    exact ⟨h.scope, h.frames, h.site⟩

/-- A program that reads an unbound variable on a new machine. -/
theorem bookkeeping_restored_unbound :
    (Machine.initial.interpret 2 [.expr 0 (.var ⟨1, .synthetic "x"⟩)]).2.scope = globalScope ∧
    (Machine.initial.interpret 2 [.expr 0 (.var ⟨1, .synthetic "x"⟩)]).2.calls.frames = [] ∧
    (Machine.initial.interpret 2 [.expr 0 (.var ⟨1, .synthetic "x"⟩)]).2.site = .absent :=
  bookkeeping_restored.2 .initial .initial 2 _

end ClassScript
