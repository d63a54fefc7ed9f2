import ClassScript.Proofs.Hierarchy.Height
import ClassScript.Proofs.Machine.Founding

/-!
# Every search on a machine comes to an end

What is within reach on a machine are the values in its store, the values at hand, and everything
that these are made of: parts, classes with their superclasses, and functions. A machine is grounded
if the superclasses within reach have no cycle, the current scope and those that functions keep lead
outward to the outermost one, and so every search through superclasses or scopes ends within as many
generations as there are identities or scopes. Founded machines are, and so is every machine that
programs and calls from outside can lead to, at every step on the way.
-/

namespace ClassScript

open Exec (Obeys)

/-! ### What is within reach -/

/-- What searches start from. -/
inductive Thing where
  /-- A value. -/
  | value (v : Value)
  /-- A class of the program. -/
  | class (c : Class)
  /-- A function of the program. -/
  | function (fn : Closure)

/-- What a thing is immediately made of. -/
inductive Thing.Part : Thing → Thing → Prop where
  | instance (place : Nat) (cls : Class) : Part (.class cls) (.value (.instance place cls))
  | first (id : ObjectId) (a b : Value) : Part (.value a) (.value (.pair id a b))
  | second (id : ObjectId) (a b : Value) : Part (.value b) (.value (.pair id a b))
  | item (id : ObjectId) {items : List Value} {v : Value} (h : v ∈ items) :
    Part (.value v) (.value (.varargs id items))
  | result (id : ObjectId) (v : Value) (isEnd : Bool) :
    Part (.value v) (.value (.iteratorResult id v isEnd))
  | class (cls : Class) : Part (.class cls) (.value (.class cls))
  | closure (fn : Closure) : Part (.function fn) (.value (.closure fn))
  | receiver (id : ObjectId) (v : Value) (method : NativeMethod) :
    Part (.value v) (.value (.boundMethod id v method))
  | superclass {classes : List Class} {c : Class} (h : c ∈ classes) :
    Part (.class c) (.value (.superclasses classes))
  | super {c s : Class} (h : s ∈ c.supers) : Part (.class s) (.class c)
  | method {c : Class} {p : String × Closure} (h : p ∈ c.methods) :
    Part (.function p.2) (.class c)

/-- What is within reach on a machine with some values at hand. -/
inductive Machine.Has (m : Machine) (held : List Value) : Thing → Prop where
  /-- A value at hand. -/
  | held {v : Value} (h : v ∈ held) : Has m held (.value v)
  /-- The value of a name in a scope. -/
  | bound {i : ScopeId} {name : String} {v : Value}
    (h : (m.store.environments.bindings i)[name]? = some v) : Has m held (.value v)
  /-- The value of a field of an object. -/
  | field {place : Nat} {fields : Bindings} {name : String} {v : Value}
    (h : m.store.fields[place]? = some fields) (hv : fields[name]? = some v) :
    Has m held (.value v)
  /-- An item of a list, or a key in the order of a map. -/
  | slot {block i : Nat} {v : Value} (h : m.store.blocks.slot? block i = some v) :
    Has m held (.value v)
  /-- A key of a map. -/
  | key {place : Nat} {o : MapObject} {e : Value × Value} (h : m.store.maps[place]? = some o)
    (he : e ∈ o.entries) : Has m held (.value e.1)
  /-- The value of a key. -/
  | entry {place : Nat} {o : MapObject} {e : Value × Value} (h : m.store.maps[place]? = some o)
    (he : e ∈ o.entries) : Has m held (.value e.2)
  /-- A collected argument that an iterator is still to yield. -/
  | argument {i : Nat} {rest : List Value} {v : Value}
    (h : m.store.iterators[i]? = some (.arguments rest)) (hv : v ∈ rest) : Has m held (.value v)
  /-- A key that an iterator is still to yield. -/
  | remaining {i place : Nat} {keys : List Value} {v : Value}
    (h : m.store.iterators[i]? = some (.entries place keys)) (hv : v ∈ keys) :
    Has m held (.value v)
  /-- A part of something else. -/
  | part {t whole : Thing} (h : Has m held whole) (ht : t.Part whole) : Has m held t

namespace Machine

/-- One identity is that of an immediate superclass of a class with another one. -/
def Inherits (m : Machine) (held : List Value) (a b : ObjectId) : Prop :=
  ∃ c, m.Has held (.class c) ∧ c.id = b ∧ ∃ s ∈ c.supers, s.id = a

/-- The outermost scope lies some steps outward from a scope, at most as many as scopes were made
before. -/
def Outward (m : Machine) (i : ScopeId) : Prop :=
  ∃ d ≤ i, m.store.environments.ancestor? i d = some globalScope

/-- A machine, with values at hand, on which every search comes to an end. -/
structure Grounded (m : Machine) (held : List Value) : Prop where
  /-- No class within reach is, by identity, above itself. -/
  acyclic : WellFounded (m.Inherits held)
  /-- The current scope leads to the outermost one. -/
  scope : m.Outward m.scope
  /-- So does the scope that a function keeps. -/
  function : ∀ fn, m.Has held (.function fn) → m.Outward fn.scope
  /-- So does every scope outward from one that does. -/
  ancestor : ∀ i d j, m.Outward i → m.store.environments.ancestor? i d = some j → m.Outward j
  /-- A lookup on a class ends. -/
  lookup : ∀ c name n, m.Has held (.class c) → m.store.nextId ≤ n →
    Class.hierarchy.lookupUpTo name n c = some (c.lookup name)
  /-- A lookup on superclasses ends. -/
  lookupSupers : ∀ cs name n, (∀ c ∈ cs, m.Has held (.class c)) → m.store.nextId ≤ n →
    Class.hierarchy.lookupSupersUpTo name n cs = some (Class.hierarchy.lookupSupers name cs)
  /-- The question whether a class inherits from another one is answered. -/
  isSubclassOf : ∀ c (other : Class) n, m.Has held (.class c) → m.store.nextId ≤ n →
    inheritsUpTo Class.supers (fun c => c.id = other.id) n c = some (Class.isSubclassOf other c)
  /-- The value of a name is searched for in no more scopes than lie on the way outward. -/
  get : ∀ i d name, m.store.environments.ancestor? i d = some globalScope →
    m.store.environments.getUpTo name (d + 1) i = some (m.store.environments.get? i name)
  /-- So is the scope that an assignment changes. -/
  assign : ∀ i d name v, m.store.environments.ancestor? i d = some globalScope →
    m.store.environments.assignUpTo name v (d + 1) i = some (m.store.environments.assign i name v)

end Machine

/-! ### Founded machines are grounded -/

/-- A thing that refers to what is older. -/
def Thing.Within (w : World) : Thing → Prop
  | .value v => v.Within w
  | .class c => c.Within w
  | .function fn => fn.Within w

/-- The parts of a thing that refers to what is older do so too. -/
theorem Thing.Part.within {w : World} {t whole : Thing} (h : t.Part whole)
    (hw : whole.Within w) : t.Within w := by
  cases h with
  | «instance» place cls => exact Value.All.instance_iff.1 hw
  | first id a b => exact (Value.All.pair_iff.1 hw).1
  | second id a b => exact (Value.All.pair_iff.1 hw).2
  | item id h => exact Value.All.varargs_iff.1 hw _ h
  | result id v isEnd => exact Value.All.iteratorResult_iff.1 hw
  | «class» cls => exact Value.All.class_iff.1 hw
  | closure fn => exact Value.All.closure_iff.1 hw
  | receiver id v method => exact Value.All.boundMethod_iff.1 hw
  | superclass h => exact Value.All.superclasses_iff.1 hw _ h
  | super h => exact Class.Within.supers hw _ h
  | method h => exact Class.Within.methods hw _ h

/-- A class is another one or has a superclass that inherits from it. -/
theorem Class.isSubclassOf_eq (other c : Class) :
    Class.isSubclassOf other c =
      (decide (c.id = other.id) || c.supers.any (Class.isSubclassOf other)) := by
  have hany : ∀ cs : List Class,
      Class.anySubclassOf other cs = cs.any (Class.isSubclassOf other) := by
    intro cs
    induction cs with
    | nil => rfl
    | cons c rest ih => rw [Class.anySubclassOf, ih, List.any_cons]
  obtain ⟨id, name, supers, methods⟩ := c
  rw [Class.isSubclassOf, hany]

namespace Machine.Founded

variable {m : Machine} {held : List Value}

/-- What is within reach refers to what is older. -/
theorem within (hm : m.Founded) (hheld : ∀ v ∈ held, v.Within m.world) {t : Thing}
    (h : m.Has held t) : t.Within m.world := by
  induction h with
  | held h => exact hheld _ h
  | bound h => exact hm.bindings _ _ _ h
  | field h hv => exact hm.contents.fields _ _ h _ _ hv
  | slot h => exact hm.contents.blocks.slot? h
  | key h he => exact (hm.contents.maps _ _ h _ he).1
  | entry h he => exact (hm.contents.maps _ _ h _ he).2
  | argument h hv => exact hm.contents.iterators _ _ h _ hv
  | remaining h hv => exact hm.contents.iterators _ _ h _ hv
  | part _ ht ih => exact ht.within ih

/-- On a founded machine the outermost scope lies outward from every scope. -/
theorem outward (hm : m.Founded) {i : ScopeId} (hi : i < m.world.scopes) : m.Outward i :=
  hm.rooted.reaches hi

/-- Superclasses lie below a class, down to the first identity. -/
theorem height {w : World} {c : Class} (hc : c.Within w) {n : Nat} (hn : w.ids ≤ n) :
    Height Class.supers n c :=
  Height.of_descends Class.id (fun _ hc s hs => ⟨hc.supers s hs, hc.older s hs⟩) hc
    (Nat.lt_of_lt_of_le hc.id_lt hn)

/-- Founded machines are grounded, with all values at hand that refer to what is older. -/
theorem grounded (hm : m.Founded) (hheld : ∀ v ∈ held, v.Within m.world) : m.Grounded held where
  acyclic := by
    -- Superclasses have smaller identities, so a chain of them is one of falling numbers.
    refine Subrelation.wf (r := (· < ·)) ?_ Nat.lt_wfRel.wf
    rintro _ _ ⟨c, hc, rfl, s, hs, rfl⟩
    exact (show c.Within m.world from hm.within hheld hc).older s hs
  scope := hm.outward hm.scope
  function fn h := hm.outward (hm.within hheld h)
  ancestor i d j _ h := hm.outward (Environments.lt_of_ancestor? h)
  lookup c name n h hn := Hierarchy.lookupUpTo_eq (height (hm.within hheld h) hn)
  lookupSupers cs name n h hn :=
    Hierarchy.lookupSupersUpTo_eq fun c hc => height (hm.within hheld (h c hc)) hn
  isSubclassOf c other n h hn :=
    inheritsUpTo_eq (Class.isSubclassOf_eq other) (height (hm.within hheld h) hn)
  get i d name h := Environments.getUpTo_eq (Environments.parent?_globalScope _) h
  assign i d name v h := Environments.assignUpTo_eq (Environments.parent?_globalScope _) h

end Machine.Founded

/-! ### Supervised execution -/

open Classical in
/-- A step that looks at the machine in front of it and behind it, with the values at hand, and
stops if a search might not come to an end there. -/
noncomputable def Exec.guard {α : Type} (alarm : Interrupt) (held : List Value)
    (values : α → List Value) (x : Exec α) : Exec α := fun m =>
  if m.Grounded held ∧ (∀ a m', x m = .ok a m' → m'.Grounded (values a)) ∧
      (∀ e m', x m = .error e m' → m'.Grounded []) then x m
  else .error alarm m

/-- The value that a statement leaves a function with. -/
def Completion.values : Completion → List Value
  | .normal => []
  | .returning v => [v]

/-- The machine's execution, with a guard around every expression, statement and call. -/
noncomputable def supervised (alarm : Interrupt) : Nat → Engine
  | 0 => engine 0
  | levels + 1 =>
    { fuel := levels
      evaluate := fun e =>
        Exec.guard alarm [] (fun v => [v]) ((supervised alarm levels).evaluateWith e)
      execute := fun s =>
        Exec.guard alarm [] Completion.values ((supervised alarm levels).executeWith s)
      invoke := fun site callee positional named =>
        Exec.guard alarm (callee :: positional ++ named.map Prod.snd) (fun v => [v])
          ((supervised alarm levels).invokeWith site callee positional named) }

/-- The value in a completion refers to what is older. -/
theorem Completion.Within.values {w : World} {c : Completion} (h : c.Within w) :
    ∀ v ∈ c.values, v.Within w := by
  cases c with
  | normal => exact List.forall_mem_nil _
  | returning v => exact List.forall_mem_singleton.2 h

section Guard

variable {α : Type} {m : Machine} {x y : Exec α} {Q : α → Machine → Prop} {alarm : Interrupt}
  {held : List Value} {values : α → List Value}

/-- On a founded machine a guard changes nothing. -/
theorem Exec.Obeys.guard (h : Obeys .founded m x y Q) (hheld : ∀ v ∈ held, v.Within m.world)
    (hQ : ∀ a m', Q a m' → ∀ v ∈ values a, v.Within m'.world) :
    Obeys .founded m x (Exec.guard alarm held values y) Q := by
  refine .of_eq rfl (fun hm => ?_) h.ok h.error
  have hsame := h.eq rfl hm
  unfold Exec.guard
  -- What the guard asks for holds of every founded machine, so it lets the step pass.
  rw [hsame, if_pos]
  refine ⟨hm.grounded hheld, fun a m' hr => ?_, fun e m' hr => ?_⟩
  · obtain ⟨-, hm', hq⟩ := h.ok hm hr
    exact hm'.grounded (hQ a m' hq)
  · exact (h.error hm hr).2.grounded (List.forall_mem_nil _)

/-- Guards change nothing on founded machines, which stay founded. -/
theorem founds_supervised (alarm : Interrupt) (levels : Nat) :
    Engine.Founds (engine levels) (supervised alarm levels) := by
  have value : ∀ (v : Value) (m : Machine), v.Within m.world → ∀ u ∈ [v], u.Within m.world :=
    fun _ _ hv => List.forall_mem_singleton.2 hv
  -- The parts of a step run one level down, on engines that agree by the hypothesis.
  induction levels with
  | zero =>
    exact ⟨⟨Regime.founded_binds, fun {_} _ {_ _ _} _ _ _ => .throw _⟩, rfl,
      fun {_} _ => .throw _, fun {_} _ => .throw _⟩
  | succ levels ih =>
    refine ⟨⟨Regime.founded_binds, fun {m} site {callee positional named} hc hp hn => ?_⟩, rfl,
      fun e => ?_, fun s => ?_⟩
    · refine (Engine.founds_invokeWith ih site hc hp hn).guard ?_ value
      rw [List.cons_append, List.forall_mem_cons, List.forall_mem_append, List.forall_mem_map]
      exact ⟨hc, hp, hn⟩
    · exact (Engine.founds_evaluateWith ih e).guard (List.forall_mem_nil _) value
    · exact (Engine.founds_executeWith ih s).guard (List.forall_mem_nil _) fun _ _ =>
        Completion.Within.values

end Guard

/-! ### Programs and calls from outside -/

namespace Machine

/-- The result of a step that is asked for from outside, if it has one. -/
def Reply.value? {α : Type} : Reply α → Option α
  | .value a => some a
  | _ => none

/-- The machines that programs and calls from outside lead to, each with the values that are at hand
outside. -/
inductive Reached : Machine → List Value → Prop where
  /-- A new machine. -/
  | initial : Reached .initial []
  /-- A program was run, whatever its uses were resolved to. -/
  | run {m : Machine} {held : List Value} (h : Reached m held) (distances : Scope.Distances)
    (fuel : Nat) (program : List Stmt) :
    Reached ((m.addDistances distances).interpret fuel program).2 held
  /-- The bound on the active calls, the output or the time was changed. -/
  | adjust {m : Machine} {held : List Value} (h : Reached m held) (maxDepth : Int)
    (output : Output) (now : Float) : Reached { m with maxDepth, output, now } held
  /-- A value was made outside. -/
  | literal {m : Machine} {held : List Value} (h : Reached m held) (l : Literal) :
    Reached m (.ofLiteral l :: held)
  /-- The value of a global name was read. -/
  | read {m : Machine} {held : List Value} (h : Reached m held) {name : String} {v : Value}
    (hv : m.global? name = some v) : Reached m (v :: held)
  /-- A global name was bound. -/
  | define {m : Machine} {held : List Value} (h : Reached m held) (name : String) {v : Value}
    (hv : v ∈ held) : Reached (m.defineGlobal name v) held
  /-- A value was called. -/
  | call {m : Machine} {held : List Value} (h : Reached m held) (fuel : Nat) {callee : Value}
    {args : List Value} (hc : callee ∈ held) (ha : args ⊆ held) :
    Reached (m.call fuel callee args).2 ((m.call fuel callee args).1.value?.toList ++ held)
  /-- A message was sent. -/
  | send {m : Machine} {held : List Value} (h : Reached m held) (fuel : Nat) {receiver : Value}
    (name : String) {args : List Value} (hr : receiver ∈ held) (ha : args ⊆ held) :
    Reached (m.send fuel receiver name args).2
      ((m.send fuel receiver name args).1.value?.toList ++ held)
  /-- A value was asked for its text. -/
  | stringify {m : Machine} {held : List Value} (h : Reached m held) (fuel : Nat) {v : Value}
    (hv : v ∈ held) : Reached (m.stringify fuel v).2 held

namespace Founded

variable {m : Machine}

/-- A founded machine stays so when it is made idle. -/
theorem idle (hm : m.Founded) : m.idle.Founded :=
  ⟨Nat.lt_of_le_of_lt (Nat.zero_le _) hm.scope, hm.rooted, hm.bindings, hm.contents⟩

/-- A program does the same on engines that agree, and ends on a founded machine. -/
theorem interpretBy {eng eng' : Engine} (h : Engine.Founds eng eng') (hm : m.Founded)
    (program : List Stmt) :
    m.interpretBy eng' program = m.interpretBy eng program ∧
      (m.interpretBy eng program).2.Founded ∧
      m.world ≤ (m.interpretBy eng program).2.world := by
  induction program generalizing m with
  | nil => exact ⟨rfl, hm, le_refl _⟩
  | cons s rest ih =>
    have hstep := h.execute (m := m) s
    unfold Machine.interpretBy
    rw [hstep.eq rfl hm]
    cases hr : eng.execute s m with
    | ok c m' =>
      -- The program goes on with the next statement.
      obtain ⟨hl, hm', -⟩ := hstep.ok hm hr
      obtain ⟨hsame, hfounded, hl'⟩ := ih hm'
      exact ⟨hsame, hfounded, le_trans hl hl'⟩
    | error e m' =>
      -- An error ends it, and the machine is made idle.
      obtain ⟨hl, hm'⟩ := hstep.error hm hr
      have hidle := hm'.idle
      refine ⟨rfl, ?_⟩
      dsimp only
      split <;> exact ⟨hidle, hl⟩

/-- A step that is asked for from outside. -/
theorem ask {α : Type} {x y : Exec α} {Q : α → Machine → Prop} (hm : m.Founded)
    (h : Exec.Obeys .founded m x y Q) :
    (m.ask x).2.Founded ∧ m.world ≤ (m.ask x).2.world ∧
      ∀ a ∈ (m.ask x).1.value?, Q a (m.ask x).2 := by
  unfold Machine.ask
  cases hr : x m with
  | ok a m' =>
    obtain ⟨hl, hm', hq⟩ := h.ok hm hr
    refine ⟨hm', hl, ?_⟩
    rintro _ ⟨⟩
    exact hq
  | error e m' =>
    -- What is raised is answered, and the machine keeps what was done before.
    obtain ⟨hl, hm'⟩ := h.error hm hr
    dsimp only
    split <;> exact ⟨hm', hl, nofun⟩

end Founded

/-- A machine that was reached is founded, and so are the values at hand. -/
theorem Reached.founded {m : Machine} {held : List Value} (h : m.Reached held) :
    m.Founded ∧ ∀ v ∈ held, v.Within m.world := by
  -- What was at hand refers to what is older on every later machine.
  have later : ∀ {m m' : Machine} {held : List Value}, m.world ≤ m'.world →
      (∀ v ∈ held, v.Within m.world) → ∀ v ∈ held, v.Within m'.world := fun hl hheld v hv =>
    (hheld v hv).mono hl
  -- An answer to a question from outside is at hand from then on.
  have answered : ∀ {m : Machine} {held : List Value} {x y : Exec Value}, m.Founded →
      (∀ v ∈ held, v.Within m.world) → Exec.Yields .founded m x y →
      (m.ask x).2.Founded ∧
        ∀ v ∈ (m.ask x).1.value?.toList ++ held, v.Within (m.ask x).2.world := by
    intro m held x y hm hheld hx
    obtain ⟨hm', hl, hv⟩ := hm.ask hx
    refine ⟨hm', List.forall_mem_append.2 ⟨fun v hmem => ?_, later hl hheld⟩⟩
    exact hv v (Option.mem_toList.1 hmem)
  have engines := founds_supervised .fault
  -- On the steps from outside that lead to the machine.
  induction h with
  | initial => exact ⟨founded_initial, List.forall_mem_nil _⟩
  | @run m held _ distances fuel program ih =>
    have hm : (m.addDistances distances).Founded :=
      ⟨ih.1.scope, ih.1.rooted, ih.1.bindings, ih.1.contents⟩
    obtain ⟨-, hfounded, hl⟩ := hm.interpretBy (engines fuel) program
    exact ⟨hfounded, later hl ih.2⟩
  | adjust _ _ _ _ ih => exact ⟨⟨ih.1.scope, ih.1.rooted, ih.1.bindings, ih.1.contents⟩, ih.2⟩
  | literal _ l ih =>
    exact ⟨ih.1, List.forall_mem_cons.2 ⟨.flat (by cases l <;> trivial), ih.2⟩⟩
  | read _ hv ih => exact ⟨ih.1, List.forall_mem_cons.2 ⟨ih.1.bindings _ _ _ hv, ih.2⟩⟩
  | @define m held _ name v hv ih =>
    have hl : m.world ≤ (m.defineGlobal name v).world :=
      ⟨Nat.le_refl _, (Environments.grows_define ..).size_le⟩
    exact ⟨ih.1.define globalScope name (ih.2 v hv) _, later hl ih.2⟩
  | call _ fuel hc ha ih =>
    exact answered ih.1 ih.2 ((engines fuel).invoke _ (ih.2 _ hc) (fun v hv => ih.2 v (ha hv))
      (List.forall_mem_nil _))
  | send _ fuel name hr ha ih =>
    exact answered ih.1 ih.2 (Engine.yields_send (engines fuel).toCallsBy _ name (ih.2 _ hr)
      fun v hv => ih.2 v (ha hv))
  | stringify _ fuel hv ih =>
    obtain ⟨hm, hl, -⟩ := ih.1.ask (Engine.abides_stringify (engines fuel).toCallsBy (ih.2 _ hv))
    exact ⟨hm, later hl ih.2⟩

end Machine

end ClassScript
