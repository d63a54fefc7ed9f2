import ClassScript.Proofs.Machine.Regime

/-!
# Functions of a kind

A condition on the declaration of a function and on the method it refers to. A value meets it if
every function does that can be reached from the value without the store, and a store meets it if
everything in it does. What a function keeps besides may change: a method that gets a receiver
meets what it met before.

`Exec.Stays` compares two steps on machines that meet a condition and whose innermost call refers to
a given method: they do the same there, and the condition and the method stay. Such machines are a
regime, so most rules are those of every regime; only a call leads from one method to another.
-/

namespace ClassScript

/-- A condition on the declaration of a function and the method it refers to. -/
abbrev Condition := Lambda → String → Prop

/-! ### Values -/

/-- A function that meets a condition. -/
def Closure.Meets (P : Condition) (fn : Closure) : Prop := P fn.declaration fn.home

/-- A class whose own and inherited methods meet a condition. -/
inductive Class.Meets (P : Condition) : Class → Prop where
  /-- The superclasses and the methods meet the condition. -/
  | mk {c : Class} (supers : ∀ s ∈ c.supers, Class.Meets P s)
    (methods : ∀ m ∈ c.methods, m.2.Meets P) : Class.Meets P c

/-- A value from which only functions can be reached that meet a condition. -/
inductive Value.Meets (P : Condition) : Value → Prop where
  | nil : Value.Meets P .nil
  | bool (b : Bool) : Value.Meets P (.bool b)
  | int (n : Int64) : Value.Meets P (.int n)
  | float (x : Float) : Value.Meets P (.float x)
  | string (s : String) : Value.Meets P (.string s)
  | list (place : Nat) : Value.Meets P (.list place)
  | map (place : Nat) : Value.Meets P (.map place)
  | iterator (place : Nat) : Value.Meets P (.iterator place)
  | instance (place : Nat) {cls : Class} (h : cls.Meets P) : Value.Meets P (.instance place cls)
  | pair (id : ObjectId) {a b : Value} (ha : Value.Meets P a) (hb : Value.Meets P b) :
    Value.Meets P (.pair id a b)
  | varargs (id : ObjectId) {items : List Value} (h : ∀ v ∈ items, Value.Meets P v) :
    Value.Meets P (.varargs id items)
  | iteratorResult (id : ObjectId) {v : Value} (isEnd : Bool) (h : Value.Meets P v) :
    Value.Meets P (.iteratorResult id v isEnd)
  | class {cls : Class} (h : cls.Meets P) : Value.Meets P (.class cls)
  | closure {fn : Closure} (h : fn.Meets P) : Value.Meets P (.closure fn)
  | nativeClass (cls : NativeClass) : Value.Meets P (.nativeClass cls)
  | nativeFunction (fn : NativeFunction) : Value.Meets P (.nativeFunction fn)
  | boundMethod (id : ObjectId) {receiver : Value} (method : NativeMethod)
    (h : Value.Meets P receiver) : Value.Meets P (.boundMethod id receiver method)
  | superclasses {classes : List Class} (h : ∀ c ∈ classes, c.Meets P) :
    Value.Meets P (.superclasses classes)

namespace Value.Meets

variable {P : Condition}

/-- A value without parts has no functions. -/
theorem flat {v : Value} (h : v.Flat) : v.Meets P := by
  cases v <;> first
    | exact h.elim
    | constructor

/-- A pair meets a condition if both of its values do. -/
theorem pair_iff {id : ObjectId} {a b : Value} :
    (Value.pair id a b).Meets P ↔ a.Meets P ∧ b.Meets P := by
  constructor
  · intro h
    cases h with
    | pair _ ha hb => exact ⟨ha, hb⟩
  · exact fun h => .pair id h.1 h.2

/-- Collected arguments meet it if each one does. -/
theorem varargs_iff {id : ObjectId} {items : List Value} :
    (Value.varargs id items).Meets P ↔ ∀ v ∈ items, v.Meets P := by
  constructor
  · intro h
    cases h with
    | varargs _ h => exact h
  · exact .varargs id

/-- An iterator's reply meets it if its element does. -/
theorem iteratorResult_iff {id : ObjectId} {v : Value} {isEnd : Bool} :
    (Value.iteratorResult id v isEnd).Meets P ↔ v.Meets P := by
  constructor
  · intro h
    cases h with
    | iteratorResult _ _ h => exact h
  · exact .iteratorResult id isEnd

/-- A native method meets it if its receiver does. -/
theorem boundMethod_iff {id : ObjectId} {receiver : Value} {method : NativeMethod} :
    (Value.boundMethod id receiver method).Meets P ↔ receiver.Meets P := by
  constructor
  · intro h
    cases h with
    | boundMethod _ _ h => exact h
  · exact .boundMethod id method

end Value.Meets

section Weaken

variable {P Q : Condition}

/-- A class meets a weaker condition. -/
theorem Class.Meets.weaken (hPQ : ∀ fn home, P fn home → Q fn home) {c : Class} (h : c.Meets P) :
    c.Meets Q := by
  induction h with
  | mk supers methods ih => exact .mk ih fun m hm => hPQ _ _ (methods m hm)

/-- A value that meets a condition meets every weaker one. -/
theorem Value.Meets.weaken (hPQ : ∀ fn home, P fn home → Q fn home) {v : Value} (h : v.Meets P) :
    v.Meets Q := by
  -- The condition is only about functions; what holds values is weakened in its parts.
  induction h with
  | nil => exact .nil
  | bool b => exact .bool b
  | int n => exact .int n
  | float x => exact .float x
  | string s => exact .string s
  | list place => exact .list place
  | map place => exact .map place
  | iterator place => exact .iterator place
  | «instance» place h => exact .instance place (h.weaken hPQ)
  | pair id _ _ iha ihb => exact .pair id iha ihb
  | varargs id _ ih => exact .varargs id ih
  | iteratorResult id isEnd _ ih => exact .iteratorResult id isEnd ih
  | «class» h => exact .class (h.weaken hPQ)
  | closure h => exact .closure (hPQ _ _ h)
  | nativeClass cls => exact .nativeClass cls
  | nativeFunction fn => exact .nativeFunction fn
  | boundMethod id method _ ih => exact .boundMethod id method ih
  | superclasses h => exact .superclasses fun c hc => (h c hc).weaken hPQ

end Weaken

/-! ### Stores and machines -/

/-- A store in which everything meets a condition. -/
structure Store.Meets (P : Condition) (s : Store) : Prop where
  /-- The values that scopes bind meet it. -/
  bindings : ∀ (i : ScopeId) (name : String) (v : Value),
    (s.environments.bindings i)[name]? = some v → v.Meets P
  /-- Everything else meets it. -/
  contents : s.Contents (Value.Meets P)

namespace Store.Meets

variable {P : Condition} {s : Store}

/-- A store meets a weaker condition. -/
theorem weaken {Q : Condition} (hPQ : ∀ fn home, P fn home → Q fn home) (h : s.Meets P) :
    s.Meets Q where
  bindings i name v hv := (h.bindings i name v hv).weaken hPQ
  contents := h.contents.mono fun _ hv => hv.weaken hPQ

/-- A change outside of the scopes. -/
theorem change {s' : Store} (h : s.Meets P) (he : s'.environments = s.environments)
    (hc : s'.Contents (Value.Meets P)) : s'.Meets P where
  bindings i name v hv := h.bindings i name v (he ▸ hv)
  contents := hc

/-- A further scope. -/
theorem pushScope (h : s.Meets P) (origin : Scope.Origin) (parent : Option ScopeId) :
    Store.Meets P { s with environments := s.environments.push origin parent } where
  bindings i name v hv := by
    rw [Environments.bindings_push] at hv
    exact h.bindings i name v hv
  contents := { h.contents with }

/-- A name gets a value. -/
theorem assign (h : s.Meets P) (i : ScopeId) (name : String) {v : Value} (hv : v.Meets P) :
    Store.Meets P { s with environments := s.environments.define i name v } where
  bindings j x w hw := by
    rw [Environments.getElem?_bindings_define] at hw
    split at hw
    · cases hw
      exact hv
    · exact h.bindings j x w hw
  contents := { h.contents with }

/-- What the outward scopes bind a name to. -/
theorem getAt? (h : s.Meets P) {i : ScopeId} {d : Nat} {name : String} {v : Value}
    (hv : s.environments.getAt? i d name = some v) : v.Meets P := by
  obtain ⟨j, -, hj⟩ := Option.bind_eq_some_iff.1 hv
  exact h.bindings j name v hj

end Store.Meets

/-- A machine that meets a condition, inside a call that refers to a method. -/
structure Machine.At (P : Condition) (home : String) (m : Machine) : Prop where
  /-- The store meets the condition. -/
  store : m.store.Meets P
  /-- The innermost call refers to the method. -/
  home : m.home = home

/-- A change outside of scopes and calls. -/
theorem Machine.At.quiet {P : Condition} {home : String} {m m' : Machine} (h : m.At P home)
    (hq : m.Quiet m') (hc : m'.store.Contents (Value.Meets P)) : m'.At P home := by
  refine ⟨h.store.change hq.environments hc, ?_⟩
  unfold Machine.home
  rw [hq.calls]
  exact h.home

/-- Machines that meet a condition inside a call that refers to a method, with values that meet the
condition. A step leaves the active calls as they were. -/
abbrev Regime.meets (P : Condition) (home : String) : Regime where
  Inv := Machine.At P home
  Holds _ := Value.Meets P
  Later m m' := m'.calls = m.calls
  refl _ := rfl
  trans h h' := h'.trans h
  holds _ hv := hv
  contents hm := hm.store.contents
  quiet hm hq hc := ⟨hm.quiet hq hc, hq.calls⟩
  enterSite hm := ⟨hm.store, hm.home⟩
  leaveSite hm h := ⟨⟨hm.store, hm.home⟩, h⟩
  holdsSite hv := hv
  flat := .flat
  pair := Value.Meets.pair_iff
  varargs := Value.Meets.varargs_iff
  iteratorResult := Value.Meets.iteratorResult_iff
  boundMethod := Value.Meets.boundMethod_iff

/-! ### Steps -/

namespace Exec

variable {α β : Type} {P : Condition} {home : String}

/-- Two steps that do the same on machines that meet a condition inside a call that refers to a
method. The machine stays so, with the same active calls, and the result has a property. -/
structure Stays (P : Condition) (home : String) (x y : Exec α) (Q : α → Prop) : Prop where
  /-- The steps do the same. -/
  same : ∀ {m : Machine}, m.At P home → y m = x m
  /-- The machine stays so, and the result has the property. -/
  ok : ∀ {m : Machine}, m.At P home → ∀ {a m'}, x m = .ok a m' →
    m'.calls = m.calls ∧ m'.At P home ∧ Q a
  /-- The machine stays so when the steps are left early. -/
  error : ∀ {m : Machine}, m.At P home → ∀ {e m'}, x m = .error e m' →
    m'.calls = m.calls ∧ m'.At P home

/-- Steps whose result meets the condition. -/
abbrev Supplies (P : Condition) (home : String) (x y : Exec Value) : Prop :=
  Stays P home x y (Value.Meets P)

/-- Steps whose result does not matter. -/
abbrev Runs (P : Condition) (home : String) (x y : Exec α) : Prop := Stays P home x y fun _ => True

/-- A comparison on machines that meet a condition is one on each of them, in their regime. -/
theorem stays_iff {x y : Exec α} {Q : α → Prop} :
    Stays P home x y Q ↔ ∀ m, Obeys (.meets P home) m x y fun a _ => Q a := by
  constructor
  · exact fun h m => .of_eq rfl h.same h.ok h.error
  · exact fun h => ⟨(h _).eq rfl, fun hm _ _ hr => (h _).ok hm hr,
      fun hm _ _ hr => (h _).error hm hr⟩

namespace Stays

variable {x y : Exec α} {Q : α → Prop} {R : β → Prop}

/-! #### Steps without parts -/

/-- A value leaves the machine alone. -/
theorem pure {a : α} (h : Q a) : Stays P home (Pure.pure a) (Pure.pure a) Q :=
  stays_iff.2 fun _ => .pure fun _ => h

/-- So does a step that stops. -/
theorem throw (e : Interrupt) :
    Stays P home (MonadExcept.throw e : Exec α) (MonadExcept.throw e) Q :=
  stays_iff.2 fun _ => .throw e

/-- Something new in the store. -/
theorem allocate {f : Store → Store × α}
    (h : ∀ s : Store, s.Meets P → (f s).1.Meets P ∧ Q (f s).2) :
    Stays P home (Exec.allocate f) (Exec.allocate f) Q := by
  refine stays_iff.2 fun m => .modifyGet (fun _ => rfl) fun hm => ?_
  have hnew := h m.store hm.store
  exact ⟨rfl, ⟨hnew.1, hm.home⟩, hnew.2⟩

/-- A change outside of the calls. -/
theorem modify {f : Machine → Machine} (hs : ∀ m : Machine, m.store.Meets P → (f m).store.Meets P)
    (hc : ∀ m : Machine, (f m).calls = m.calls) :
    Runs P home (MonadState.modifyGet fun m => ((), f m))
      (MonadState.modifyGet fun m => ((), f m)) := by
  refine stays_iff.2 fun m => .modifyGet (fun _ => rfl) fun hm =>
    ⟨hc m, ⟨hs m hm.store, ?_⟩, trivial⟩
  unfold Machine.home
  rw [hc]
  exact hm.home

/-- A step on the store keeps the condition if the store does. -/
theorem update {f : Store → Store} (h : ∀ s : Store, s.Meets P → (f s).Meets P) :
    Runs P home (Exec.update f) (Exec.update f) :=
  modify (fun m => h m.store) fun _ => rfl

/-! #### Steps with parts -/

/-- Steps in a row keep the condition if each of them does. -/
theorem bind {f g : α → Exec β} (hx : Stays P home x y Q)
    (hf : ∀ a, Q a → Stays P home (f a) (g a) R) : Stays P home (x >>= f) (y >>= g) R :=
  stays_iff.2 fun m => (stays_iff.1 hx m).bind fun a m' _ _ ha => stays_iff.1 (hf a ha) m'

/-- Looks at the machine and goes on. -/
theorem getBind {f g : Machine → Exec β}
    (hf : ∀ m : Machine, m.At P home → Stays P home (f m) (g m) R) :
    Stays P home (MonadState.get >>= f) (MonadState.get >>= g) R :=
  stays_iff.2 fun m => .getBind (fun _ => rfl) fun hm => stays_iff.1 (hf m hm) m

/-- Looks at the store and goes on. -/
theorem readBind {r : Store → α} {f g : α → Exec β}
    (hf : ∀ s : Store, s.Meets P → Stays P home (f (r s)) (g (r s)) R) :
    Stays P home (Exec.read r >>= f) (Exec.read r >>= g) R :=
  stays_iff.2 fun m => .readBind (fun _ => rfl) fun hm => stays_iff.1 (hf m.store hm.store) m

/-- A change that is put back on every way out does no harm. -/
theorem around {enter : Machine → Machine} {leave : Machine → Machine → Machine} {home' : String}
    (h : Stays P home' x y Q) (henter : ∀ {m : Machine}, m.At P home → (enter m).At P home')
    (hleave : ∀ {m m' : Machine}, m.At P home → m'.At P home' → m'.calls = (enter m).calls →
      (leave m m').calls = m.calls ∧ (leave m m').At P home) :
    Stays P home (Exec.around enter leave x) (Exec.around enter leave y) Q where
  same {m} hm := by
    unfold Exec.around
    rw [h.same (henter hm)]
  ok {m} hm a m' hr := by
    unfold Exec.around at hr
    -- A result: what was changed is put back, and the condition holds on the way.
    cases hx : x (enter m) with
    | ok b m'' =>
      rw [hx] at hr
      cases hr
      obtain ⟨hcalls, hm'', hb⟩ := h.ok (henter hm) hx
      obtain ⟨hcalls', hm'⟩ := hleave hm hm'' hcalls
      exact ⟨hcalls', hm', hb⟩
    | error e m'' =>
      rw [hx] at hr
      cases hr
  error {m} hm e m' hr := by
    unfold Exec.around at hr
    cases hx : x (enter m) with
    | ok b m'' =>
      rw [hx] at hr
      cases hr
    | error e' m'' =>
      -- So it is where the step stops.
      rw [hx] at hr
      cases hr
      obtain ⟨hcalls, hm''⟩ := h.error (henter hm) hx
      exact hleave hm hm'' hcalls

/-- Inside a further call the innermost call is that one. -/
theorem inFrame (frame : Frame) (h : Stays P frame.home x y Q) :
    Stays P home (Exec.inFrame frame x) (Exec.inFrame frame y) Q := by
  refine h.around (fun hm => ⟨hm.store, rfl⟩) fun {m m'} hm hm' hcalls => ?_
  have hpop : m'.calls.pop = m.calls := congrArg Calls.pop hcalls
  refine ⟨hpop, hm'.store, ?_⟩
  unfold Machine.home
  rw [hpop]
  exact hm.home

end Stays

end Exec

end ClassScript
