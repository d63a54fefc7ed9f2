import Mathlib.Order.Basic
import ClassScript.Proofs.Machine.Handed

/-!
# Everything refers to what is older

A class is made after its superclasses and a scope after the scope around it, and both are numbered
in the order in which they are made. `Machine.Founded` says what this comes to for a machine: in
every value that it holds, a class has superclasses with smaller numbers, no class has a number that
was not given out yet, and no function keeps a scope that was not made yet; and every scope but the
outermost one lies in another one. The lemmas show that making scopes, functions and classes keeps
a machine founded, so that founded machines form a regime.
-/

namespace ClassScript

open Exec (Obeys Yields Abides)

/-! ### Values -/

/-- A value in which every class and every function has a property. What classes have inside is left
to their property. -/
inductive Value.All (C : Class → Prop) (F : Closure → Prop) : Value → Prop where
  | flat {v : Value} (h : v.Flat) : Value.All C F v
  | instance (place : Nat) {cls : Class} (h : C cls) : Value.All C F (.instance place cls)
  | pair (id : ObjectId) {a b : Value} (ha : Value.All C F a) (hb : Value.All C F b) :
    Value.All C F (.pair id a b)
  | varargs (id : ObjectId) {items : List Value} (h : ∀ v ∈ items, Value.All C F v) :
    Value.All C F (.varargs id items)
  | iteratorResult (id : ObjectId) {v : Value} (isEnd : Bool) (h : Value.All C F v) :
    Value.All C F (.iteratorResult id v isEnd)
  | class {cls : Class} (h : C cls) : Value.All C F (.class cls)
  | closure {fn : Closure} (h : F fn) : Value.All C F (.closure fn)
  | boundMethod (id : ObjectId) {receiver : Value} (method : NativeMethod)
    (h : Value.All C F receiver) : Value.All C F (.boundMethod id receiver method)
  | superclasses {classes : List Class} (h : ∀ c ∈ classes, C c) :
    Value.All C F (.superclasses classes)

namespace Value.All

variable {C C' : Class → Prop} {F F' : Closure → Prop}

/-- A property that is implied by another one holds of the parts too. -/
theorem mono (hC : ∀ c, C c → C' c) (hF : ∀ fn, F fn → F' fn) {v : Value} (h : v.All C F) :
    v.All C' F' := by
  induction h with
  | flat h => exact .flat h
  | «instance» place h => exact .instance place (hC _ h)
  | pair id _ _ iha ihb => exact .pair id iha ihb
  | varargs id _ ih => exact .varargs id ih
  | iteratorResult id isEnd _ ih => exact .iteratorResult id isEnd ih
  | «class» h => exact .class (hC _ h)
  | closure h => exact .closure (hF _ h)
  | boundMethod id method _ ih => exact .boundMethod id method ih
  | superclasses h => exact .superclasses fun c hc => hC c (h c hc)

/-- The parts of a pair are its two values. -/
theorem pair_iff {id : ObjectId} {a b : Value} :
    (Value.pair id a b).All C F ↔ a.All C F ∧ b.All C F := by
  constructor
  · rintro (h | _ | ⟨_, ha, hb⟩)
    · exact h.elim
    · exact ⟨ha, hb⟩
  · exact fun h => .pair id h.1 h.2

/-- The parts of collected arguments are these. -/
theorem varargs_iff {id : ObjectId} {items : List Value} :
    (Value.varargs id items).All C F ↔ ∀ v ∈ items, v.All C F := by
  constructor
  · rintro (h | _ | _ | ⟨_, h⟩)
    · exact h.elim
    · exact h
  · exact .varargs id

/-- The part of an iterator's reply is its element. -/
theorem iteratorResult_iff {id : ObjectId} {v : Value} {isEnd : Bool} :
    (Value.iteratorResult id v isEnd).All C F ↔ v.All C F := by
  constructor
  · intro h
    cases h with
    | flat h => exact h.elim
    | iteratorResult _ _ h => exact h
  · exact .iteratorResult id isEnd

/-- The part of a native method is its receiver. -/
theorem boundMethod_iff {id : ObjectId} {receiver : Value} {method : NativeMethod} :
    (Value.boundMethod id receiver method).All C F ↔ receiver.All C F := by
  constructor
  · intro h
    cases h with
    | flat h => exact h.elim
    | boundMethod _ _ h => exact h
  · exact .boundMethod id method

/-- An object is judged by its class. -/
theorem instance_iff {place : Nat} {cls : Class} :
    (Value.instance place cls).All C F ↔ C cls := by
  constructor
  · intro h
    cases h with
    | flat h => exact h.elim
    | «instance» _ h => exact h
  · exact .instance place

/-- A class is judged as it is. -/
theorem class_iff {cls : Class} : (Value.class cls).All C F ↔ C cls := by
  constructor
  · intro h
    cases h with
    | flat h => exact h.elim
    | «class» h => exact h
  · exact .class

/-- So is a function. -/
theorem closure_iff {fn : Closure} : (Value.closure fn).All C F ↔ F fn := by
  constructor
  · intro h
    cases h with
    | flat h => exact h.elim
    | closure h => exact h
  · exact .closure

/-- Superclasses are judged one by one. -/
theorem superclasses_iff {classes : List Class} :
    (Value.superclasses classes).All C F ↔ ∀ c ∈ classes, C c := by
  constructor
  · intro h
    cases h with
    | flat h => exact h.elim
    | superclasses h => exact h
  · exact .superclasses

end Value.All

/-- How many identities were given out, and how many scopes were made. -/
structure World where
  /-- The number of identities. -/
  ids : Nat
  /-- The number of scopes. -/
  scopes : Nat

instance : Preorder World where
  le w w' := w.ids ≤ w'.ids ∧ w.scopes ≤ w'.scopes
  le_refl w := ⟨Nat.le_refl _, Nat.le_refl _⟩
  le_trans _ _ _ h h' := ⟨Nat.le_trans h.1 h'.1, Nat.le_trans h.2 h'.2⟩

variable {w w' : World}

/-- The scope that a function keeps was made. -/
def Closure.Within (w : World) (fn : Closure) : Prop := fn.scope < w.scopes

/-- A class that was made, after its superclasses, and whose methods keep scopes that were made. -/
inductive Class.Within (w : World) : Class → Prop where
  /-- The superclasses have smaller numbers. -/
  | mk {c : Class} (id : c.id < w.ids) (older : ∀ s ∈ c.supers, s.id < c.id)
    (supers : ∀ s ∈ c.supers, Class.Within w s) (methods : ∀ p ∈ c.methods, p.2.Within w) :
    Class.Within w c

/-- A value whose classes and functions refer to what was made before. -/
abbrev Value.Within (w : World) (v : Value) : Prop := v.All (Class.Within w) (Closure.Within w)

/-- A function still refers to what is older when more was made. -/
theorem Closure.Within.mono {fn : Closure} (h : fn.Within w) (hw : w ≤ w') : fn.Within w' :=
  Nat.lt_of_lt_of_le h hw.2

namespace Class.Within

variable {c : Class}

/-- So does a class. -/
theorem mono (h : c.Within w) (hw : w ≤ w') : c.Within w' := by
  induction h with
  | mk id older _ methods ih =>
    exact .mk (Nat.lt_of_lt_of_le id hw.1) older ih fun p hp => (methods p hp).mono hw

/-- The identity of a class was given out. -/
theorem id_lt (h : c.Within w) : c.id < w.ids := by
  cases h with
  | mk id _ _ _ => exact id

/-- The superclasses of a class were made before it. -/
theorem older (h : c.Within w) : ∀ s ∈ c.supers, s.id < c.id := by
  cases h with
  | mk _ older _ _ => exact older

/-- They refer to what is older themselves. -/
theorem supers (h : c.Within w) : ∀ s ∈ c.supers, s.Within w := by
  cases h with
  | mk _ _ supers _ => exact supers

/-- So do the methods of a class. -/
theorem methods (h : c.Within w) : ∀ p ∈ c.methods, p.2.Within w := by
  cases h with
  | mk _ _ _ methods => exact methods

/-- A method that is found keeps a scope that was made. -/
theorem lookup (h : c.Within w) {name : String} {fn : Closure} {depth : Nat}
    (hl : c.lookup name = .found fn depth) : fn.Within w :=
  have ⟨_, hc, hfn⟩ := method_of_lookup (fun _ hc => hc.supers) h hl
  hc.methods _ hfn

/-- So does a method that is found on superclasses. -/
theorem lookupSupers {supers : List Class} (h : ∀ c ∈ supers, c.Within w) {name : String}
    {fn : Closure} {depth : Nat} (hl : hierarchy.lookupSupers name supers = .found fn depth) :
    fn.Within w :=
  have ⟨_, hc, hfn⟩ := method_of_lookupSupers (fun _ hc => hc.supers) h hl
  hc.methods _ hfn

end Class.Within

/-- A value still refers to what is older when more was made. -/
theorem Value.Within.mono {v : Value} (h : v.Within w) (hw : w ≤ w') : v.Within w' :=
  Value.All.mono (fun _ hc => hc.mono hw) (fun _ hfn => hfn.mono hw) h

/-! ### Scopes -/

namespace Environments

variable {es : Environments}

/-- Every scope but the outermost one lies in another one. -/
def Rooted (es : Environments) : Prop :=
  ∀ i < es.table.size, i ≠ globalScope → ∃ p, es.parent? i = some p

/-- The outermost scope lies in no other one. -/
theorem parent?_globalScope (es : Environments) : es.parent? globalScope = none := by
  cases hp : es.parent? globalScope with
  | none => rfl
  | some p => exact absurd (lt_of_parent? hp) (Nat.not_lt_zero p)

/-- From a scope that was made the outermost one is some steps outward, no more of them than scopes
were made before. -/
theorem Rooted.reaches (h : es.Rooted) {i : ScopeId} (hi : i < es.table.size) :
    ∃ d ≤ i, es.ancestor? i d = some globalScope := by
  -- On the scope. Its parent was made before it, so the number of steps is smaller.
  induction i using Nat.strongRecOn with
  | ind i ih =>
    by_cases hglobal : i = globalScope
    · subst hglobal
      exact ⟨0, Nat.le_refl _, ancestor?_zero es hi⟩
    · obtain ⟨p, hp⟩ := h i hi hglobal
      have hlt := lt_of_parent? hp
      obtain ⟨d, hd, hroot⟩ := ih p hlt (Nat.lt_trans hlt hi)
      refine ⟨d + 1, Nat.lt_of_le_of_lt hd hlt, ?_⟩
      rw [ancestor?_succ, hp]
      exact hroot

/-- A binding moves no scope. -/
theorem Rooted.define (h : es.Rooted) (i : ScopeId) (name : String) (v : Value) :
    (es.define i name v).Rooted := by
  intro j hj hne
  rw [Environments.define, size_modify] at hj
  rw [Environments.define, parent?_modify]
  exact h j hj hne

/-- A new scope lies in the one that it was made in. -/
theorem Rooted.push (h : es.Rooted) (origin : Scope.Origin) {p : ScopeId}
    (hp : p < es.table.size) : (es.push origin (some p)).Rooted := by
  intro i hi hne
  rw [size_push] at hi
  rcases Nat.lt_succ_iff_lt_or_eq.1 hi with hi | rfl
  · obtain ⟨q, hq⟩ := h i hi hne
    exact ⟨q, ((grows_push es origin (some p)).parent? i hi).trans hq⟩
  · exact ⟨p, parent?_push_self es origin hp⟩

end Environments

/-! ### Machines -/

/-- How many identities a machine gave out, and how many scopes it made. -/
def Machine.world (m : Machine) : World := ⟨m.store.nextId, m.store.environments.table.size⟩

/-- A machine on which everything refers to what is older. -/
structure Machine.Founded (m : Machine) : Prop where
  /-- The current scope was made. -/
  scope : m.scope < m.world.scopes
  /-- Every scope but the outermost one lies in another one. -/
  rooted : m.store.environments.Rooted
  /-- The values that scopes bind refer to what is older. -/
  bindings : ∀ (i : ScopeId) (name : String) (v : Value),
    (m.store.environments.bindings i)[name]? = some v → v.Within m.world
  /-- So do all other values. -/
  contents : m.store.Contents (Value.Within m.world)

namespace Machine.Founded

variable {m m' : Machine}

/-- A change outside of scopes and calls. -/
theorem quiet (h : m.Founded) (hq : m.Quiet m')
    (hc : m'.store.Contents (Value.Within m.world)) : m'.Founded ∧ m.world ≤ m'.world := by
  have hle : m.world ≤ m'.world :=
    ⟨hq.nextId, Nat.le_of_eq (congrArg (·.table.size) hq.environments.symm)⟩
  refine ⟨⟨?_, hq.environments ▸ h.rooted, fun i name v hv => ?_, hc.mono fun _ hv => hv.mono hle⟩,
    hle⟩
  · rw [hq.scope]
    exact Nat.lt_of_lt_of_le h.scope hle.2
  · rw [hq.environments] at hv
    exact (h.bindings i name v hv).mono hle

/-- What a scope some steps outward binds. -/
theorem getAt? (h : m.Founded) {i : ScopeId} {d : Nat} {name : String} {v : Value}
    (hv : m.store.environments.getAt? i d name = some v) : v.Within m.world := by
  obtain ⟨j, -, hj⟩ := Option.bind_eq_some_iff.1 hv
  exact h.bindings j name v hj

/-- A name gets a value. -/
theorem define (h : m.Founded) (i : ScopeId) (name : String) {v : Value} (hv : v.Within m.world)
    (declared : List (ScopeId × String)) :
    Machine.Founded { m with
      store.environments := m.store.environments.define i name v
      store.declared := declared } := by
  -- A binding makes no scope and no identity, so the world is the same.
  have hsize : (m.store.environments.define i name v).table.size =
      m.store.environments.table.size := Environments.size_modify ..
  have hworld : Machine.world { m with
      store.environments := m.store.environments.define i name v
      store.declared := declared } = m.world := by
    simp only [Machine.world, hsize]
  refine ⟨hworld ▸ h.scope, h.rooted.define i name v, fun j x u hu => ?_, ?_⟩
  · rw [hworld]
    -- The binding is the new one, or one that was there.
    rw [Environments.getElem?_bindings_define] at hu
    split at hu
    · cases hu
      exact hv
    · exact h.bindings j x u hu
  · rw [hworld]
    exact { h.contents with }

/-- A further scope. -/
theorem push (h : m.Founded) (origin : Scope.Origin) {parent : ScopeId}
    (hp : parent < m.world.scopes) :
    Machine.Founded { m with
      store.environments := m.store.environments.push origin (some parent) } ∧
    m.world ≤ Machine.world { m with
      store.environments := m.store.environments.push origin (some parent) } := by
  have hle : m.world ≤ Machine.world { m with
      store.environments := m.store.environments.push origin (some parent) } :=
    ⟨Nat.le_refl _, (Environments.grows_push ..).size_le⟩
  refine ⟨⟨Nat.lt_of_lt_of_le h.scope hle.2, h.rooted.push origin hp, fun i name v hv => ?_, ?_⟩,
    hle⟩
  · rw [Environments.bindings_push] at hv
    exact (h.bindings i name v hv).mono hle
  · exact { h.contents.mono fun _ hv => hv.mono hle with }

end Machine.Founded

/-- Founded machines, with values that refer to what is older. -/
abbrev Regime.founded : Regime where
  Inv := Machine.Founded
  Holds m v := v.Within m.world
  Later m m' := m.world ≤ m'.world
  refl m := le_refl m.world
  trans := le_trans
  holds hl hv := hv.mono hl
  contents hm := hm.contents
  quiet hm := hm.quiet
  enterSite hm := ⟨hm.scope, hm.rooted, hm.bindings, hm.contents⟩
  leaveSite hm hl := ⟨⟨hm.scope, hm.rooted, hm.bindings, hm.contents⟩, hl⟩
  holdsSite hv := hv
  flat := .flat
  pair := Value.All.pair_iff
  varargs := Value.All.varargs_iff
  iteratorResult := Value.All.iteratorResult_iff
  boundMethod := Value.All.boundMethod_iff

/-! ### The machine at the start -/

/-- A single scope, in which every name has a value without parts. -/
structure Environments.Plain (es : Environments) : Prop where
  /-- There is one scope. -/
  size : es.table.size = 1
  /-- The values have no parts. -/
  flat : ∀ (i : ScopeId) (name : String) v, (es.bindings i)[name]? = some v → v.Flat

/-- A value without parts keeps the scope plain. -/
theorem Environments.Plain.define {es : Environments} (h : es.Plain) (name : String) {v : Value}
    (hv : v.Flat) : (es.define globalScope name v).Plain where
  size := (size_modify ..).trans h.size
  flat i x u hu := by
    rw [getElem?_bindings_define] at hu
    split at hu
    · cases hu
      exact hv
    · exact h.flat i x u hu

/-- At the start there are native classes and functions only. -/
theorem Machine.plain_initial : Machine.initial.store.environments.Plain := by
  have hpush : (({} : Environments).push .globals none).Plain := by
    refine ⟨by simp, fun i name v hv => ?_⟩
    rw [Environments.bindings_push] at hv
    simp [Environments.bindings] at hv
  exact List.foldlRecOn _ _ (List.foldlRecOn _ _ hpush fun es hes c _ => hes.define c.name trivial)
    fun es hes f _ => hes.define f.name trivial

/-- The machine at the start is founded. -/
theorem Machine.founded_initial : Machine.initial.Founded := by
  have hplain := plain_initial
  refine ⟨?_, fun i hi hne => ?_, fun i name v hv => .flat (hplain.flat i name v hv), .empty _⟩
  · show (0 : Nat) < Machine.initial.store.environments.table.size
    rw [hplain.size]
    exact Nat.zero_lt_one
  · rw [hplain.size] at hi
    exact absurd (Nat.lt_one_iff.1 hi) hne

end ClassScript
