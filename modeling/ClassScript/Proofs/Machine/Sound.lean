import ClassScript.Machine.Exec
import ClassScript.Proofs.Machine.Chain
import ClassScript.Proofs.Machine.Contents

/-!
# Sound values and stores

A function is sound if the scope that it keeps stands for the place of its declaration in the
syntax, so that the distances in its body lead where the resolver counted to. A value is sound if
every function that can be reached from it without the store is sound, and a store is sound if
everything in it is. Soundness refers to a ledger of resolved uses, and lasts while scopes grow and
while further programs are entered in the ledger.
-/

namespace ClassScript

open Scope

/-- The resolved uses of the programs so far. -/
structure Ledger where
  /-- What was recorded of them. -/
  tables : Tables
  /-- The first node identity that is not used yet. -/
  next : Nat

namespace Ledger

/-- A use that is resolved: what is recorded fits the scopes around it, and a receiver or
superclasses are declared there. -/
structure Settles (L : Ledger) (u : Use) : Prop where
  /-- The node belongs to a program in the ledger. -/
  lt : L.next > u.id
  /-- What is recorded fits the scopes around the use. -/
  holds : L.tables.Holds u
  /-- Receivers and superclasses are declared around their uses. -/
  known : u.role = .self ∨ u.role = .super → ∃ r ∈ u.scopes, r.knows u.name = true

/-- A ledger with further programs. -/
structure Extends (L L' : Ledger) : Prop where
  /-- Further identities are used. -/
  le : L.next ≤ L'.next
  /-- Nothing that was recorded has changed. -/
  same : ∀ id < L.next, L'.tables.Same L.tables id

/-- A ledger extends itself. -/
theorem Extends.refl (L : Ledger) : L.Extends L := ⟨Nat.le_refl _, fun _ _ => ⟨rfl, rfl⟩⟩

/-- A use that is settled stays so when more programs are resolved. -/
theorem Extends.settles {L L' : Ledger} (h : L.Extends L') {u : Use} (hu : L.Settles u) :
    L'.Settles u where
  lt := Nat.lt_of_lt_of_le hu.lt h.le
  holds := ⟨(h.same u.id hu.lt).1.trans hu.holds.1, (h.same u.id hu.lt).2.trans hu.holds.2⟩
  known := hu.known

/-- A piece of syntax whose uses are resolved and whose nodes are as the grammar promises. -/
structure Settled (L : Ledger) (us : List Use) (ns : List Node) : Prop where
  /-- The uses are resolved. -/
  uses : ∀ u ∈ us, L.Settles u
  /-- The nodes are as the grammar promises. -/
  nodes : ∀ n ∈ ns, n.Proper

/-- So does a piece of syntax. -/
theorem Extends.settled {L L' : Ledger} (h : L.Extends L') {us : List Use} {ns : List Node}
    (hs : L.Settled us ns) : L'.Settled us ns :=
  ⟨fun u hu => h.settles (hs.uses u hu), hs.nodes⟩

namespace Settled

variable {L : Ledger} {us us' us₁ us₂ : List Use} {ns ns' ns₁ ns₂ : List Node} {n : Node}

/-- Fewer uses and nodes are settled as well. -/
theorem mono (h : L.Settled us ns) (hu : us' ⊆ us) (hn : ns' ⊆ ns) : L.Settled us' ns' :=
  ⟨fun u hu' => h.uses u (hu hu'), fun n hn' => h.nodes n (hn hn')⟩

/-- Two parts are settled exactly if each one is. -/
theorem append : L.Settled (us₁ ++ us₂) (ns₁ ++ ns₂) ↔ L.Settled us₁ ns₁ ∧ L.Settled us₂ ns₂ := by
  constructor
  · intro h
    exact ⟨h.mono (List.subset_append_left ..) (List.subset_append_left ..),
      h.mono (List.subset_append_right ..) (List.subset_append_right ..)⟩
  · rintro ⟨h₁, h₂⟩
    constructor
    · intro u hu
      rcases List.mem_append.1 hu with hu | hu
      · exact h₁.uses u hu
      · exact h₂.uses u hu
    · intro n hn
      rcases List.mem_append.1 hn with hn | hn
      · exact h₁.nodes n hn
      · exact h₂.nodes n hn

/-- The node above a piece of syntax. -/
theorem below (h : L.Settled us (n :: ns)) : L.Settled us ns :=
  h.mono (fun _ h => h) (List.subset_cons_self ..)

/-- The node on top is as the grammar promises. -/
theorem proper (h : L.Settled us (n :: ns)) : n.Proper := h.nodes n List.mem_cons_self

end Settled

end Ledger

/-! ### Values -/

/-- A scope that stands for a place in the syntax. -/
structure Environments.Stands (es : Environments) (i : ScopeId) (scopes : List Region) : Prop where
  /-- The scopes outward are those around the place. -/
  chain : es.Chain i scopes
  /-- Receivers and superclasses lie as they do in classes. -/
  orderly : Orderly scopes

/-- A scope still stands for its place when others were made. -/
theorem Environments.Stands.grows {es es' : Environments} (hg : es.Grows es') {i : ScopeId}
    {scopes : List Region} (h : es.Stands i scopes) : es'.Stands i scopes :=
  ⟨h.chain.grows hg, h.orderly⟩

/-- A function whose scope stands for the place of its declaration, and for that of its defaults. -/
structure Closure.SoundAt (L : Ledger) (es : Environments) (fn : Closure)
    (outer scopes : List Region) : Prop where
  /-- The scope is right for the defaults. -/
  atDefaults : es.Stands fn.scope outer
  /-- The scope is right for the body. -/
  atBody : es.Stands fn.scope scopes
  /-- The uses in the function are resolved. -/
  settled : L.Settled (fn.declaration.uses outer scopes) (fn.declaration.nodes everywhere)

/-- A function whose scope is right for it. -/
def Closure.Sound (L : Ledger) (es : Environments) (fn : Closure) : Prop :=
  ∃ outer scopes, fn.SoundAt L es outer scopes

/-- A method of a class, which has no receiver yet. -/
structure Closure.SoundMethodAt (L : Ledger) (es : Environments) (fn : Closure) (id : NodeId)
    (scopes : List Region) : Prop where
  /-- The scope is that of the class. -/
  chain : es.Chain fn.scope (.supers id :: scopes)
  /-- The scopes around the class are in order. -/
  orderly : Orderly scopes
  /-- The uses in the method are resolved. -/
  settled : L.Settled (fn.declaration.uses (methodScopes id scopes) (methodScopes id scopes))
    (fn.declaration.nodes everywhere)

/-- A method whose scope is right for it as soon as it has a receiver. -/
def Closure.SoundMethod (L : Ledger) (es : Environments) (fn : Closure) : Prop :=
  ∃ id scopes, fn.SoundMethodAt L es id scopes

/-- A class whose own and inherited methods are sound. -/
inductive Class.Sound (L : Ledger) (es : Environments) : Class → Prop where
  /-- The superclasses and the methods are sound. -/
  | mk {c : Class} (supers : ∀ s ∈ c.supers, Class.Sound L es s)
    (methods : ∀ m ∈ c.methods, m.2.SoundMethod L es) : Class.Sound L es c

/-- A value from which only sound functions can be reached. -/
inductive Value.Sound (L : Ledger) (es : Environments) : Value → Prop where
  | nil : Value.Sound L es .nil
  | bool (b : Bool) : Value.Sound L es (.bool b)
  | int (n : Int64) : Value.Sound L es (.int n)
  | float (x : Float) : Value.Sound L es (.float x)
  | string (s : String) : Value.Sound L es (.string s)
  | list (place : Nat) : Value.Sound L es (.list place)
  | map (place : Nat) : Value.Sound L es (.map place)
  | iterator (place : Nat) : Value.Sound L es (.iterator place)
  | instance (place : Nat) {cls : Class} (h : cls.Sound L es) : Value.Sound L es (.instance place cls)
  | pair (id : ObjectId) {a b : Value} (ha : Value.Sound L es a) (hb : Value.Sound L es b) :
    Value.Sound L es (.pair id a b)
  | varargs (id : ObjectId) {items : List Value} (h : ∀ v ∈ items, Value.Sound L es v) :
    Value.Sound L es (.varargs id items)
  | iteratorResult (id : ObjectId) {v : Value} (isEnd : Bool) (h : Value.Sound L es v) :
    Value.Sound L es (.iteratorResult id v isEnd)
  | class {cls : Class} (h : cls.Sound L es) : Value.Sound L es (.class cls)
  | closure {fn : Closure} (h : fn.Sound L es) : Value.Sound L es (.closure fn)
  | nativeClass (cls : NativeClass) : Value.Sound L es (.nativeClass cls)
  | nativeFunction (fn : NativeFunction) : Value.Sound L es (.nativeFunction fn)
  | boundMethod (id : ObjectId) {receiver : Value} (method : NativeMethod)
    (h : Value.Sound L es receiver) : Value.Sound L es (.boundMethod id receiver method)
  | superclasses {classes : List Class} (h : ∀ c ∈ classes, c.Sound L es) :
    Value.Sound L es (.superclasses classes)

section Lasting

variable {L L' : Ledger} {es es' : Environments}

/-- A function stays sound through further programs and scopes. -/
theorem Closure.Sound.last (hL : L.Extends L') (hg : es.Grows es') {fn : Closure}
    (h : fn.Sound L es) : fn.Sound L' es' := by
  obtain ⟨outer, scopes, h⟩ := h
  exact ⟨outer, scopes, h.atDefaults.grows hg, h.atBody.grows hg, hL.settled h.settled⟩

/-- So does a method. -/
theorem Closure.SoundMethod.last (hL : L.Extends L') (hg : es.Grows es') {fn : Closure}
    (h : fn.SoundMethod L es) : fn.SoundMethod L' es' := by
  obtain ⟨id, scopes, h⟩ := h
  exact ⟨id, scopes, h.chain.grows hg, h.orderly, hL.settled h.settled⟩

/-- So does a class. -/
theorem Class.Sound.last (hL : L.Extends L') (hg : es.Grows es') {c : Class} (h : c.Sound L es) :
    c.Sound L' es' := by
  induction h with
  | mk supers methods ih => exact .mk ih fun m hm => (methods m hm).last hL hg

/-- Soundness lasts while scopes grow and further programs are resolved. -/
theorem Value.Sound.last (hL : L.Extends L') (hg : es.Grows es') {v : Value} (h : v.Sound L es) :
    v.Sound L' es' := by
  induction h with
  | nil => exact .nil
  | bool b => exact .bool b
  | int n => exact .int n
  | float x => exact .float x
  | string s => exact .string s
  | list place => exact .list place
  | map place => exact .map place
  | iterator place => exact .iterator place
  | «instance» place h => exact .instance place (h.last hL hg)
  | pair id _ _ iha ihb => exact .pair id iha ihb
  | varargs id _ ih => exact .varargs id ih
  | iteratorResult id isEnd _ ih => exact .iteratorResult id isEnd ih
  | «class» h => exact .class (h.last hL hg)
  | closure h => exact .closure (h.last hL hg)
  | nativeClass cls => exact .nativeClass cls
  | nativeFunction fn => exact .nativeFunction fn
  | boundMethod id method _ ih => exact .boundMethod id method ih
  | superclasses h => exact .superclasses fun c hc => (h c hc).last hL hg

/-- A value stays sound when scopes are made. -/
theorem Value.Sound.grows (hg : es.Grows es') {v : Value} (h : v.Sound L es) : v.Sound L es' :=
  h.last (.refl L) hg

end Lasting

/-! ### Stores and machines -/

/-- A store in which everything is sound. -/
structure Store.Sound (L : Ledger) (s : Store) : Prop where
  /-- The values that scopes bind are sound. -/
  bindings : ∀ (i : ScopeId) (name : String) (v : Value),
    (s.environments.bindings i)[name]? = some v → v.Sound L s.environments
  /-- Where superclasses are bound, there are superclasses. -/
  supers : ∀ (i : ScopeId) (v : Value),
    (s.environments.bindings i)["super"]? = some v → ∃ cs, v = .superclasses cs
  /-- The outermost scope exists. -/
  globals : 0 < s.environments.table.size
  /-- What was declared is bound. -/
  declared : ∀ d ∈ s.declared, s.environments.binds d.1 d.2 = true
  /-- Everything else is sound. -/
  contents : s.Contents (Value.Sound L s.environments)

namespace Store.Sound

variable {L : Ledger} {s : Store}

/-- Further programs are resolved. -/
theorem extended {L' : Ledger} (h : s.Sound L) (hL : L.Extends L') : s.Sound L' where
  bindings i name v hv := (h.bindings i name v hv).last hL (.refl _)
  supers := h.supers
  globals := h.globals
  declared := h.declared
  contents := h.contents.mono fun _ hv => hv.last hL (.refl _)

/-- A change outside of the scopes. -/
theorem change {s' : Store} (h : s.Sound L) (he : s'.environments = s.environments)
    (hd : s'.declared = s.declared) (hc : s'.Contents (Value.Sound L s.environments)) :
    s'.Sound L where
  bindings i name v hv := by
    rw [he] at hv ⊢
    exact h.bindings i name v hv
  supers i v hv := h.supers i v (he ▸ hv)
  globals := he ▸ h.globals
  declared d hmem := by
    rw [he]
    exact h.declared d (hd ▸ hmem)
  contents := he ▸ hc

/-- A further scope. -/
theorem pushScope (h : s.Sound L) (origin : Origin) (parent : Option ScopeId) :
    Store.Sound L { s with environments := s.environments.push origin parent } := by
  have hg := s.environments.grows_push origin parent
  constructor
  · intro i name v hv
    rw [Environments.bindings_push] at hv
    exact (h.bindings i name v hv).grows hg
  · intro i v hv
    rw [Environments.bindings_push] at hv
    exact h.supers i v hv
  · exact Nat.lt_of_lt_of_le h.globals hg.size_le
  · exact fun d hd => hg.binds d.1 d.2 (h.declared d hd)
  · exact Contents.mono { h.contents with } fun _ hv => hv.grows hg

/-- A name gets a value that is sound then; the name of the superclasses only superclasses. -/
theorem assign (h : s.Sound L) {i : ScopeId} {name : String} {v : Value}
    (hv : v.Sound L (s.environments.define i name v))
    (hsuper : name = "super" → ∃ cs, v = .superclasses cs) :
    Store.Sound L { s with environments := s.environments.define i name v } := by
  have hg := s.environments.grows_define i name v
  constructor
  · -- The binding is the new one, or one that was there and stays sound.
    intro j x w hw
    rw [Environments.getElem?_bindings_define] at hw
    split at hw
    · cases hw
      exact hv
    · exact (h.bindings j x w hw).grows hg
  · -- The name for superclasses may be the one that gets a value.
    intro j w hw
    rw [Environments.getElem?_bindings_define] at hw
    split at hw
    · next e =>
      cases hw
      exact hsuper e.2.2
    · exact h.supers j w hw
  · exact Nat.lt_of_lt_of_le h.globals hg.size_le
  · exact fun d hd => hg.binds d.1 d.2 (h.declared d hd)
  · exact Contents.mono { h.contents with } fun _ hw => hw.grows hg

/-- A name is declared in a scope. -/
theorem define (h : s.Sound L) {i : ScopeId} (hi : i < s.environments.table.size) {name : String}
    {v : Value} (hv : v.Sound L (s.environments.define i name v))
    (hsuper : name = "super" → ∃ cs, v = .superclasses cs) :
    Store.Sound L { s with
      environments := s.environments.define i name v, declared := (i, name) :: s.declared } := by
  have h' := h.assign hv hsuper
  refine { h' with declared := fun d hd => ?_, contents := { h'.contents with } }
  rcases List.mem_cons.1 hd with rfl | hd
  · exact s.environments.binds_define_self hi name v
  · exact h'.declared d hd

end Store.Sound

namespace Machine

/-- A machine that works with the ledger and whose store is sound. -/
structure Sound (L : Ledger) (m : Machine) : Prop where
  /-- The store is sound. -/
  store : m.store.Sound L
  /-- The machine has the distances of the ledger. -/
  distances : ∀ id : NodeId, m.distances[id]? = L.tables.distances[id]?

/-- The machine after a step: in the same scope, with the same distances, and with all scopes. -/
structure Later (m m' : Machine) : Prop where
  /-- The current scope is the same one. -/
  scope : m'.scope = m.scope
  /-- The distances are the same. -/
  distances : m'.distances = m.distances
  /-- Scopes were made and names were bound. -/
  environments : m.store.environments.Grows m'.store.environments

/-- A machine is a later one of itself. -/
@[refl]
theorem Later.refl (m : Machine) : m.Later m := ⟨rfl, rfl, .refl _⟩

/-- A later machine of a later one is a later machine. -/
theorem Later.trans {m₁ m₂ m₃ : Machine} (h₁ : m₁.Later m₂) (h₂ : m₂.Later m₃) : m₁.Later m₃ :=
  ⟨h₂.scope.trans h₁.scope, h₂.distances.trans h₁.distances, h₁.environments.trans h₂.environments⟩

/-- The current scope stands for a place in the syntax. -/
abbrev Stands (m : Machine) (scopes : List Region) : Prop :=
  m.store.environments.Stands m.scope scopes

/-- The current scope still stands for its place on a later machine. -/
theorem Later.stands {m m' : Machine} (h : m.Later m') {scopes : List Region}
    (hs : m.Stands scopes) : m'.Stands scopes := by
  unfold Stands
  rw [h.scope]
  exact hs.grows h.environments

/-- A value that is sound on a machine. -/
abbrev Holds (L : Ledger) (m : Machine) (v : Value) : Prop := v.Sound L m.store.environments

/-- A value that is sound stays so on a later machine. -/
theorem Later.holds {L : Ledger} {m m' : Machine} (h : m.Later m') {v : Value}
    (hv : m.Holds L v) : m'.Holds L v :=
  hv.grows h.environments

end Machine

end ClassScript
