import Mathlib
import ClassScript.Parse.Grammar
import ClassScript.Proofs.Machine.Grounded
import ClassScript.Proofs.Machine.Sheltering

/-!
# Methods that get their receiver twice

A method that gets a receiver keeps a new scope inside the scope of its class. If it gets the
receiver once more, there is one more scope in between, and the distances in its body, which the
resolver counted before, lead past it one scope too short. `rebinding_unseen` shows that nothing
else happens: as long as no use in the method leads beyond the scope of its receiver, the calls
have the same results, errors and effects. A use of the superclasses does lead beyond it.
-/

namespace ClassScript

open Scope
open Exec (seenBy)

/-- The machine with one of its scopes elsewhere. -/
def Machine.relocate (m : Machine) (move : Relocation) : Machine :=
  { m with store.environments := m.store.environments.relocate move }

namespace Closure

/-- A call of a method that gets a receiver. -/
def callBound (fn : Closure) (receiver : Value) (levels : Nat) (site : Token)
    (positional : List Value) (named : List (String × Value)) : Exec Value := do
  let once ← fn.bind receiver
  (engine levels).invoke site (.closure once) positional named

/-- A call of a method that gets a receiver, and then gets it again. -/
def callRebound (fn : Closure) (receiver : Value) (levels : Nat) (site : Token)
    (positional : List Value) (named : List (String × Value)) : Exec Value := do
  let once ← fn.bind receiver
  once.callBound receiver levels site positional named

end Closure

/-! ### Making bound methods -/

/-- The syntax that the scope of a receiver is made for. -/
def Closure.receiverOrigin (fn : Closure) (es : Environments) : Origin :=
  match es.origin? fn.scope with
  | some (.supers id) => .receiver id
  | _ => .receiver fn.declaration.id

/-- A machine with the scope of one more receiver. -/
def Machine.withReceiver (m : Machine) (origin : Origin) (parent : ScopeId) (receiver : Value) :
    Machine :=
  { m with
    store.environments := (m.store.environments.push origin (some parent)).define
      m.store.environments.table.size "self" receiver
    store.declared := (m.store.environments.table.size, "self") :: m.store.declared
    store.nextId := m.store.nextId + 1 }

/-- A method that gets a receiver keeps the scope of one more receiver. -/
theorem Closure.bind_apply (fn : Closure) (receiver : Value) (m : Machine) :
    fn.bind receiver m =
      .ok { fn with id := m.store.nextId, scope := m.store.environments.table.size }
        (m.withReceiver (fn.receiverOrigin m.store.environments) fn.scope receiver) :=
  rfl

/-- The scope that was made last may be made for other syntax and inside another scope instead. -/
theorem Machine.relocate_withReceiver (m : Machine) (origin origin' : Origin)
    (parent parent' : ScopeId) (receiver : Value) :
    (m.withReceiver origin parent receiver).relocate
        ⟨m.store.environments.table.size, origin', parent'⟩ =
      m.withReceiver origin' parent' receiver := by
  simp only [relocate, withReceiver, Environments.relocate_define,
    Environments.relocate_push_self]

/-- A call of a method that gets a receiver is a call on the machine with its scope. -/
theorem Closure.callBound_apply (fn : Closure) (receiver : Value) (levels : Nat) (site : Token)
    (positional : List Value) (named : List (String × Value)) (m : Machine) :
    fn.callBound receiver levels site positional named m =
      (engine levels).invoke site
        (.closure { fn with id := m.store.nextId, scope := m.store.environments.table.size })
        positional named
        (m.withReceiver (fn.receiverOrigin m.store.environments) fn.scope receiver) :=
  rfl

/-- The scope of a receiver is not that of superclasses. -/
theorem Closure.exists_receiverOrigin (fn : Closure) (es : Environments) :
    ∃ id, fn.receiverOrigin es = .receiver id := by
  unfold receiverOrigin
  split
  · exact ⟨_, rfl⟩
  · exact ⟨_, rfl⟩

/-- A method that has a receiver is not bound in the scope of a class. -/
theorem Closure.receiverOrigin_bound (fn : Closure) (m : Machine) (id : NodeId) (parent : ScopeId)
    (receiver : Value) (hscope : fn.scope = m.store.environments.table.size) :
    fn.receiverOrigin (m.withReceiver (.receiver id) parent receiver).store.environments =
      .receiver fn.declaration.id := by
  have horigin : (m.withReceiver (.receiver id) parent receiver).store.environments.origin?
      fn.scope = some (.receiver id) := by
    rw [hscope]
    exact (Environments.origin?_modify ..).trans (Environments.origin?_push_self ..)
  unfold receiverOrigin
  rw [horigin]

/-! ### What was made before -/

section Before

variable {es : Environments} {w : World} {move : Relocation} {distances : Distances}

/-- A scope that was made before does not lie inside the one that lies elsewhere. -/
theorem Environments.Shelters.of_before {i : ScopeId} (hi : i < es.table.size)
    (hmove : es.table.size ≤ move.scope) (P : List Region → Prop) :
    es.Shelters move.scope i P :=
  ⟨hi, fun _ hk => absurd (Environments.lt_of_ancestor? hk) (Nat.not_lt_of_le hmove)⟩

/-- Nothing that was made before a scope is inside of it. -/
theorem Value.Within.sheltered {v : Value} (hv : v.Within w) (hw : w.scopes ≤ es.table.size)
    (hmove : es.table.size ≤ move.scope) : v.Sheltered move distances es := by
  refine Value.All.mono (fun c hc => ?_)
    (fun fn hfn => .of_before (Nat.lt_of_lt_of_le hfn hw) hmove _) hv
  induction hc with
  | mk _ _ _ methods ih =>
    refine .mk ih fun p hp => ?_
    have hlt := Nat.lt_of_lt_of_le (methods p hp) hw
    exact ⟨Nat.ne_of_lt (Nat.lt_of_lt_of_le hlt hmove), .of_before hlt hmove _⟩

end Before

/-! ### The scope of a new receiver -/

section Receiver

variable {m : Machine} {origin : Origin} {parent : ScopeId} {receiver : Value}
  {move : Relocation} {distances : Distances}

/-- The scope of a receiver is one more scope. -/
theorem Machine.size_withReceiver (m : Machine) (origin : Origin) (parent : ScopeId)
    (receiver : Value) : (m.withReceiver origin parent receiver).store.environments.table.size =
      m.store.environments.table.size + 1 :=
  (Environments.size_modify ..).trans (Environments.size_push ..)

/-- What was made before the scope of a receiver does not look into it. -/
theorem Value.Within.sheltered_withReceiver {v : Value} (hv : v.Within m.world)
    (hmove : move.scope = m.store.environments.table.size) :
    v.Sheltered move distances (m.withReceiver origin parent receiver).store.environments :=
  (hv.sheltered (Nat.le_refl _) (Nat.le_of_eq hmove.symm)).grows
    ((Environments.grows_push ..).trans (Environments.grows_define ..))

/-- Nothing but the new scope is inside of the new scope. -/
theorem Machine.Founded.sheltered_withReceiver (hm : m.Founded) (hr : receiver.Within m.world)
    (hmove : move.scope = m.store.environments.table.size) :
    (m.withReceiver origin parent receiver).Sheltered move m.distances := by
  refine ⟨rfl, ?_, fun i name v hv => ?_,
    { hm.contents.mono fun _ hv => Value.Within.sheltered_withReceiver hv hmove with }⟩
  · rw [hmove, size_withReceiver]
    exact Nat.lt_succ_self _
  · unfold withReceiver at hv
    rw [Environments.getElem?_bindings_define, Environments.bindings_push] at hv
    split at hv
    · cases hv
      exact hr.sheltered_withReceiver hmove
    · exact (hm.bindings i name v hv).sheltered_withReceiver hmove

/-- A method whose uses lead no farther than to its receiver. -/
theorem Closure.sheltered_bound {fn : Closure}
    (hscope : fn.scope = m.store.environments.table.size) (hmove : move.scope = fn.scope)
    (hnear : Near distances (fn.declaration.uses [] [])) :
    fn.Sheltered move distances
      (m.withReceiver origin parent receiver).store.environments := by
  refine ⟨?_, fun k hk => ?_⟩
  · rw [hscope, Machine.size_withReceiver]
    exact Nat.lt_succ_self _
  · have hle : fn.scope + k ≤ fn.scope + 0 := Environments.le_of_ancestor? (hmove ▸ hk)
    have hzero : k = 0 := Nat.le_zero.1 (Nat.le_of_add_le_add_left hle)
    exact ⟨[], hzero.symm, [], rfl, hnear⟩

end Receiver

/-! ### Calls -/

/-- A method that gets its receiver twice is like a method that gets it once, as long as no use in
the method leads beyond the scope of the receiver: the calls have the same result or error, and they
leave the same machine, but for the scope of the receiver, which lies inside the scope of the first
receiver. On both sides a method got the receiver before, so that they give out the same numbers. -/
theorem rebinding_unseen {m : Machine} {held : List Value} (hm : m.Reached held) {f : Closure}
    (hf : m.Has held (.function f)) {receiver : Value} (hr : m.Has held (.value receiver))
    (hnear : Near m.distances (f.declaration.uses [] [])) (levels : Nat) (site : Token)
    {positional : List Value} {named : List (String × Value)}
    (hp : ∀ v ∈ positional, m.Has held (.value v))
    (hn : ∀ p ∈ named, m.Has held (.value p.2)) :
    f.callRebound receiver levels site positional named m =
      seenBy (·.relocate ⟨m.store.environments.table.size + 1, .receiver f.declaration.id,
          m.store.environments.table.size⟩)
        ((do
          let _ ← f.bind receiver
          f.callBound receiver levels site positional named) m) := by
  obtain ⟨hfounded, hheld⟩ := hm.founded
  have hwithin : ∀ {t : Thing}, m.Has held t → t.Within m.world := hfounded.within hheld
  obtain ⟨id, horigin⟩ := f.exists_receiverOrigin m.store.environments
  -- The machine with the first receiver, on which both sides go on.
  obtain ⟨hl, hfirst, -⟩ := (Closure.founds_bind (hwithin hf) (hwithin hr)).ok hfounded
    (f.bind_apply receiver m)
  have hlater : ∀ {v : Value}, m.Has held (.value v) → v.Within _ := fun hv =>
    Value.Within.mono (hwithin hv) hl
  simp only [Closure.callRebound, Exec.bind_apply, Closure.bind_apply, Closure.callBound_apply]
  rw [horigin] at hfirst hlater ⊢
  rw [← m.size_withReceiver (.receiver id) f.scope receiver,
    Closure.receiverOrigin_bound _ _ _ _ _ rfl]
  replace hnear : Near (m.withReceiver (.receiver id) f.scope receiver).distances
    (f.declaration.uses [] []) := hnear
  generalize m.withReceiver (.receiver id) f.scope receiver = m₁ at hfirst hlater hnear ⊢
  -- The second receiver is made in the one or in the other scope.
  rw [← Machine.relocate_withReceiver m₁ (f.receiverOrigin m₁.store.environments) _ f.scope]
  generalize hmove : Relocation.mk m₁.store.environments.table.size _ _ = move
  have hscope : move.scope = m₁.store.environments.table.size := hmove ▸ rfl
  generalize hg : ({ f with id := _, scope := _ } : Closure) = g
  have hsheltered : g.Sheltered move m₁.distances
      (m₁.withReceiver (f.receiverOrigin m₁.store.environments) f.scope
        receiver).store.environments := by
    subst hg
    exact Closure.sheltered_bound rfl hscope hnear
  exact ((shelters_engine move m₁.distances levels).invoke site (.closure hsheltered)
    (fun v hv => (hlater (hp v hv)).sheltered_withReceiver hscope)
    fun p hpmem => (hlater (hn p hpmem)).sheltered_withReceiver hscope).same
      (hfirst.sheltered_withReceiver (hlater hr) hscope)

/-! ### A method with superclasses -/

/-- Two classes and an object. One method of the object uses the superclasses, and another one its
receiver. -/
def overridingProgram : List Stmt :=
  (Parse.source ("class A \x7b fun f() \x7b return 1 \x7d \x7d class B < A \x7b " ++
    "fun f() \x7b return super() \x7d fun me() \x7b return self \x7d \x7d var b = B()") 0).program

/-- The machine behind the program. -/
def overridingMachine : Machine :=
  ((Machine.initial.addDistances (({} : Resolver).run overridingProgram).2.distances).interpret 12
    overridingProgram).2

/-- A method of the class `B` with the object `b`. -/
def Machine.methodWithObject? (m : Machine) (name : String) : Option (Closure × Value) :=
  match m.global? "B", m.global? "b" with
  | some (.class cls), some b => (cls.methods.lookup name).map fun f => (f, b)
  | _, _ => none

/-- A method that is found is within reach with its object. -/
theorem reached_overriding {name : String} {f : Closure} {b : Value}
    (h : overridingMachine.methodWithObject? name = some (f, b)) :
    ∃ held, overridingMachine.Reached held ∧ overridingMachine.Has held (.function f) ∧
      overridingMachine.Has held (.value b) := by
  unfold Machine.methodWithObject? at h
  split at h
  · next cls b' hcls hb =>
    obtain ⟨f', hf, hpair⟩ := Option.map_eq_some_iff.1 h
    cases hpair
    obtain ⟨l₁, l₂, hmethods, -⟩ := List.lookup_eq_some_iff.1 hf
    have hmem : (name, f) ∈ cls.methods := hmethods ▸ List.mem_append_right _ List.mem_cons_self
    -- The object is held, and the method is a part of its class.
    refine ⟨[b, .class cls], ((Machine.Reached.initial.run _ 12 _).read hcls).read hb, ?_,
      .held List.mem_cons_self⟩
    exact .part (.part (.held (List.mem_cons_of_mem _ List.mem_cons_self)) (.class cls))
      (.method hmem)
  · cases h

/-- Whether the uses in the method `me` lead no farther than to its receiver. -/
def looksNear (m : Machine) : Bool :=
  match m.methodWithObject? "me" with
  | some (f, _) => decide (Near m.distances (f.declaration.uses [] []))
  | none => false

/-- Whether the method `f` answers one if it gets its receiver once, and finds no superclasses if it
gets it twice. -/
def losesSuper (m : Machine) : Bool :=
  match m.methodWithObject? "f" with
  | some (f, b) =>
    (match f.callBound b 12 .absent [] [] m with
      | .ok (.int n) _ => n == 1
      | _ => false) &&
    match f.callRebound b 12 .absent [] [] m with
      | .error (.located ⟨_, .superHere⟩) _ => true
      | _ => false
  | none => false

/-- On this machine the method `me` looks near and the method `f` loses its superclasses. -/
theorem overridingMachine_tests :
    (looksNear overridingMachine && losesSuper overridingMachine) = true := by cbv

/-- A method that uses its receiver only. -/
theorem rebinding_unseen_self : ∃ (m : Machine) (held : List Value) (f : Closure) (b : Value),
    m.Reached held ∧ m.Has held (.function f) ∧ m.Has held (.value b) ∧
      Near m.distances (f.declaration.uses [] []) ∧
      f.callRebound b 12 .absent [] [] m =
        seenBy (·.relocate ⟨m.store.environments.table.size + 1, .receiver f.declaration.id,
            m.store.environments.table.size⟩)
          ((do
            let _ ← f.bind b
            f.callBound b 12 .absent [] []) m) := by
  have hnear := (Bool.and_eq_true_iff.1 overridingMachine_tests).1
  unfold looksNear at hnear
  split at hnear
  · next f b hf =>
    obtain ⟨held, hm, hmethod, hb⟩ := reached_overriding hf
    replace hnear := of_decide_eq_true hnear
    exact ⟨_, held, f, b, hm, hmethod, hb, hnear, rebinding_unseen hm hmethod hb hnear 12 .absent
      (List.forall_mem_nil _) (List.forall_mem_nil _)⟩
  · cases hnear

/-- A method that uses the superclasses: it answers one if it gets its receiver once, and fails if
it gets it twice, since its distance leads to the first receiver then. -/
theorem rebinding_loses_super : ∃ (m : Machine) (held : List Value) (f : Closure) (b : Value),
    m.Reached held ∧ m.Has held (.function f) ∧ m.Has held (.value b) ∧
      (∃ m', f.callBound b 12 .absent [] [] m = .ok (.int 1) m') ∧
      ∃ t m', f.callRebound b 12 .absent [] [] m = .error (.located ⟨t, .superHere⟩) m' := by
  have hloses := (Bool.and_eq_true_iff.1 overridingMachine_tests).2
  unfold losesSuper at hloses
  split at hloses
  · next f b hf =>
    obtain ⟨held, hm, hmethod, hb⟩ := reached_overriding hf
    -- Both calls were tried out on the machine; their outcomes are read off.
    obtain ⟨honce, htwice⟩ := Bool.and_eq_true_iff.1 hloses
    refine ⟨_, held, f, b, hm, hmethod, hb, ?_, ?_⟩
    · split at honce
      · next n m' hr => exact ⟨m', beq_iff_eq.1 honce ▸ hr⟩
      · cases honce
    · split at htwice
      · next t m' hr => exact ⟨t, m', hr⟩
      · cases htwice
  · cases hloses

end ClassScript
