import ClassScript.Proofs.Machine.Changes
import ClassScript.Proofs.Machine.Growth

/-!
# What a step puts back

A step may move to another scope, make a call or name another call site, and it leaves none of
these behind: `Machine.Restored` compares the machine before a step with the machine after it, and
`Exec.Restores` says that a step restores every machine, whether it ends with a result or is left
early. The lemmas cover the steps that run no code of their own. An active call is put back by the
construction around it, but `restored_inFrame` also needs that there is room for it, which is what
bounds the calls that are active at once.
-/

namespace ClassScript

/-- The machine after a step: its bookkeeping is what it was before, no more calls were active at
once than the bound allows or were active already, and the scopes have at most grown. -/
structure Machine.Restored (m m' : Machine) : Prop where
  /-- The current scope is the same one. -/
  scope : m'.scope = m.scope
  /-- The active calls are the same ones. -/
  calls : m'.calls = m.calls
  /-- The call site is the same one. -/
  site : m'.site = m.site
  /-- The bound on the active calls is the same. -/
  maxDepth : m'.maxDepth = m.maxDepth
  /-- The distances of uses are the same. -/
  distances : m'.distances = m.distances
  /-- The mark of the greatest number of active calls never sinks. -/
  mark : m.deepest ≤ m'.deepest
  /-- Calls were nested at most to the bound, or as deep as they were. -/
  deepest : m'.deepest ≤ max m.deepest (max m.maxDepth.toNat m.calls.depth)
  /-- Scopes were made and names were bound. -/
  environments : m.store.environments.Grows m'.store.environments
  /-- The store is what changes have made of it. -/
  store : m.store.Evolves m'.store

namespace Machine.Restored

/-- A machine is restored where nothing was done. -/
@[refl]
theorem refl (m : Machine) : m.Restored m where
  scope := rfl
  calls := rfl
  site := rfl
  maxDepth := rfl
  distances := rfl
  mark := Nat.le_refl _
  deepest := by omega
  environments := .refl _
  store := .refl

/-- Two steps in a row restore the machine if each of them does. -/
theorem trans {m₁ m₂ m₃ : Machine} (h₁ : m₁.Restored m₂) (h₂ : m₂.Restored m₃) :
    m₁.Restored m₃ where
  scope := h₂.scope.trans h₁.scope
  calls := h₂.calls.trans h₁.calls
  site := h₂.site.trans h₁.site
  maxDepth := h₂.maxDepth.trans h₁.maxDepth
  distances := h₂.distances.trans h₁.distances
  mark := Nat.le_trans h₁.mark h₂.mark
  deepest := by
    -- The second step starts as deep as the first one ended, with the same limit.
    have d₁ := h₁.deepest
    have d₂ := h₂.deepest
    rw [h₁.maxDepth, h₁.calls] at d₂
    omega
  environments := h₁.environments.trans h₂.environments
  store := h₁.store.trans h₂.store

/-- Changes to the store alone restore the machine if the scopes at most grow. -/
theorem of_store {m : Machine} {s : Store} (h : m.store.environments.Grows s.environments)
    (hs : m.store.Evolves s) : m.Restored { m with store := s } :=
  { Restored.refl m with environments := h, store := hs }

end Machine.Restored

namespace Store

/-- Setting a key of a map leaves the scopes alone. -/
theorem environments_mapSet (s : Store) (m : Nat) (key value : Value) :
    (s.mapSet m key value).environments = s.environments := by
  unfold mapSet
  dsimp only
  split <;> rfl

/-- So does taking a key out. -/
theorem environments_mapRemove (s : Store) (m : Nat) (key : Value) :
    (s.mapRemove m key).environments = s.environments := by
  unfold mapRemove
  dsimp only
  split <;> rfl

/-- Setting a key leaves the identities of classes alone. -/
theorem declared_mapSet (s : Store) (m : Nat) (key value : Value) :
    (s.mapSet m key value).declared = s.declared := by
  unfold mapSet
  dsimp only
  split <;> rfl

/-- So does taking a key out. -/
theorem declared_mapRemove (s : Store) (m : Nat) (key : Value) :
    (s.mapRemove m key).declared = s.declared := by
  unfold mapRemove
  dsimp only
  split <;> rfl

/-- Setting a key gives no identity out. -/
theorem nextId_mapSet (s : Store) (m : Nat) (key value : Value) :
    (s.mapSet m key value).nextId = s.nextId := by
  unfold mapSet
  dsimp only
  split <;> rfl

/-- Neither does taking a key out. -/
theorem nextId_mapRemove (s : Store) (m : Nat) (key : Value) :
    (s.mapRemove m key).nextId = s.nextId := by
  unfold mapRemove
  dsimp only
  split <;> rfl

end Store

namespace Exec

variable {α β : Type}

/-- A step between a change of the machine and another one that puts back what was changed. -/
def around (enter : Machine → Machine) (leave : Machine → Machine → Machine) (x : Exec α) :
    Exec α := fun m =>
  match x (enter m) with
  | .ok a m' => .ok a (leave m m')
  | .error e m' => .error e (leave m m')

/-- The machine that a step ends with, with a result or early. -/
def final (x : Exec α) (m : Machine) : Machine :=
  match x m with
  | .ok _ m' => m'
  | .error _ m' => m'

/-- A step with a result ends with its machine. -/
theorem final_ok {x : Exec α} {m m' : Machine} {a : α} (h : x m = .ok a m') : final x m = m' := by
  simp only [final, h]

/-- A step that stops early ends with its machine as well. -/
theorem final_error {x : Exec α} {m m' : Machine} {e : Interrupt} (h : x m = .error e m') :
    final x m = m' := by
  simp only [final, h]

/-- A step that restores every machine. -/
structure Restores (x : Exec α) : Prop where
  /-- The machine that the step ends with, from any machine. -/
  restored : ∀ m : Machine, m.Restored (final x m)

/-- A step in two parts, from its first part. -/
theorem bind_apply (x : Exec α) (f : α → Exec β) (m : Machine) :
    (x >>= f) m =
      match x m with
      | .ok a m' => f a m'
      | .error e m' => .error e m' := by
  simp only [bind, EStateM.bind]
  cases x m <;> rfl

/-- Steps in a row restore one machine if each of them restores the one that it gets. -/
theorem restored_bind {x : Exec α} {f : α → Exec β} {m : Machine} (hx : m.Restored (final x m))
    (hf : ∀ a m', x m = .ok a m' → m'.Restored (final (f a) m')) :
    m.Restored (final (x >>= f) m) := by
  simp only [final, bind_apply] at hx hf ⊢
  cases h : x m with
  | ok a m' =>
    rw [h] at hx
    exact hx.trans (hf a m' h)
  | error e m' =>
    rw [h] at hx
    exact hx

/-- A call for which there is room may be active while its body runs. -/
theorem restored_inFrame {frame : Frame} {x : Exec α} {m : Machine}
    (room : (m.calls.depth : Int) < m.maxDepth)
    (hx : ∀ m' : Machine, m'.calls = m.calls.push frame → m'.Restored (final x m')) :
    m.Restored (final (inFrame frame x) m) := by
  let inner : Machine :=
    { m with calls := m.calls.push frame, deepest := max m.deepest (m.calls.depth + 1) }
  have h := hx inner rfl
  have e₁ : inner.deepest = max m.deepest (m.calls.depth + 1) := rfl
  -- The mark of the deepest call has at most grown.
  have hm : m.deepest ≤ (final x inner).deepest := by
    have hm := h.mark
    rw [e₁] at hm
    omega
  -- There was room for one more call, so the bound was not passed.
  have hd : (final x inner).deepest ≤ max m.deepest (max m.maxDepth.toNat m.calls.depth) := by
    have hd := h.deepest
    have e₂ : inner.maxDepth = m.maxDepth := rfl
    have e₃ : inner.calls.depth = m.calls.depth + 1 := rfl
    rw [e₁, e₂, e₃] at hd
    omega
  cases hr : x inner with
  | ok a m' =>
    -- The body gave back the calls with the new one on top, so taking the last one away restores
    -- them.
    rw [final_ok hr] at h hm hd
    have e : inFrame frame x m = .ok a { m' with calls := m'.calls.pop } := by
      simp only [inFrame, inner] at hr ⊢
      rw [hr]
    rw [final_ok e]
    exact ⟨h.scope, congrArg Calls.pop h.calls, h.site, h.maxDepth, h.distances, hm, hd,
      h.environments, h.store⟩
  | error e m' =>
    rw [final_error hr] at h hm hd
    have e : inFrame frame x m = .error e { m' with calls := m'.calls.pop } := by
      simp only [inFrame, inner] at hr ⊢
      rw [hr]
    rw [final_error e]
    exact ⟨h.scope, congrArg Calls.pop h.calls, h.site, h.maxDepth, h.distances, hm, hd,
      h.environments, h.store⟩

namespace Restores

/-! ### Steps without parts -/

/-- A value restores the machine. -/
theorem pure (a : α) : Restores (Pure.pure a) := ⟨fun m => .refl m⟩

/-- So does a step that stops. -/
theorem throw (e : Interrupt) : Restores (MonadExcept.throw e : Exec α) := ⟨fun m => .refl m⟩

/-- So does looking at the machine. -/
theorem get : Restores MonadState.get := ⟨fun m => .refl m⟩

/-- A change that restores the machine. -/
theorem modify {f : Machine → Machine} (h : ∀ m : Machine, m.Restored (f m)) :
    Restores (modify f : Exec PUnit) := ⟨h⟩

/-- Changes to the store in which the scopes at most grow. -/
theorem update {f : Store → Store} (h : ∀ s : Store, s.environments.Grows (f s).environments)
    (hs : ∀ s : Store, s.Evolves (f s)) : Restores (Exec.update f) :=
  ⟨fun m => .of_store (h m.store) (hs m.store)⟩

/-- Something new in the store, where the scopes at most grow. -/
theorem allocate {f : Store → Store × α}
    (h : ∀ s : Store, s.environments.Grows (f s).1.environments)
    (hs : ∀ s : Store, s.Evolves (f s).1) : Restores (Exec.allocate f) :=
  ⟨fun m => .of_store (h m.store) (hs m.store)⟩

/-! ### Steps with parts -/

/-- Steps in a row restore every machine if each of them does. -/
theorem bind {x : Exec α} {f : α → Exec β} (hx : Restores x) (hf : ∀ a, Restores (f a)) :
    Restores (x >>= f) :=
  ⟨fun m => restored_bind (hx.restored m) fun a m' _ => (hf a).restored m'⟩

/-! ### Steps on the store -/

/-- Reading the store restores the machine. -/
theorem read (f : Store → α) : Restores (Exec.read f) := bind get fun _ => pure _

/-- So does giving an identity out. -/
theorem freshId : Restores Exec.freshId :=
  allocate (fun _ => .refl _) fun _ => .of_outside rfl rfl rfl

/-- So does making a scope. -/
theorem newScope (origin : Scope.Origin) (parent : ScopeId) :
    Restores (Exec.newScope origin parent) :=
  allocate (fun s => s.environments.grows_push ..) fun _ => .of_outside rfl rfl rfl

/-- So does binding a name. -/
theorem define (scope : ScopeId) (name : String) (v : Value) :
    Restores (Exec.define scope name v) :=
  update (fun s => s.environments.grows_define ..) fun _ => .of_outside rfl rfl rfl

/-- So does binding one in the current scope. -/
theorem defineHere (name : String) (v : Value) : Restores (Exec.defineHere name v) :=
  bind get fun _ => define ..

/-- So does asking which method the innermost call refers to. -/
theorem home : Restores Exec.home := bind get fun _ => pure _

end Restores

end Exec

end ClassScript
