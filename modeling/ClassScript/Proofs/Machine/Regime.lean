import ClassScript.Machine.Run
import ClassScript.Proofs.Machine.Contents
import ClassScript.Proofs.Machine.Restores

/-!
# What is known while a program runs

A `Regime` is what is known of a machine and of the values on it while a program runs: a condition
on machines, a condition on the values of a machine, and what a step leaves of the machine that it
started on. `Exec.Obeys` compares two steps on one machine that meets the condition: they do the
same there, the machine meets the condition again, and the result has a given property. The rules
follow the ways in which steps are built and hold in every regime, and so does what native code
does with the values that it is given.

A regime may also have a view of the scopes. The second step then runs on the machine with these
scopes, and it does the same if it leads to the view of what the first one leads to.
-/

namespace ClassScript

/-- A value that is neither made of other values nor of classes or functions of the program. -/
def Value.Flat : Value → Prop
  | .instance .. | .pair .. | .varargs .. | .iteratorResult .. | .class _ | .closure _
  | .boundMethod .. | .superclasses _ => False
  | _ => True

/-- A later machine with the same scopes and the same bookkeeping. Values may have been made, and
written to fields, lists, maps, iterators and the output. -/
structure Machine.Quiet (m m' : Machine) : Prop where
  /-- The scopes are the same. -/
  environments : m'.store.environments = m.store.environments
  /-- No name was declared. -/
  declared : m'.store.declared = m.store.declared
  /-- Identities are never taken back. -/
  nextId : m.store.nextId ≤ m'.store.nextId
  /-- The store is what changes have made of it. -/
  store : m.store.Evolves m'.store
  /-- The current scope is the same one. -/
  scope : m'.scope = m.scope
  /-- The active calls are the same ones. -/
  calls : m'.calls = m.calls
  /-- As many calls were active at once. -/
  deepest : m'.deepest = m.deepest
  /-- The call site is the same one. -/
  site : m'.site = m.site
  /-- The bound on the active calls is the same. -/
  maxDepth : m'.maxDepth = m.maxDepth
  /-- The distances of uses are the same. -/
  distances : m'.distances = m.distances

/-- Changes of the store outside of the scopes. -/
theorem Machine.Quiet.of_store {m : Machine} {s : Store}
    (environments : s.environments = m.store.environments)
    (declared : s.declared = m.store.declared) (nextId : s.nextId = m.store.nextId)
    (store : m.store.Evolves s) : m.Quiet { m with store := s } :=
  ⟨environments, declared, Nat.le_of_eq nextId.symm, store, rfl, rfl, rfl, rfl, rfl, rfl⟩

/-- A change of the store outside of the scopes, the blocks, the lists and the maps. -/
theorem Machine.Quiet.of_outside {m : Machine} {s : Store}
    (environments : s.environments = m.store.environments)
    (declared : s.declared = m.store.declared) (nextId : m.store.nextId ≤ s.nextId)
    (blocks : s.blocks = m.store.blocks) (lists : s.lists = m.store.lists)
    (maps : s.maps = m.store.maps) : m.Quiet { m with store := s } :=
  ⟨environments, declared, nextId, .of_outside blocks lists maps, rfl, rfl, rfl, rfl, rfl, rfl⟩

/-- The method that the innermost call refers to, or nothing. -/
def Machine.home (m : Machine) : String := (m.calls.frames.head?.map Frame.home).getD ""

/-- What is known of machines, and of the values on them, while a program runs. -/
structure Regime where
  /-- What a machine is known to meet between any two steps. -/
  Inv : Machine → Prop
  /-- What a value on a machine is known to meet. -/
  Holds : Machine → Value → Prop
  /-- What the machine behind a step has to do with the one in front of it. -/
  Later : Machine → Machine → Prop
  /-- Nothing has to happen. -/
  refl : ∀ m, Later m m
  /-- A step may follow a step. -/
  trans : ∀ {m₁ m₂ m₃}, Later m₁ m₂ → Later m₂ m₃ → Later m₁ m₃
  /-- What is known of a value stays known. -/
  holds : ∀ {m m' v}, Later m m' → Holds m v → Holds m' v
  /-- Everything in the store outside of the scopes is known. -/
  contents : ∀ {m}, Inv m → m.store.Contents (Holds m)
  /-- Only changes of scopes and of the bookkeeping matter, as long as what is written is known. -/
  quiet : ∀ {m m'}, Inv m → m.Quiet m' → m'.store.Contents (Holds m) → Inv m' ∧ Later m m'
  /-- The call site may be any. -/
  enterSite : ∀ {m site}, Inv m → Inv { m with site }
  /-- A call site that is put back was no change. -/
  leaveSite : ∀ {m m' site}, Inv m' → Later { m with site } m' →
    Inv { m' with site := m.site } ∧ Later m { m' with site := m.site }
  /-- The call site does not matter for values. -/
  holdsSite : ∀ {m site v}, Holds m v → Holds { m with site } v
  /-- A value without parts is known. -/
  flat : ∀ {m v}, v.Flat → Holds m v
  /-- Two values are known if each of them is. -/
  pair : ∀ {m id a b}, Holds m (.pair id a b) ↔ Holds m a ∧ Holds m b
  /-- Collected arguments are known if each of them is. -/
  varargs : ∀ {m id items}, Holds m (.varargs id items) ↔ ∀ v ∈ items, Holds m v
  /-- A step of an iteration is known if its value is. -/
  iteratorResult : ∀ {m id v isEnd}, Holds m (.iteratorResult id v isEnd) ↔ Holds m v
  /-- A native method is known if its receiver is. -/
  boundMethod : ∀ {m id v method}, Holds m (.boundMethod id v method) ↔ Holds m v
  /-- The scopes that the second of two steps has in place of those of the first one. -/
  view : Environments → Environments := id

/-- The store that the second of two steps has in place of that of the first one. -/
def Regime.seenStore (R : Regime) (s : Store) : Store :=
  { s with environments := R.view s.environments }

/-- The machine that the second of two steps has in place of that of the first one. -/
def Regime.seen (R : Regime) (m : Machine) : Machine := { m with store := R.seenStore m.store }

/-- Without a view of the scopes nothing is seen in place of anything else. -/
theorem Regime.seen_eq {R : Regime} (hview : R.view = id) (m : Machine) : R.seen m = m :=
  congrArg (fun view => { m with store.environments := view m.store.environments }) hview

namespace Exec

/-- What a step leads to, seen on another machine. -/
def seenBy {α : Type} (f : Machine → Machine) :
    EStateM.Result Interrupt Machine α → EStateM.Result Interrupt Machine α
  | .ok a m => .ok a (f m)
  | .error e m => .error e (f m)

variable {α β : Type} {R : Regime} {m : Machine}

/-- Two steps that do the same on a machine of a regime, where the second one runs on what is seen
of the machine, and whose result, if they have one, has a property. The machine stays in the regime
on every way out. -/
structure Obeys (R : Regime) (m : Machine) (x y : Exec α) (Q : α → Machine → Prop) : Prop where
  /-- The steps do the same. -/
  same : R.Inv m → y (R.seen m) = seenBy R.seen (x m)
  /-- The machine stays in the regime, and the result has the property. -/
  ok : R.Inv m → ∀ {a m'}, x m = .ok a m' → R.Later m m' ∧ R.Inv m' ∧ Q a m'
  /-- The machine stays in the regime when the steps are left early. -/
  error : R.Inv m → ∀ {e m'}, x m = .error e m' → R.Later m m' ∧ R.Inv m'

/-- Steps that end with a value that is known. -/
abbrev Yields (R : Regime) (m : Machine) (x y : Exec Value) : Prop :=
  Obeys R m x y fun v m' => R.Holds m' v

/-- Steps whose result does not matter. -/
abbrev Abides (R : Regime) (m : Machine) (x y : Exec α) : Prop := Obeys R m x y fun _ _ => True

namespace Obeys

variable {x y : Exec α} {Q Q' : α → Machine → Prop} {T : β → Machine → Prop}

/-- Where a machine is seen as it is, so is what a step leads to. -/
theorem seenBy_seen (hview : R.view = id) (r : EStateM.Result Interrupt Machine α) :
    seenBy R.seen r = r := by
  cases r with
  | ok a m => exact congrArg (EStateM.Result.ok a) (R.seen_eq hview m)
  | error e m => exact congrArg (EStateM.Result.error e) (R.seen_eq hview m)

/-- Without a view of the scopes both steps run on the same machine. -/
theorem eq (h : Obeys R m x y Q) (hview : R.view = id) (hm : R.Inv m) : y m = x m := by
  have hsame := h.same hm
  rwa [seenBy_seen hview, R.seen_eq hview] at hsame

/-- Steps that run on the same machine, without a view of the scopes. -/
theorem of_eq (hview : R.view = id) (same : R.Inv m → y m = x m)
    (ok : R.Inv m → ∀ {a m'}, x m = .ok a m' → R.Later m m' ∧ R.Inv m' ∧ Q a m')
    (error : R.Inv m → ∀ {e m'}, x m = .error e m' → R.Later m m' ∧ R.Inv m') :
    Obeys R m x y Q where
  same hm := by
    rw [seenBy_seen hview, R.seen_eq hview]
    exact same hm
  ok := ok
  error := error

/-- A step has every property of its result that follows from the one it has. -/
theorem mono (h : Obeys R m x y Q)
    (hQ : ∀ a m', R.Later m m' → R.Inv m' → Q a m' → Q' a m') : Obeys R m x y Q' where
  same := h.same
  ok hm _ _ hr :=
    have ⟨hl, hi, hq⟩ := h.ok hm hr
    ⟨hl, hi, hQ _ _ hl hi hq⟩
  error := h.error

/-- What the machine meets may be used. -/
theorem assume (h : R.Inv m → Obeys R m x y Q) : Obeys R m x y Q where
  same hm := (h hm).same hm
  ok hm := (h hm).ok hm
  error hm := (h hm).error hm

/-- What a step leads to is known besides what its regime says. -/
theorem also {T : α → Prop} (h : Obeys R m x y Q) (hx : ∀ a m', x m = .ok a m' → T a) :
    Obeys R m x y fun a m' => Q a m' ∧ T a where
  same := h.same
  ok hm _ _ hr :=
    have ⟨hl, hm', hq⟩ := h.ok hm hr
    ⟨hl, hm', hq, hx _ _ hr⟩
  error := h.error

/-! ### Steps without parts -/

/-- A value keeps the machine. -/
theorem pure {a : α} (h : R.Inv m → Q a m) : Obeys R m (Pure.pure a) (Pure.pure a) Q where
  same _ := rfl
  ok hm _ _ hr := by
    cases hr
    exact ⟨R.refl m, hm, h hm⟩
  error _ _ _ hr := by cases hr

/-- A result that does not matter. -/
theorem done {a : α} : Abides R m (Pure.pure a) (Pure.pure a) := .pure fun _ => trivial

/-- A value without parts. -/
theorem flat {v : Value} (h : v.Flat) : Yields R m (Pure.pure v) (Pure.pure v) :=
  .pure fun _ => R.flat h

/-- So does a step that stops. -/
theorem throw (e : Interrupt) :
    Obeys R m (MonadExcept.throw e : Exec α) (MonadExcept.throw e) Q where
  same _ := rfl
  ok _ _ _ hr := by cases hr
  error hm _ _ hr := by
    cases hr
    exact ⟨R.refl m, hm⟩

/-- So does an error. -/
theorem raise (cause : Cause) : Obeys R m (Exec.raise cause : Exec α) (Exec.raise cause) Q :=
  throw _

/-- So does an error at a place. -/
theorem raiseAt (token : Token) (cause : Cause) :
    Obeys R m (Exec.raiseAt token cause : Exec α) (Exec.raiseAt token cause) Q :=
  throw _

/-- So does a crash. -/
theorem fault : Obeys R m (Exec.fault : Exec α) Exec.fault Q := throw _

/-- A change of the machine with a result. -/
theorem modifyGet {f : Machine → α × Machine}
    (hf : R.Inv m → f (R.seen m) = ((f m).1, R.seen (f m).2))
    (h : R.Inv m → R.Later m (f m).2 ∧ R.Inv (f m).2 ∧ Q (f m).1 (f m).2) :
    Obeys R m (MonadState.modifyGet f) (MonadState.modifyGet f) Q where
  same hm := by
    show (match f (R.seen m) with | (a, m') => EStateM.Result.ok a m') = _
    rw [hf hm]
    rfl
  ok hm _ _ hr := by
    cases hr
    exact h hm
  error _ _ _ hr := by cases hr

/-- Something new outside of the scopes. -/
theorem allocate {f : Store → Store × α}
    (hf : f (R.seenStore m.store) = (R.seenStore (f m.store).1, (f m.store).2))
    (hq : m.Quiet { m with store := (f m.store).1 })
    (hc : R.Inv m → (f m.store).1.Contents (R.Holds m)) :
    Abides R m (Exec.allocate f) (Exec.allocate f) := by
  refine .modifyGet (fun _ => ?_) fun hm => ?_
  · exact congrArg (fun r : Store × α => (r.2, { m with store := r.1 })) hf
  · obtain ⟨hm', hl⟩ := R.quiet hm hq (hc hm)
    exact ⟨hl, hm', trivial⟩

/-- A change outside of the scopes. -/
theorem update {f : Store → Store} (hf : f (R.seenStore m.store) = R.seenStore (f m.store))
    (hq : m.Quiet { m with store := f m.store })
    (hc : R.Inv m → (f m.store).Contents (R.Holds m)) :
    Abides R m (Exec.update f) (Exec.update f) := by
  refine .modifyGet (fun _ => ?_) fun hm => ?_
  · exact congrArg (fun s : Store => ((), { m with store := s })) hf
  · obtain ⟨hm', hl⟩ := R.quiet hm hq (hc hm)
    exact ⟨hl, hm', trivial⟩

/-! ### Steps with parts -/

/-- Steps in a row obey a regime if the second one does behind what the first one may lead to. -/
theorem bind {f g : α → Exec β} (hx : Obeys R m x y Q)
    (hf : ∀ a m', R.Later m m' → R.Inv m' → Q a m' → Obeys R m' (f a) (g a) T) :
    Obeys R m (x >>= f) (y >>= g) T where
  same hm := by
    rw [bind_apply, bind_apply, hx.same hm]
    cases hr : x m with
    | ok a m' =>
      -- Both steps end alike, and the second ones start on machines that are seen alike.
      obtain ⟨hl, hm', hq⟩ := hx.ok hm hr
      exact (hf a m' hl hm' hq).same hm'
    | error e m' => rfl
  ok hm b m'' hr := by
    rw [bind_apply] at hr
    cases hx' : x m with
    | ok a m' =>
      rw [hx'] at hr
      obtain ⟨hl, hm', hq⟩ := hx.ok hm hx'
      obtain ⟨hl', hm'', ht⟩ := (hf a m' hl hm' hq).ok hm' hr
      exact ⟨R.trans hl hl', hm'', ht⟩
    | error e m' =>
      rw [hx'] at hr
      cases hr
  error hm e m'' hr := by
    rw [bind_apply] at hr
    cases hx' : x m with
    | ok a m' =>
      rw [hx'] at hr
      obtain ⟨hl, hm', hq⟩ := hx.ok hm hx'
      obtain ⟨hl', hm''⟩ := (hf a m' hl hm' hq).error hm' hr
      exact ⟨R.trans hl hl', hm''⟩
    | error e' m' =>
      rw [hx'] at hr
      cases hr
      exact hx.error hm hx'

/-- What is made of a result has what follows from its property. -/
theorem map {f : α → β} (hx : Obeys R m x y Q)
    (hf : ∀ a m', R.Later m m' → R.Inv m' → Q a m' → T (f a) m') :
    Obeys R m (f <$> x) (f <$> y) T :=
  hx.bind fun a m' hl hm' hq => .pure fun _ => hf a m' hl hm' hq

/-- Looks at the machine and goes on. -/
theorem getBind {f g : Machine → Exec β} (hg : R.Inv m → g (R.seen m) = g m)
    (hf : R.Inv m → Obeys R m (f m) (g m) T) :
    Obeys R m (MonadState.get >>= f) (MonadState.get >>= g) T where
  same hm := by
    show g (R.seen m) (R.seen m) = _
    rw [hg hm]
    exact (hf hm).same hm
  ok hm _ _ hr := (hf hm).ok hm hr
  error hm _ _ hr := (hf hm).error hm hr

/-- Looks at the store and goes on. -/
theorem readBind {r : Store → α} {f g : α → Exec β}
    (hr : R.Inv m → r (R.seenStore m.store) = r m.store)
    (hf : R.Inv m → Obeys R m (f (r m.store)) (g (r m.store)) T) :
    Obeys R m (Exec.read r >>= f) (Exec.read r >>= g) T where
  same hm := by
    show g (r (R.seenStore m.store)) (R.seen m) = _
    rw [hr hm]
    exact (hf hm).same hm
  ok hm _ _ hr := (hf hm).ok hm hr
  error hm _ _ hr := (hf hm).error hm hr

/-- Looks at the store. -/
theorem read {r : Store → α} (hr : R.Inv m → r (R.seenStore m.store) = r m.store)
    (h : R.Inv m → Q (r m.store) m) : Obeys R m (Exec.read r) (Exec.read r) Q :=
  .getBind (fun hm => congrArg Pure.pure (hr hm)) fun hm => .pure fun _ => h hm

/-- A change of the machine that is put back on every way out. -/
theorem around {enter : Machine → Machine} {leave : Machine → Machine → Machine}
    (h : Obeys R (enter m) x y Q)
    (hseen : enter (R.seen m) = R.seen (enter m) ∧
      ∀ m', leave (R.seen m) (R.seen m') = R.seen (leave m m'))
    (henter : R.Inv m → R.Inv (enter m))
    (hleave : ∀ {m'}, R.Inv m → R.Inv m' → R.Later (enter m) m' →
      R.Later m (leave m m') ∧ R.Inv (leave m m'))
    (hQ : ∀ a m', R.Inv m → R.Inv m' → Q a m' → Q' a (leave m m')) :
    Obeys R m (Exec.around enter leave x) (Exec.around enter leave y) Q' where
  same hm := by
    unfold Exec.around
    -- The change is seen alike when it is made and when it is put back.
    rw [hseen.1, h.same (henter hm)]
    cases x (enter m) with
    | ok a m' => exact congrArg (EStateM.Result.ok a) (hseen.2 m')
    | error e m' => exact congrArg (EStateM.Result.error e) (hseen.2 m')
  ok hm a m' hr := by
    unfold Exec.around at hr
    cases hx : x (enter m) with
    | ok b m'' =>
      rw [hx] at hr
      cases hr
      obtain ⟨hl, hm'', hq⟩ := h.ok (henter hm) hx
      -- What the step leaves is a later machine of the changed one, and the rest is put back.
      obtain ⟨hl', hm'⟩ := hleave hm hm'' hl
      exact ⟨hl', hm', hQ _ _ hm hm'' hq⟩
    | error e m'' =>
      rw [hx] at hr
      cases hr
  error hm e m' hr := by
    unfold Exec.around at hr
    cases hx : x (enter m) with
    | ok b m'' =>
      rw [hx] at hr
      cases hr
    | error e' m'' =>
      rw [hx] at hr
      cases hr
      obtain ⟨hl, hm''⟩ := h.error (henter hm) hx
      exact hleave hm hm'' hl

/-- The call site is another one for the time of a step. -/
theorem atSite {site : Token} (h : Obeys R { m with site } x y Q)
    (hQ : ∀ a m', Q a m' → Q' a { m' with site := m.site }) :
    Obeys R m (Exec.atSite site x) (Exec.atSite site y) Q' :=
  h.around ⟨rfl, fun _ => rfl⟩ R.enterSite (fun _ hm' hl => (R.leaveSite hm' hl).symm)
    fun a m' _ _ hq => hQ a m' hq

/-- The call site is part of no regime. -/
theorem located (site : Token) (h : Obeys R m x y Q) :
    Obeys R m (Exec.located site x) (Exec.located site y) Q where
  same hm := by
    unfold Exec.located
    rw [h.same hm]
    cases x m <;> rfl
  ok hm a m' hr := by
    -- The call site is noted for errors, and is part of no machine that is known.
    simp only [Exec.located] at hr
    split at hr
    · next hx =>
      cases hr
      exact h.ok hm hx
    · cases hr
  error hm e m' hr := by
    simp only [Exec.located] at hr
    split at hr
    · cases hr
    · next hx =>
      cases hr
      exact h.error hm hx

/-- A step that raises another error in place of its own still obeys. -/
theorem orRaise (error : RuntimeError) (h : Obeys R m x y Q) :
    Obeys R m (Exec.orRaise x error) (Exec.orRaise y error) Q where
  same hm := by
    unfold Exec.orRaise
    -- A result stays, an error is replaced, and a crash stays a crash.
    rw [h.same hm]
    cases x m with
    | ok a m' => rfl
    | error e m' => cases e <;> rfl
  ok hm a m' hr := by
    simp only [Exec.orRaise] at hr
    split at hr
    · next hx =>
      cases hr
      exact h.ok hm hx
    all_goals cases hr
  error hm e m' hr := by
    simp only [Exec.orRaise] at hr
    split at hr
    · cases hr
    all_goals
      next hx =>
      cases hr
      exact h.error hm hx

end Obeys

end Exec

end ClassScript
