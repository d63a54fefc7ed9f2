import ClassScript.Proofs.Machine.Regime
import ClassScript.Proofs.Machine.Sound

/-!
# Two machines side by side

`Exec.Tracks` compares two steps on one sound machine: they do the same there, the machine stays
sound, and the result has a given property. The second step is the first one on an engine that is
being watched, so that the rules below show at once that watching changes nothing and that every
state on the way is sound. Sound machines are a regime, so most rules are those of every regime.
-/

namespace ClassScript

open Scope

/-! ### Sound machines as a regime -/

namespace Value.Sound

variable {L : Ledger} {es : Environments}

/-- A value without parts is sound. -/
theorem flat {v : Value} (h : v.Flat) : v.Sound L es := by
  cases v <;> first
    | exact h.elim
    | constructor

/-- A pair is sound exactly if both of its values are. -/
theorem pair_iff {id : ObjectId} {a b : Value} :
    (Value.pair id a b).Sound L es ↔ a.Sound L es ∧ b.Sound L es := by
  constructor
  · intro h
    cases h with
    | pair _ ha hb => exact ⟨ha, hb⟩
  · exact fun h => .pair id h.1 h.2

/-- Collected arguments are sound if each one is. -/
theorem varargs_iff {id : ObjectId} {items : List Value} :
    (Value.varargs id items).Sound L es ↔ ∀ v ∈ items, v.Sound L es := by
  constructor
  · intro h
    cases h with
    | varargs _ h => exact h
  · exact .varargs id

/-- An iterator's reply is sound if its element is. -/
theorem iteratorResult_iff {id : ObjectId} {v : Value} {isEnd : Bool} :
    (Value.iteratorResult id v isEnd).Sound L es ↔ v.Sound L es := by
  constructor
  · intro h
    cases h with
    | iteratorResult _ _ h => exact h
  · exact .iteratorResult id isEnd

/-- A native method is sound if its receiver is. -/
theorem boundMethod_iff {id : ObjectId} {receiver : Value} {method : NativeMethod} :
    (Value.boundMethod id receiver method).Sound L es ↔ receiver.Sound L es := by
  constructor
  · intro h
    cases h with
    | boundMethod _ _ h => exact h
  · exact .boundMethod id method

end Value.Sound

/-- A change outside of scopes and calls. -/
theorem Machine.Sound.quiet {L : Ledger} {m m' : Machine} (h : m.Sound L) (hq : m.Quiet m')
    (hc : m'.store.Contents (m.Holds L)) : m'.Sound L ∧ m.Later m' := by
  refine ⟨⟨h.store.change hq.environments hq.declared hc, fun id => ?_⟩,
    ⟨hq.scope, hq.distances, hq.environments ▸ .refl _⟩⟩
  rw [hq.distances]
  exact h.distances id

/-- Sound machines, with sound values. -/
abbrev Regime.sound (L : Ledger) : Regime where
  Inv := Machine.Sound L
  Holds := Machine.Holds L
  Later := Machine.Later
  refl := .refl
  trans := .trans
  holds hl := hl.holds
  contents hm := hm.store.contents
  quiet hm := hm.quiet
  enterSite hm := ⟨hm.store, hm.distances⟩
  leaveSite hm hl := ⟨⟨hm.store, hm.distances⟩, ⟨hl.scope, hl.distances, hl.environments⟩⟩
  holdsSite hv := hv
  flat := .flat
  pair := Value.Sound.pair_iff
  varargs := Value.Sound.varargs_iff
  iteratorResult := Value.Sound.iteratorResult_iff
  boundMethod := Value.Sound.boundMethod_iff

/-! ### Steps on sound machines -/

namespace Exec

variable {α β : Type} {L : Ledger} {m : Machine}

/-- Two steps that do the same on a sound machine, keep it sound, and end with a result that has
a property, or early. -/
structure Tracks (L : Ledger) (m : Machine) (x y : Exec α) (Q : α → Machine → Prop) : Prop where
  /-- The steps do the same. -/
  same : m.Sound L → y m = x m
  /-- The machine stays sound, and the result has the property. -/
  ok : m.Sound L → ∀ {a m'}, x m = .ok a m' → m.Later m' ∧ m'.Sound L ∧ Q a m'
  /-- The machine stays sound when the steps are left early. -/
  error : m.Sound L → ∀ {e m'}, x m = .error e m' → m.Later m' ∧ m'.Sound L

/-- A step that ends with a sound value. -/
abbrev Gives (L : Ledger) (m : Machine) (x y : Exec Value) : Prop :=
  Tracks L m x y fun v m' => m'.Holds L v

/-- A step whose result does not matter. -/
abbrev Passes (L : Ledger) (m : Machine) (x y : Exec α) : Prop := Tracks L m x y fun _ _ => True

/-- A comparison on a sound machine is one in the regime of sound machines. -/
theorem tracks_iff {x y : Exec α} {Q : α → Machine → Prop} :
    Tracks L m x y Q ↔ Obeys (.sound L) m x y Q :=
  ⟨fun h => .of_eq rfl h.same h.ok h.error, fun h => ⟨h.eq rfl, h.ok, h.error⟩⟩

namespace Tracks

variable {x y : Exec α} {Q Q' : α → Machine → Prop} {R : β → Machine → Prop}

/-- A step has every property of its result that follows from the one it has. -/
theorem mono (h : Tracks L m x y Q)
    (hQ : ∀ a m', m.Later m' → m'.Sound L → Q a m' → Q' a m') : Tracks L m x y Q' :=
  tracks_iff.2 ((tracks_iff.1 h).mono hQ)

/-! #### Steps without parts -/

/-- A value keeps the machine sound. -/
theorem pure {a : α} (h : m.Sound L → Q a m) : Tracks L m (Pure.pure a) (Pure.pure a) Q :=
  tracks_iff.2 (.pure h)

/-- So does a step that stops. -/
theorem throw (e : Interrupt) :
    Tracks L m (MonadExcept.throw e : Exec α) (MonadExcept.throw e) Q :=
  tracks_iff.2 (.throw e)

/-- A change of the store. -/
theorem allocate {f : Store → Store × α}
    (h : m.Sound L → m.store.environments.Grows (f m.store).1.environments ∧
      (f m.store).1.Sound L) :
    Tracks L m (Exec.allocate f) (Exec.allocate f) fun a m' =>
      a = (f m.store).2 ∧ m' = { m with store := (f m.store).1 } := by
  refine tracks_iff.2 (.modifyGet (fun _ => rfl) fun hm => ?_)
  exact ⟨⟨rfl, rfl, (h hm).1⟩, ⟨(h hm).2, hm.distances⟩, rfl, rfl⟩

/-- A step on the store keeps the machine sound if the scopes grow and the store stays sound. -/
theorem update {f : Store → Store}
    (h : m.Sound L → m.store.environments.Grows (f m.store).environments ∧ (f m.store).Sound L) :
    Tracks L m (Exec.update f) (Exec.update f) fun _ m' => m' = { m with store := f m.store } := by
  refine tracks_iff.2 (.modifyGet (fun _ => rfl) fun hm => ?_)
  exact ⟨⟨rfl, rfl, (h hm).1⟩, ⟨(h hm).2, hm.distances⟩, rfl⟩

/-! #### Steps with parts -/

/-- Steps in a row keep it sound if the second one does behind what the first one leads to. -/
theorem bind {f g : α → Exec β} (hx : Tracks L m x y Q)
    (hf : ∀ a m', m.Later m' → m'.Sound L → Q a m' → Tracks L m' (f a) (g a) R) :
    Tracks L m (x >>= f) (y >>= g) R :=
  tracks_iff.2 ((tracks_iff.1 hx).bind fun a m' hl hm' hq => tracks_iff.1 (hf a m' hl hm' hq))

/-- Looks at the machine and goes on. -/
theorem getBind {f g : Machine → Exec β} (hf : m.Sound L → Tracks L m (f m) (g m) R) :
    Tracks L m (MonadState.get >>= f) (MonadState.get >>= g) R :=
  tracks_iff.2 (.getBind (fun _ => rfl) fun hm => tracks_iff.1 (hf hm))

/-- Looks at the store and goes on. -/
theorem readBind {r : Store → α} {f g : α → Exec β}
    (hf : m.Sound L → Tracks L m (f (r m.store)) (g (r m.store)) R) :
    Tracks L m (Exec.read r >>= f) (Exec.read r >>= g) R :=
  tracks_iff.2 (.readBind (fun _ => rfl) fun hm => tracks_iff.1 (hf hm))

/-- A further call is active for the time of a step. -/
theorem inFrame {frame : Frame}
    (h : Tracks L { m with
      calls := m.calls.push frame, deepest := max m.deepest (m.calls.depth + 1) } x y Q)
    (hQ : ∀ a m', Q a m' → Q' a { m' with calls := m'.calls.pop }) :
    Tracks L m (Exec.inFrame frame x) (Exec.inFrame frame y) Q' := by
  refine tracks_iff.2 ((tracks_iff.1 h).around ⟨rfl, fun _ => rfl⟩
    (fun hm => ⟨hm.store, hm.distances⟩) ?_ fun a m' _ _ hq => hQ a m' hq)
  exact fun _ hm' hl => ⟨⟨hl.scope, hl.distances, hl.environments⟩, ⟨hm'.store, hm'.distances⟩⟩

end Tracks

end Exec

end ClassScript
