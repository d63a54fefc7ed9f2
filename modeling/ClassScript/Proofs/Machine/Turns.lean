import ClassScript.Proofs.Machine.Bookkeeping
import ClassScript.Proofs.Machine.Windows

/-!
# Turns of a walk

A walk over a list or a map asks the program something at every turn, and the program may change
the list or map meanwhile. `Turns` relates the state at the start of a walk to the state in which an
index has its turn: if something that held at the start does not hold there, one turn before took it
away. Whatever runs on a machine, its store is what changes have made of the store before, and so
the stores of all machines that a program can get to were made by changes.
-/

namespace ClassScript

/-- A walk comes to an index, after one turn for each index before it. -/
inductive Turns {σ : Type} (turn : Nat → σ → σ → Prop) (s : σ) : Nat → σ → Prop where
  /-- The walk starts. -/
  | start : Turns turn s 0 s
  /-- A further turn. -/
  | next {i : Nat} {t u : σ} (h : Turns turn s i t) (ht : turn i t u) : Turns turn s (i + 1) u

namespace Turns

variable {σ : Type} {turn : Nat → σ → σ → Prop} {s t : σ} {i : Nat}

/-- What every turn keeps holds at every index. -/
theorem keeps {P : Nat → σ → Prop} (h : Turns turn s i t) (hs : P 0 s)
    (step : ∀ j u u', Turns turn s j u → turn j u u' → P j u → P (j + 1) u') : P i t := by
  induction h with
  | start => exact hs
  | next h ht ih => exact step _ _ _ h ht ih

/-- What holds at the start and not at an index was taken away by a turn before the index. -/
theorem taken {P : σ → Prop} (h : Turns turn s i t) (hs : P s) (ht : ¬P t) :
    ∃ j < i, ∃ u u', Turns turn s j u ∧ turn j u u' ∧ P u ∧ ¬P u' := by
  induction h with
  | start => exact absurd hs ht
  | @next j u u' h hu ih =>
    by_cases hp : P u
    · exact ⟨j, Nat.lt_succ_self j, u, u', h, hu, hp, ht⟩
    · obtain ⟨k, hk, found⟩ := ih hp
      exact ⟨k, Nat.lt_succ_of_lt hk, found⟩

end Turns

/-! ### Stores of running programs -/

/-- Every step that restores the machine leaves a store that changes have made. -/
theorem Exec.Restores.made {α : Type} {x : Exec α} (hx : Exec.Restores x) {m : Machine}
    (hm : m.store.Made) : (Exec.final x m).store.Made :=
  hm.evolves (hx.restored m).store

namespace Machine

/-- The store at the start is made of no changes. -/
theorem made_initial : Machine.initial.store.Made := ⟨Machine.initial.store.environments, .refl⟩

/-- A program makes changes only. -/
theorem made_interpret {m : Machine} (hm : m.store.Made) (fuel : Nat) (program : List Stmt) :
    (m.interpret fuel program).2.store.Made := by
  induction program generalizing m with
  | nil => exact hm
  | cons s rest ih =>
    have h := ((engine_restoring fuel).execute s).made hm
    unfold Machine.interpret Machine.interpretBy
    split
    · next hr => exact ih (Exec.final_ok hr ▸ h)
    · next hr =>
      rw [Exec.final_error hr] at h
      split <;> exact h

/-- So does what is asked from outside. -/
theorem made_ask {m : Machine} (hm : m.store.Made) {α : Type} {x : Exec α}
    (hx : Exec.Restores x) : (m.ask x).2.store.Made := by
  have h := hx.made hm
  unfold Machine.ask
  split
  · next hr => exact Exec.final_ok hr ▸ h
  · next hr =>
    rw [Exec.final_error hr] at h
    split <;> exact h

/-- The store of a machine that is at hand between programs was made by changes. -/
theorem Reachable.made {m : Machine} (h : m.Reachable) : m.store.Made := by
  -- Every step from outside makes only changes that the store allows.
  induction h with
  | initial => exact made_initial
  | interpret _ fuel program ih => exact made_interpret ih fuel program
  | addDistances _ ds ih => exact ih
  | setMaxDepth _ maxDepth ih => exact ih
  | setOutside _ output now ih => exact ih
  | defineGlobal _ name v ih => exact ih.evolves (.of_outside rfl rfl rfl)
  | call _ fuel callee args ih => exact made_ask ih ((engine_restoring fuel).invoke ..)
  | send _ fuel receiver name args ih =>
    exact made_ask ih (Engine.restores_send (engine_restoring fuel) ..)
  | stringify _ fuel v ih =>
    exact made_ask ih (Engine.restores_stringify (engine_restoring fuel) v)

end Machine

end ClassScript
