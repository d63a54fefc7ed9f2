import Mathlib
import ClassScript.Parse.Grammar
import ClassScript.Proofs.Machine.Turns

/-!
# Comparing lists

Two lists of the same length are compared item by item. The program is asked whether the items are
equal, and it may change both lists before the next turn. An item is read where its list has one at
the time, and the comparison ends with a truth value or with the error that the program raised,
unless a list has become too short for its next turn. Then one of the questions before has dropped
an item of one of the lists.
-/

namespace ClassScript

open Exec (Restores)

namespace Engine

variable {eng : Engine} {a b n i : Nat} {m m' : Machine}

/-- Asking a value whether it equals another one restores the machine. -/
theorem restores_equal (h : eng.Restoring) (v w : Value) : Restores (eng.equal v w) :=
  .of_obeys fun _ => abides_equal h.callsBy trivial trivial

/-! ### Turns -/

/-- Two lists have items at an index. -/
def ItemsAt (a b i : Nat) (v w : Value) (m : Machine) : Prop :=
  m.store.listGet? a i = some v ∧ m.store.listGet? b i = some w

/-- Two lists have items at an index, and the program finds these equal. -/
def EqualAt (eng : Engine) (a b i : Nat) (m m' : Machine) : Prop :=
  ∃ v w, ItemsAt a b i v w m ∧ eng.equal v w m = .ok true m'

/-- The comparison of two lists that had a length comes to an index in a machine and ends there. -/
inductive EndsAt (eng : Engine) (a b n i : Nat) (m : Machine) :
    EStateM.Result Interrupt Machine Value → Prop where
  /-- No index is left. -/
  | equal (hi : i = n) : EndsAt eng a b n i m (.ok (.bool true) m)
  /-- The items at the index are not equal. -/
  | differ (hi : i < n) {v w : Value} (items : ItemsAt a b i v w m) {m' : Machine}
    (h : eng.equal v w m = .ok false m') : EndsAt eng a b n i m (.ok (.bool false) m')
  /-- The program raises an error when it is asked about the items at the index. -/
  | raised (hi : i < n) {v w : Value} (items : ItemsAt a b i v w m) {e : Interrupt} {m' : Machine}
    (h : eng.equal v w m = .error e m') : EndsAt eng a b n i m (.error e m')
  /-- A list has no item at the index any more. -/
  | missing (hi : i < n) (short : (m.store.list a).length ≤ i ∨ (m.store.list b).length ≤ i) :
    EndsAt eng a b n i m (.error .fault m)

/-- Lists that have items at an index are longer than it. -/
theorem ItemsAt.lt_length {v w : Value} (hm : m.store.Tidy) (h : ItemsAt a b i v w m) :
    i < (m.store.list a).length ∧ i < (m.store.list b).length :=
  ⟨hm.listGet?_isSome_iff.1 (Option.isSome_of_eq_some h.1),
    hm.listGet?_isSome_iff.1 (Option.isSome_of_eq_some h.2)⟩

/-- The store of a machine in which an index has its turn was made by changes. -/
theorem made_of_turns (heng : eng.Restoring) (hm : m.store.Made)
    (h : Turns (eng.EqualAt a b) m i m') : m'.store.Made := by
  refine h.keeps (P := fun _ m => m.store.Made) hm ?_
  rintro _ m₁ m₂ - ⟨v, w, -, he⟩ h₁
  exact Exec.final_ok he ▸ (restores_equal heng v w).made h₁

/-! ### The walk -/

/-- The comparison of two lists from an index on, with its answer as a value. -/
abbrev compareFrom (eng : Engine) (a b count i : Nat) : Exec Value :=
  Value.bool <$> eng.listsEqual a b count i

/-- A turn without an item has no meaning. -/
theorem compareFrom_missing (count : Nat) (h : ¬∃ v w, ItemsAt a b i v w m) :
    eng.compareFrom a b (count + 1) i m = .error .fault m := by
  have hread : ∀ l, Exec.read (·.listGet? l i) m = .ok (m.store.listGet? l i) m := fun _ => rfl
  rw [compareFrom, listsEqual]
  simp only [map_eq_pure_bind, Exec.bind_apply, hread]
  cases hv : m.store.listGet? a i with
  | none => rfl
  | some v =>
    cases hw : m.store.listGet? b i with
    | none => rfl
    | some w => exact absurd ⟨v, w, hv, hw⟩ h

/-- A turn with items asks the program, and the next turn follows if these are equal. -/
theorem compareFrom_items (count : Nat) {v w : Value} (h : ItemsAt a b i v w m) :
    eng.compareFrom a b (count + 1) i m =
      (do if ← eng.equal v w then eng.compareFrom a b count (i + 1) else return .bool false :
        Exec Value) m := by
  have hread : ∀ l, Exec.read (·.listGet? l i) m = .ok (m.store.listGet? l i) m := fun _ => rfl
  rw [compareFrom, listsEqual]
  simp only [map_eq_pure_bind, Exec.bind_apply, hread, h.1, h.2]
  -- The comparison raises, or it answers whether the next turn follows.
  cases eng.equal v w m with
  | error e m' => rfl
  | ok t m' =>
    cases t with
    | false => rfl
    | true =>
      simp only [if_true]
      exact (Exec.bind_apply _ _ _).symm

/-- A comparison goes on from an index to the index where it ends. -/
theorem exists_endsAt (heng : eng.Restoring) (count : Nat) (hm : m.store.Made)
    (hn : i + count = n) {m₀ : Machine} (h : Turns (eng.EqualAt a b) m₀ i m) :
    ∃ j m₁, Turns (eng.EqualAt a b) m₀ j m₁ ∧
      eng.EndsAt a b n j m₁ (eng.compareFrom a b count i m) := by
  -- On the number of indices left.
  induction count generalizing i m with
  | zero => exact ⟨i, m, h, .equal hn⟩
  | succ count ih =>
    have hi : i < n := by omega
    by_cases hitems : ∃ v w, ItemsAt a b i v w m
    · obtain ⟨v, w, hitems⟩ := hitems
      rw [compareFrom_items count hitems, Exec.bind_apply]
      cases he : eng.equal v w m with
      | error e m₁ => exact ⟨i, m, h, .raised hi hitems he⟩
      | ok t m₁ =>
        cases t with
        | false => exact ⟨i, m, h, .differ hi hitems he⟩
        | true =>
          -- The items are equal, and the program may have changed the lists by now.
          have hm₁ := (restores_equal heng v w).made hm
          rw [Exec.final_ok he] at hm₁
          exact ih hm₁ (by omega) (h.next ⟨v, w, hitems, he⟩)
    · -- An item is missing, so one of the lists is no longer than the index.
      rw [compareFrom_missing count hitems]
      refine ⟨i, m, h, .missing hi ?_⟩
      by_contra hlong
      obtain ⟨ha, hb⟩ := not_or.1 hlong
      obtain ⟨v, hv⟩ := Option.isSome_iff_exists.1
        (hm.tidy.listGet?_isSome_iff.2 (Nat.lt_of_not_le ha))
      obtain ⟨w, hw⟩ := Option.isSome_iff_exists.1
        (hm.tidy.listGet?_isSome_iff.2 (Nat.lt_of_not_le hb))
      exact hitems ⟨v, w, hv, hw⟩

/-- A list that had an item at an index and has none there any more has lost one in a turn before,
and no changes but such that drop an item explain the turn. -/
theorem dropped_before (heng : eng.Restoring) (hm : m.store.Made)
    (ha : (m.store.list a).length = n) (hb : (m.store.list b).length = n)
    (h : Turns (eng.EqualAt a b) m i m') (hi : i < n)
    (hshort : (m'.store.list a).length ≤ i ∨ (m'.store.list b).length ≤ i) :
    ∃ j < i, ∃ m₁ m₂, Turns (eng.EqualAt a b) m j m₁ ∧ eng.EqualAt a b j m₁ m₂ ∧
      ¬m₁.store.Leads (fun c => c ≠ .listPop a ∧ c ≠ .listPop b) m₂.store := by
  obtain ⟨j, hj, m₁, m₂, h₁, ht, hlong, hless⟩ :=
    h.taken (P := fun m => n ≤ (m.store.list a).length ∧ n ≤ (m.store.list b).length)
      ⟨Nat.le_of_eq ha.symm, Nat.le_of_eq hb.symm⟩ (by omega)
  refine ⟨j, hj, m₁, m₂, h₁, ht, fun hleads => hless ?_⟩
  have htidy := (made_of_turns heng hm h₁).tidy
  exact ⟨Nat.le_trans hlong.1 (htidy.length_list_le (fun _ hc => hc.1) hleads),
    Nat.le_trans hlong.2 (htidy.length_list_le (fun _ hc => hc.2) hleads)⟩

/-- What is known of the comparison of two lists and of its answer. -/
structure ListComparison (eng : Engine) (a b : Nat) (m : Machine)
    (answer : EStateM.Result Interrupt Machine Value) : Prop where
  /-- Lists of different lengths are not equal, and the program is not asked. -/
  lengths : (m.store.list b).length ≠ (m.store.list a).length → answer = .ok (.bool false) m
  /-- Lists of the same length are walked through up to the index where the comparison ends. -/
  ends : (m.store.list b).length = (m.store.list a).length →
    ∃ i m₁, Turns (eng.EqualAt a b) m i m₁ ∧ eng.EndsAt a b (m.store.list a).length i m₁ answer
  /-- Every item is read below the length that its list has when it is read. -/
  reads : ∀ {i m₁ v w}, Turns (eng.EqualAt a b) m i m₁ → ItemsAt a b i v w m₁ →
    i < (m₁.store.list a).length ∧ i < (m₁.store.list b).length
  /-- A list is too short for a turn only if an item of one of the lists was dropped in a turn
  before: changes of any other kind do not lead through that turn. -/
  dropped : (m.store.list b).length = (m.store.list a).length →
    ∀ {i m₁}, Turns (eng.EqualAt a b) m i m₁ → i < (m.store.list a).length →
      (m₁.store.list a).length ≤ i ∨ (m₁.store.list b).length ≤ i →
      ∃ j < i, ∃ m₂ m₃, Turns (eng.EqualAt a b) m j m₂ ∧ eng.EqualAt a b j m₂ m₃ ∧
        ¬m₂.store.Leads (fun c => c ≠ .listPop a ∧ c ≠ .listPop b) m₃.store

end Engine

/-- The comparison of two lists while the program changes them. It ends with a truth value or with
an error that the program raises when it is asked about two items, and reads only items that are
there, unless a turn before has dropped an item of one of the lists. -/
theorem list_comparison_ends (levels a b : Nat) {m : Machine} (hm : m.store.Made) :
    (engine levels).ListComparison a b m
      ((engine levels).run .listEquals (.list a) [.list b] m) where
  lengths hne := by
    show (if (m.store.list a).length = _ then _ else _ : Exec Value) m = _
    rw [if_neg (Ne.symm hne)]
    rfl
  ends hlength := by
    -- With equal lengths the method is the walk from index zero on.
    have hanswer : (engine levels).run .listEquals (.list a) [.list b] m =
        (engine levels).compareFrom a b (m.store.list a).length 0 m := by
      show (if (m.store.list a).length = _ then _ else _ : Exec Value) m = _
      rw [if_pos hlength.symm]
      rfl
    exact hanswer ▸ Engine.exists_endsAt (engine_restoring levels) _ hm (Nat.zero_add _) .start
  reads h hitems := hitems.lt_length (Engine.made_of_turns (engine_restoring levels) hm h).tidy
  dropped hlength _ _ h hi hshort :=
    Engine.dropped_before (engine_restoring levels) hm rfl hlength h hi hshort

/-- A program with two lists, where an item of the first one drops the last item of that list when
it is compared. -/
def droppingProgram : List Stmt :=
  (Parse.source
    "class E \x7b equals(o) \x7b xs.pop() return true \x7d \x7d var xs = [E(), 2] var ys = [1, 2]"
    0).program

/-- The program leads to a machine that is reachable. -/
theorem reachable_dropping : (Machine.initial.interpret 7 droppingProgram).2.Reachable :=
  .interpret .initial 7 droppingProgram

/-- Lists whose items change them while they are compared. -/
theorem list_comparison_ends_dropping :
    (Machine.initial.interpret 7 droppingProgram).2.store.Made ∧
      (engine 9).ListComparison 0 1 (Machine.initial.interpret 7 droppingProgram).2
        ((engine 9).run .listEquals (.list 0) [.list 1]
          (Machine.initial.interpret 7 droppingProgram).2) :=
  ⟨reachable_dropping.made, list_comparison_ends 9 0 1 reachable_dropping.made⟩

/-- Whether two lists of two items cannot be compared, because the first one is left with one. -/
def losesItem (m : Machine) : Bool :=
  (m.store.list 0).length == 2 && (m.store.list 1).length == 2 &&
    match (engine 9).run .listEquals (.list 0) [.list 1] m with
    | .error .fault m' => (m'.store.list 0).length == 1
    | _ => false

/-- Such a comparison crashes, since the second item is gone when its turn comes. -/
theorem fault_of_losesItem {m : Machine} (h : losesItem m = true) :
    (m.store.list 0).length = 2 ∧ (m.store.list 1).length = 2 ∧
      ∃ m', (engine 9).run .listEquals (.list 0) [.list 1] m = .error .fault m' ∧
        (m'.store.list 0).length = 1 := by
  obtain ⟨h₀, h₁⟩ := Bool.and_eq_true_iff.1 h
  obtain ⟨ha, hb⟩ := Bool.and_eq_true_iff.1 h₀
  refine ⟨eq_of_beq ha, eq_of_beq hb, ?_⟩
  split at h₁
  · next m' hr => exact ⟨m', hr, eq_of_beq h₁⟩
  · cases h₁

/-- A list is read behind its last item if an item is dropped while it is compared: the comparison
then ends neither with a truth value nor with an error of the program. -/
theorem list_comparison_misses_dropped_item :
    (Machine.initial.interpret 7 droppingProgram).2.Reachable ∧
      ((Machine.initial.interpret 7 droppingProgram).2.store.list 0).length = 2 ∧
      ((Machine.initial.interpret 7 droppingProgram).2.store.list 1).length = 2 ∧
      ∃ m, (engine 9).run .listEquals (.list 0) [.list 1]
          (Machine.initial.interpret 7 droppingProgram).2 = .error .fault m ∧
        (m.store.list 0).length = 1 :=
  have hloses : losesItem (Machine.initial.interpret 7 droppingProgram).2 = true := by cbv
  ⟨reachable_dropping, fault_of_losesItem hloses⟩

end ClassScript
