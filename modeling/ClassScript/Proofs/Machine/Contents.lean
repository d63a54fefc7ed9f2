import Mathlib.Tactic.Common
import ClassScript.Machine.Store

/-!
# What the store holds

`Store.Contents P` says that every value in the fields, blocks, maps and iterators of a store has a
property `P`. Every operation on the store keeps it if it is given values with the property, and
every value that is read from the store has it.
-/

namespace ClassScript

variable {P Q : Value → Prop}

/-- Every item of an array has a property; the items are named by their places. -/
def Each {α : Type} (A : α → Prop) (xs : Array α) : Prop :=
  ∀ (i : Nat) a, xs[i]? = some a → A a

namespace Each

variable {α : Type} {A : α → Prop} {xs : Array α}

/-- An item with the property may be added. -/
theorem push (h : Each A xs) {a : α} (ha : A a) : Each A (xs.push a) := by
  intro i b hb
  rw [Array.getElem?_push] at hb
  split at hb
  · cases hb
    exact ha
  · exact h i b hb

/-- An item may be replaced by one with the property. -/
theorem set! (h : Each A xs) (i : Nat) {a : α} (ha : A a) : Each A (xs.set! i a) := by
  intro j b hb
  rw [Array.set!_eq_setIfInBounds, Array.getElem?_setIfInBounds] at hb
  split at hb
  · split at hb
    · cases hb
      exact ha
    · cases hb
  · exact h j b hb

/-- An item may be changed to one with the property. -/
theorem modify (h : Each A xs) (i : Nat) {f : α → α} (hf : ∀ a, A a → A (f a)) :
    Each A (xs.modify i f) := by
  intro j b hb
  rw [Array.getElem?_modify] at hb
  split at hb
  · obtain ⟨a, ha, rfl⟩ := Option.map_eq_some_iff.1 hb
    exact hf a (h j a ha)
  · exact h j b hb

/-- Every member of the array has the property. -/
theorem mem (h : Each A xs) {a : α} (ha : a ∈ xs) : A a := by
  obtain ⟨i, hi, rfl⟩ := Array.getElem_of_mem ha
  exact h i _ (Array.getElem?_eq_getElem hi)

/-- A list with the property is an array with it. -/
theorem toArray {l : List α} (h : ∀ a ∈ l, A a) : Each A l.toArray := by
  intro i a ha
  rw [List.getElem?_toArray] at ha
  exact h a (List.mem_of_getElem? ha)

end Each

/-! ### Blocks -/

/-- Every value in the blocks has a property. -/
def Blocks.All (P : Value → Prop) (bs : Blocks) : Prop := Each (fun b => Each P b.slots) bs

namespace Blocks.All

variable {bs : Blocks}

/-- What is read from a slot has the property. -/
theorem slot? (h : Blocks.All P bs) {block i : Nat} {v : Value}
    (hv : bs.slot? block i = some v) : P v := by
  obtain ⟨b, hb, hv⟩ := Option.bind_eq_some_iff.1 hv
  exact h block b hb i v hv

/-- So has what is read through a window. -/
theorem get? (h : Blocks.All P bs) {w : Window} {i : Nat} {v : Value}
    (hv : bs.get? w i = some v) : P v := by
  unfold Blocks.get? at hv
  split at hv
  · exact h.slot? hv
  · cases hv

/-- So have all items of a window. -/
theorem items (h : Blocks.All P bs) (w : Window) : ∀ v ∈ bs.items w, P v := by
  intro v hv
  have hv := List.mem_of_mem_take hv
  cases hb : bs[w.block]? with
  | none => simp [hb] at hv
  | some b =>
    rw [hb] at hv
    exact (h w.block b hb).mem (by simpa using hv)

/-- A new block keeps the property if its items have it. -/
theorem push (h : Blocks.All P bs) {items : List Value} (hi : ∀ v ∈ items, P v) :
    Blocks.All P (Blocks.push bs items).1 :=
  Each.push h (.toArray hi)

/-- So does writing a value with it. -/
theorem write (h : Blocks.All P bs) (block i : Nat) {v : Value} (hv : P v) :
    Blocks.All P (bs.write block i v) := by
  refine Each.modify h block fun b hb => ?_
  show Each P (writeSlot b.slots i v)
  unfold writeSlot
  split
  · exact hb.set! i hv
  · exact hb.push hv

/-- So does adding one. -/
theorem add (h : Blocks.All P bs) (w : Window) {v : Value} (hv : P v) :
    Blocks.All P (bs.add w v) := by
  unfold Blocks.add
  split
  · exact h.write _ _ hv
  · refine Each.push h (.toArray fun x hx => ?_)
    rcases List.mem_append.1 hx with hx | hx
    · exact h.items w x hx
    · rw [List.mem_singleton.1 hx]
      exact hv

/-- Taking an item out keeps the property. -/
theorem remove (h : Blocks.All P bs) (w : Window) (i : Nat) : Blocks.All P (bs.remove w i).1 := by
  -- The items that move up are items of the window, written one after the other.
  have moved : ∀ (vs : List Value) (bs : Blocks) (i : Nat), Blocks.All P bs → (∀ v ∈ vs, P v) →
      Blocks.All P (vs.foldl (fun (acc : Blocks × Nat) v =>
        (acc.1.write w.block acc.2 v, acc.2 + 1)) (bs, i)).1 := by
    intro vs
    induction vs with
    | nil => exact fun _ _ h _ => h
    | cons v rest ih =>
      intro bs i h hv
      exact ih _ _ (h.write _ _ (hv v List.mem_cons_self)) fun x hx =>
        hv x (List.mem_cons_of_mem _ hx)
  exact moved _ bs i h fun v hv => h.items w v (List.mem_of_mem_drop hv)

end Blocks.All

/-! ### Stores -/

/-- Every value that a cursor holds has a property. -/
def Cursor.All (P : Value → Prop) : Cursor → Prop
  | .arguments rest => ∀ v ∈ rest, P v
  | .entries _ keys => ∀ v ∈ keys, P v
  | _ => True

/-- Every value in a store outside of its scopes has a property. -/
structure Store.Contents (P : Value → Prop) (s : Store) : Prop where
  /-- The values of fields. -/
  fields : Each (fun b : Bindings => ∀ (name : String) v, b[name]? = some v → P v) s.fields
  /-- The items of blocks. -/
  blocks : s.blocks.All P
  /-- The keys and values of maps. -/
  maps : Each (fun o : MapObject => ∀ e ∈ o.entries, P e.1 ∧ P e.2) s.maps
  /-- What iterators go through. -/
  iterators : Each (Cursor.All P) s.iterators

namespace Store.Contents

variable {s : Store}

/-- An empty store has no contents. -/
theorem empty (es : Environments) : Store.Contents P { environments := es } where
  fields := by simp [Each]
  blocks := by simp [Blocks.All, Each]
  maps := by simp [Each]
  iterators := by simp [Each]

/-- A property of all values is one of the contents. -/
theorem of_forall (hP : ∀ v, P v) : s.Contents P where
  fields _ _ _ _ v _ := hP v
  blocks _ _ _ _ v _ := hP v
  maps _ _ _ e _ := ⟨hP e.1, hP e.2⟩
  iterators _ c _ := by
    cases c with
    | arguments rest => exact fun v _ => hP v
    | entries m keys => exact fun v _ => hP v
    | _ => trivial

/-- A property that is implied by another one holds of the contents too. -/
theorem mono (h : s.Contents P) (hPQ : ∀ v, P v → Q v) : s.Contents Q where
  fields i b hb name v hv := hPQ v (h.fields i b hb name v hv)
  blocks i b hb j v hv := hPQ v (h.blocks i b hb j v hv)
  maps i o ho e he := ⟨hPQ _ (h.maps i o ho e he).1, hPQ _ (h.maps i o ho e he).2⟩
  iterators i c hc := by
    have := h.iterators i c hc
    cases c with
    | arguments rest => exact fun v hv => hPQ v (this v hv)
    | entries m keys => exact fun v hv => hPQ v (this v hv)
    | _ => trivial

/-! #### Fields -/

/-- A new object has no fields yet. -/
theorem newFields (h : s.Contents P) : Store.Contents P { s with fields := s.fields.push ∅ } :=
  { h with fields := h.fields.push (by simp) }

/-- A field may get a value with the property. -/
theorem setField (h : s.Contents P) (place : Nat) (name : String) {v : Value} (hv : P v) :
    Store.Contents P { s with fields := s.fields.modify place (·.insert name v) } := by
  refine { h with fields := h.fields.modify place fun b hb x w hw => ?_ }
  rw [Std.TreeMap.getElem?_insert] at hw
  split at hw
  · cases hw
    exact hv
  · exact hb x w hw

/-! #### Lists -/

/-- A list of values with the property may be made. -/
theorem newList (h : s.Contents P) {items : List Value} (hi : ∀ v ∈ items, P v) :
    (s.newList items).1.Contents P :=
  { h with blocks := h.blocks.push hi }

/-- What is read from a list has the property. -/
theorem listGet? (h : s.Contents P) {l i : Nat} {v : Value} (hv : s.listGet? l i = some v) : P v :=
  h.blocks.get? hv

/-- A value with the property may be added to a list. -/
theorem listAdd (h : s.Contents P) (l : Nat) {v : Value} (hv : P v) :
    (s.listAdd l v).Contents P :=
  { h with blocks := h.blocks.add _ hv }

/-- An item may be replaced by a value with the property. -/
theorem listSet (h : s.Contents P) (l i : Nat) {v : Value} (hv : P v) :
    (s.listSet l i v).Contents P :=
  { h with blocks := h.blocks.write _ _ hv }

/-- An item may be taken from the end of a list. -/
theorem listPop (h : s.Contents P) (l : Nat) : (s.listPop l).Contents P := { h with }

/-! #### Maps -/

/-- A new map is empty. -/
theorem newMap (h : s.Contents P) : s.newMap.1.Contents P :=
  { h with blocks := h.blocks.push nofun, maps := h.maps.push nofun }

/-- The keys and values of a map have the property. -/
theorem map (h : s.Contents P) (m : Nat) : ∀ e ∈ (s.map m).entries, P e.1 ∧ P e.2 := by
  unfold Store.map
  cases hm : s.maps[m]? with
  | none => exact nofun
  | some o => exact h.maps m o hm

/-- So has what is read from a map. -/
theorem mapGet? (h : s.Contents P) {m : Nat} {key v : Value} (hv : s.mapGet? m key = some v) :
    P v := by
  obtain ⟨e, he, rfl⟩ := Option.map_eq_some_iff.1 hv
  exact (h.map m e (List.mem_of_find?_eq_some he)).2

/-- So have the keys in their order. -/
theorem mapKeys (h : s.Contents P) (m : Nat) : ∀ v ∈ s.mapKeys m, P v := h.blocks.items _

/-- A key and a value with the property may be set. -/
theorem mapSet (h : s.Contents P) (m : Nat) {key value : Value} (hk : P key) (hv : P value) :
    (s.mapSet m key value).Contents P := by
  have hput : ∀ e ∈ (s.map m).put key value, P e.1 ∧ P e.2 := by
    intro e he
    rcases List.mem_cons.1 he with rfl | he
    · exact ⟨hk, hv⟩
    · exact h.map m e ((List.mem_filter.1 he).1)
  unfold Store.mapSet
  dsimp only
  split
  · exact { h with maps := h.maps.set! m hput }
  · exact { h with blocks := h.blocks.add _ hk, maps := h.maps.set! m hput }

/-- A key may be taken out. -/
theorem mapRemove (h : s.Contents P) (m : Nat) (key : Value) : (s.mapRemove m key).Contents P := by
  have hdrop : ∀ e ∈ (s.map m).drop key, P e.1 ∧ P e.2 := fun e he =>
    h.map m e ((List.mem_filter.1 he).1)
  unfold Store.mapRemove
  dsimp only
  split
  · exact { h with maps := h.maps.set! m hdrop }
  · exact { h with blocks := h.blocks.remove _ _, maps := h.maps.set! m hdrop }

/-! #### Iterators -/

/-- An iterator over values with the property may be made. -/
theorem newIterator (h : s.Contents P) {c : Cursor} (hc : c.All P) :
    (s.newIterator c).1.Contents P :=
  { h with iterators := h.iterators.push hc }

/-- It may be moved to other values with the property. -/
theorem setIterator (h : s.Contents P) (i : Nat) {c : Cursor} (hc : c.All P) :
    Store.Contents P { s with iterators := s.iterators.set! i c } :=
  { h with iterators := h.iterators.set! i hc }

/-- What an iterator holds has the property. -/
theorem iterator (h : s.Contents P) (i : Nat) : (s.iterators[i]?.getD .done).All P := by
  cases hi : s.iterators[i]? with
  | none => trivial
  | some c => exact h.iterators i c hi

end Store.Contents

/-- Every value that a step of a cursor yields has a property. -/
def Store.Advance.All (P : Value → Prop) : Store.Advance → Prop
  | .element v next => P v ∧ next.All P
  | .entry key value next => P key ∧ P value ∧ next.All P
  | .finished => True

/-- A key that is still there has the property, and so have its value and the keys behind it. -/
theorem Store.Contents.presentKey? {s : Store} (h : s.Contents P) {m : Nat} {keys : List Value}
    (hk : ∀ v ∈ keys, P v) {key value : Value} {rest : List Value}
    (hp : s.presentKey? m keys = some (key, value, rest)) :
    P key ∧ P value ∧ ∀ v ∈ rest, P v := by
  induction keys with
  | nil => cases hp
  | cons k ks ih =>
    unfold Store.presentKey? at hp
    split at hp
    · next hv =>
      cases hp
      exact ⟨hk _ List.mem_cons_self, h.mapGet? hv, fun v hv => hk v (List.mem_cons_of_mem _ hv)⟩
    · exact ih (fun v hv => hk v (List.mem_cons_of_mem _ hv)) hp

/-- What a cursor over such values yields has the property. -/
theorem Store.Contents.advance {s : Store} (h : s.Contents P) {c : Cursor} (hc : c.All P)
    (hint : ∀ n, P (.int n)) (hstring : ∀ t, P (.string t)) : (s.advance c).All P := by
  unfold Store.advance
  split
  · -- A range yields an integer, or is at its end.
    split
    · exact ⟨hint _, trivial⟩
    · trivial
  · trivial
  · -- A text yields one character after the other.
    exact ⟨hstring _, trivial⟩
  · -- A list is read when the turn comes.
    split
    · next hv => exact ⟨h.listGet? hv, trivial⟩
    · trivial
  · trivial
  · exact ⟨hc _ List.mem_cons_self, fun v hv => hc v (List.mem_cons_of_mem _ hv)⟩
  · -- So is a map, from the keys that are left on.
    split
    · next hp => exact h.presentKey? hc hp
    · trivial
  · trivial

end ClassScript
