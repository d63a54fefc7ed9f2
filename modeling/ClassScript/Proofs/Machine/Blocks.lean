import Mathlib.Tactic.Common
import ClassScript.Machine.Sequence

/-!
# Windows on blocks

What the operations on growing sequences do to the blocks, seen through windows. A window is
filled if all of its slots were written; `Blocks.ChangedAt` compares the blocks before an operation
on one block with those after it. A further item goes behind the items of a filled window, and an
item that is taken out leaves the others in their order.
-/

namespace ClassScript

namespace Blocks

variable {bs bs' : Blocks} {w : Window} {k : Nat}

/-! ### Written slots -/

/-- The number of slots of a block that were written. -/
def written (bs : Blocks) (k : Nat) : Nat := (bs[k]?.map (·.slots.size)).getD 0

/-- A slot has no value exactly if it was not written. -/
theorem slot?_eq_none_iff {i : Nat} : bs.slot? k i = none ↔ bs.written k ≤ i := by
  unfold slot? written
  cases bs[k]? <;> simp

/-- A block is at hand if one of its slots was written. -/
theorem lt_size_of_written (h : 0 < bs.written k) : k < bs.size := by
  unfold written at h
  by_contra hk
  simp [Array.getElem?_eq_none (Nat.le_of_not_lt hk)] at h

/-- A window with room lies on a block that exists. -/
theorem lt_size_of_capacity (h : 0 < bs.capacity w) : w.block < bs.size := by
  unfold capacity at h
  by_contra hk
  simp [Array.getElem?_eq_none (Nat.le_of_not_lt hk)] at h

/-- Every slot of a window was written. -/
def Filled (bs : Blocks) (w : Window) : Prop := w.length ≤ bs.written w.block

/-! ### Items -/

/-- The items of a window are what its slots hold. -/
theorem getElem?_items (bs : Blocks) (w : Window) (n : Nat) : (bs.items w)[n]? = bs.get? w n := by
  unfold items get? slot?
  rw [List.getElem?_take]
  split
  · cases bs[w.block]? <;> simp
  · rfl

/-- A window on an unchanged block has the same items. -/
theorem items_eq_of_block (h : bs'[w.block]? = bs[w.block]?) : bs'.items w = bs.items w := by
  simp only [items, h]

/-- Every slot of a filled window has a value. -/
theorem Filled.get?_isSome (h : bs.Filled w) {n : Nat} (hn : n < w.length) :
    (bs.get? w n).isSome := by
  rw [get?, if_pos hn, Option.isSome_iff_ne_none, Ne, slot?_eq_none_iff]
  exact Nat.not_le_of_lt (Nat.lt_of_lt_of_le hn h)

/-- A filled window has as many items as slots. -/
theorem Filled.length_items (h : bs.Filled w) : (bs.items w).length = w.length := by
  unfold Filled written at h
  unfold items
  rw [List.length_take]
  cases hb : bs[w.block]? with
  | none =>
    rw [hb] at h
    simpa using (Nat.le_zero.1 h).symm
  | some b =>
    rw [hb] at h
    simpa using Nat.min_eq_left h

/-! ### Changes of one block -/

/-- Later blocks, where of the blocks that there were at most one has changed. No slot gets
lost. -/
structure ChangedAt (k : Nat) (bs bs' : Blocks) : Prop where
  /-- No block goes away. -/
  size : bs.size ≤ bs'.size
  /-- The other blocks are the same. -/
  other : ∀ j < bs.size, j ≠ k → bs'[j]? = bs[j]?
  /-- What was written stays written. -/
  written : ∀ j, bs.written j ≤ bs'.written j

/-- No change is one of any block. -/
theorem ChangedAt.refl (k : Nat) (bs : Blocks) : ChangedAt k bs bs :=
  ⟨Nat.le_refl _, fun _ _ _ => rfl, fun _ => Nat.le_refl _⟩

/-- Two changes of a block are one. -/
theorem ChangedAt.trans {bs'' : Blocks} (h₁ : ChangedAt k bs bs') (h₂ : ChangedAt k bs' bs'') :
    ChangedAt k bs bs'' where
  size := Nat.le_trans h₁.size h₂.size
  other j hj hk := (h₂.other j (Nat.lt_of_lt_of_le hj h₁.size) hk).trans (h₁.other j hj hk)
  written j := Nat.le_trans (h₁.written j) (h₂.written j)

/-- A new block changes none that there was. -/
theorem ChangedAt.push (k : Nat) (bs : Blocks) (b : Storage) :
    ChangedAt k bs (Array.push bs b) where
  size := by simp
  other j hj _ := by rw [Array.getElem?_push_lt hj, Array.getElem?_eq_getElem hj]
  written j := by
    unfold Blocks.written
    rw [Array.getElem?_push]
    split
    · next h => simp [h]
    · exact Nat.le_refl _

/-! ### Writing -/

/-- Writing makes no block. -/
theorem size_write (bs : Blocks) (k i : Nat) (v : Value) : (bs.write k i v).size = bs.size := by
  simp [write]

/-- Writing to a block leaves the others alone. -/
theorem getElem?_write_ne (bs : Blocks) {k j : Nat} (h : j ≠ k) (i : Nat) (v : Value) :
    (bs.write k i v)[j]? = bs[j]? := by
  rw [write, Array.getElem?_modify, if_neg h.symm]

/-- Writing a slot loses none. -/
theorem size_writeSlot (slots : Array Value) (i : Nat) (v : Value) :
    slots.size ≤ (writeSlot slots i v).size := by
  unfold writeSlot
  split <;> simp

/-- Writing to a block changes at most that one. -/
theorem changedAt_write (bs : Blocks) (k i : Nat) (v : Value) : ChangedAt k bs (bs.write k i v) where
  size := Nat.le_of_eq (size_write ..).symm
  other _ _ h := getElem?_write_ne bs h i v
  written j := by
    unfold Blocks.written
    rw [write, Array.getElem?_modify]
    split
    · cases bs[j]? with
      | none => exact Nat.le_refl _
      | some b => exact size_writeSlot b.slots i v
    · exact Nat.le_refl _

/-- The slots of a block after a written slot, or the one behind these, was written. -/
theorem slot?_write {k i : Nat} (hk : k < bs.size) (hi : i ≤ bs.written k) (v : Value) (n : Nat) :
    (bs.write k i v).slot? k n = if n = i then some v else bs.slot? k n := by
  unfold written at hi
  unfold slot? write
  rw [Array.getElem?_modify, if_pos rfl]
  rw [Array.getElem?_eq_getElem hk] at hi ⊢
  simp only [Option.map_some, Option.getD_some, Option.bind_some] at hi ⊢
  unfold writeSlot
  -- A slot that is there is replaced; the one behind them is added.
  split
  · rw [Array.set!_eq_setIfInBounds, Array.getElem?_setIfInBounds]
    grind
  · rw [Array.getElem?_push]
    grind

/-- Values that are written one behind the other. -/
theorem slot?_writes (vs : List Value) {k : Nat} :
    ∀ {bs : Blocks} {i : Nat}, k < bs.size → i + vs.length ≤ bs.written k → ∀ n,
      (vs.foldl (fun (acc : Blocks × Nat) v =>
        (acc.1.write k acc.2 v, acc.2 + 1)) (bs, i)).1.slot? k n =
        if i ≤ n ∧ n < i + vs.length then vs[n - i]? else bs.slot? k n := by
  -- On the values, for every block and place they start at.
  induction vs with
  | nil =>
    intro bs i _ _ n
    rw [if_neg (by simp only [List.length_nil]; omega)]
    rfl
  | cons v rest ih =>
    intro bs i hk hi n
    rw [List.length_cons] at hi
    have hlater := (changedAt_write bs k i v).written k
    rw [List.foldl_cons, ih (by rwa [size_write]) (by dsimp only; omega),
      slot?_write hk (by omega)]
    grind

/-- So does writing several values in a row. -/
theorem changedAt_writes (vs : List Value) {k : Nat} : ∀ (bs : Blocks) (i : Nat),
    ChangedAt k bs (vs.foldl (fun (acc : Blocks × Nat) v =>
      (acc.1.write k acc.2 v, acc.2 + 1)) (bs, i)).1 := by
  induction vs with
  | nil => exact fun bs _ => .refl k bs
  | cons v rest ih => exact fun bs i => (changedAt_write bs k i v).trans (ih ..)

/-! ### A new block -/

/-- A new block has the items that it was made with. -/
theorem items_push (bs : Blocks) (items : List Value) :
    (bs.push items).1.items (bs.push items).2 = items := by
  simp [Blocks.push, Blocks.items]

/-- Its window lies on it. -/
theorem block_push_lt (bs : Blocks) (items : List Value) :
    (bs.push items).2.block < (bs.push items).1.size := by
  simp [push]

/-- Its window is filled. -/
theorem filled_push (bs : Blocks) (items : List Value) :
    (bs.push items).1.Filled (bs.push items).2 := by
  simp [Blocks.push, Filled, written]

/-! ### A further item -/

/-- A further item changes the block of its window, or goes to a new one. -/
theorem changedAt_add (bs : Blocks) (w : Window) (v : Value) :
    ChangedAt w.block bs (bs.add w v) := by
  unfold add
  split
  · exact changedAt_write ..
  · exact .push ..

/-- A window with a further item is on the same block or on a new one. -/
theorem block_widen (bs : Blocks) (w : Window) :
    ((bs.widen w).block = w.block ∧ w.block < bs.size) ∨ (bs.widen w).block = bs.size := by
  unfold widen
  dsimp only
  split
  · exact .inl ⟨rfl, lt_size_of_capacity (by omega)⟩
  · exact .inr rfl

/-- A further item goes behind the others. -/
theorem items_add (h : bs.Filled w) (v : Value) :
    (bs.add w v).items (bs.widen w) = bs.items w ++ [v] := by
  have hlength := h.length_items
  unfold add widen
  split
  · -- There is room in the block: the item is written behind the window.
    next hroom =>
    have hk : w.block < bs.size := lt_size_of_capacity (by omega)
    refine List.ext_getElem? fun n => ?_
    rw [List.getElem?_append, getElem?_items, getElem?_items, hlength]
    unfold get?
    dsimp only
    rw [slot?_write hk h]
    grind
  · -- The block is full: all items go to a new one.
    have hall : (bs.items w ++ [v]).length ≤ w.length + 1 := by simp [hlength]
    simp only [items, Array.getElem?_push, if_true, Option.map_some, Option.getD_some]
    exact List.take_of_length_le hall

/-- The window with a further item is filled. -/
theorem filled_add (h : bs.Filled w) (v : Value) : (bs.add w v).Filled (bs.widen w) := by
  by_contra hshort
  -- The item in the last slot was just written.
  have hlast : ((bs.add w v).items (bs.widen w))[w.length]? = some v := by
    rw [items_add h, ← h.length_items, List.getElem?_concat_length]
  rw [getElem?_items, get?] at hlast
  split at hlast
  · next hlt =>
    have hwritten : ¬(bs.add w v).written (bs.widen w).block ≤ w.length := fun hle => by
      rw [slot?_eq_none_iff.2 hle] at hlast
      cases hlast
    exact hshort (Nat.lt_of_not_le hwritten)
  · cases hlast

/-- An item that is added behind a window is not seen through a shorter one on the same block. -/
theorem items_add_of_le {w₀ : Window} (h : bs.Filled w) (h₀ : w₀.block < bs.size)
    (hle : w.block = w₀.block → w₀.length ≤ w.length) (v : Value) :
    (bs.add w v).items w₀ = bs.items w₀ := by
  by_cases hb : w₀.block = w.block
  · unfold add
    split
    · refine List.ext_getElem? fun n => ?_
      rw [getElem?_items, getElem?_items]
      unfold get?
      rw [hb, slot?_write (hb ▸ h₀) h]
      grind
    · exact items_eq_of_block ((ChangedAt.push (bs.size) bs _).other _ h₀ (Nat.ne_of_lt h₀))
  · exact items_eq_of_block ((changedAt_add bs w v).other _ h₀ hb)

/-! ### An item less -/

/-- Taking an item out changes the block of its window. -/
theorem changedAt_remove (bs : Blocks) (w : Window) (i : Nat) :
    ChangedAt w.block bs (bs.remove w i).1 := changedAt_writes ..

/-- An item that is taken out leaves the others in their order. -/
theorem items_remove (h : bs.Filled w) {i : Nat} (hi : i < w.length) :
    (bs.remove w i).1.items (bs.remove w i).2 = (bs.items w).eraseIdx i := by
  have hlength := h.length_items
  have hk : w.block < bs.size := lt_size_of_written (Nat.lt_of_lt_of_le (by omega) h)
  -- The items behind the removed one are written one slot further in front.
  have hmoved : i + ((bs.items w).drop (i + 1)).length ≤ bs.written w.block := by
    rw [List.length_drop, hlength]
    unfold Filled at h
    omega
  refine List.ext_getElem? fun n => ?_
  rw [getElem?_items, List.getElem?_eraseIdx, getElem?_items, getElem?_items]
  unfold remove get?
  dsimp only
  rw [slot?_writes _ hk hmoved, List.length_drop, hlength, List.getElem?_drop, getElem?_items]
  unfold get?
  grind

/-- The window with an item less is filled. -/
theorem filled_remove (h : bs.Filled w) (i : Nat) :
    (bs.remove w i).1.Filled (bs.remove w i).2 :=
  Nat.le_trans (Nat.sub_le _ _) (Nat.le_trans h ((changedAt_remove bs w i).written _))

end Blocks

end ClassScript
