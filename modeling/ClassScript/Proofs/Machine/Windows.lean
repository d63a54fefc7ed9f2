import ClassScript.Proofs.Machine.Blocks
import ClassScript.Proofs.Machine.Changes

/-!
# Lists and maps on their blocks

Every list and every map keeps its items in a window of its own. `Store.Tidy` says that these
windows are filled and lie on different blocks. A change concerns one list or map, and
`Store.Moves` says what it leaves of the others. So a store that changes have made is tidy, and a
list becomes shorter only where an item is dropped from it.
-/

namespace ClassScript

namespace Store

variable {s s' : Store}

/-- What keeps its items in a window. -/
inductive Holder where
  /-- A list. -/
  | list (l : Nat)
  /-- A map, with its keys. -/
  | map (m : Nat)
deriving DecidableEq

/-- The window of a list or map that is at hand. -/
def window? (s : Store) : Holder → Option Window
  | .list l => s.lists[l]?
  | .map m => s.maps[m]?.map (·.keys)

/-- The window of a list or map, an empty one of no block where there is none. -/
def window (s : Store) : Holder → Window
  | .list l => s.list l
  | .map m => (s.map m).keys

/-- A list or map that is not at hand has an empty window. -/
theorem window_eq (s : Store) (h : Holder) :
    s.window h = (s.window? h).getD ⟨s.blocks.size, 0⟩ := by
  cases h with
  | list l => rfl
  | map m =>
    simp only [window, window?, map]
    cases s.maps[m]? <;> rfl

/-- The window of a list or map is the one at hand. -/
theorem window_of_some {h : Holder} {w : Window} (hw : s.window? h = some w) : s.window h = w := by
  rw [window_eq, hw, Option.getD_some]

/-- Where there is none, it is an empty one of no block. -/
theorem window_of_none {h : Holder} (hw : s.window? h = none) :
    s.window h = ⟨s.blocks.size, 0⟩ := by
  rw [window_eq, hw, Option.getD_none]

/-- Lists and maps keep their items in filled windows on blocks of their own. -/
structure Tidy (s : Store) : Prop where
  /-- The block of every window is at hand. -/
  placed : ∀ {h w}, s.window? h = some w → w.block < s.blocks.size
  /-- Every window is filled. -/
  filled : ∀ {h w}, s.window? h = some w → s.blocks.Filled w
  /-- No two windows lie on one block. -/
  apart : ∀ {h h' w w'}, s.window? h = some w → s.window? h' = some w' → w.block = w'.block → h = h'

namespace Tidy

/-- In a tidy store all windows are filled. -/
theorem filled_window (hs : s.Tidy) (h : Holder) : s.blocks.Filled (s.window h) := by
  cases hw : s.window? h with
  | none => exact window_of_none hw ▸ Nat.zero_le _
  | some w => exact window_of_some hw ▸ hs.filled hw

/-- The block of a window is not that of another list or map. -/
theorem block_ne (hs : s.Tidy) {h h' : Holder} {w : Window} (hw : s.window? h = some w)
    (hne : h ≠ h') : w.block ≠ (s.window h').block := by
  intro e
  cases hw' : s.window? h' with
  | none =>
    rw [window_of_none hw'] at e
    exact Nat.ne_of_lt (hs.placed hw) e
  | some w' =>
    rw [window_of_some hw'] at e
    exact hne (hs.apart hw hw' e)

/-- A store with the same blocks, lists and maps is tidy as well. -/
theorem of_eq (hs : s.Tidy) (blocks : s'.blocks = s.blocks) (lists : s'.lists = s.lists)
    (maps : s'.maps = s.maps) : s'.Tidy := by
  have e : s'.window? = s.window? := by
    funext h
    cases h <;> simp only [window?, lists, maps]
  exact ⟨fun hw => blocks ▸ hs.placed (e ▸ hw), fun hw => blocks ▸ hs.filled (e ▸ hw),
    fun hw hw' => hs.apart (e ▸ hw) (e ▸ hw')⟩

/-- An empty store is tidy. -/
theorem empty (es : Environments) : Tidy { environments := es } := by
  have none : ∀ {h w}, window? { environments := es } h ≠ some w := fun {h w} => by
    cases h <;> simp [window?]
  exact ⟨fun hw => absurd hw none, fun hw => absurd hw none, fun hw => absurd hw none⟩

end Tidy

/-! ### Changes of one list or map -/

/-- The list or map that a change concerns. -/
def Change.holder? (s : Store) : Change → Option Holder
  | .outside _ => none
  | .newList _ => some (.list s.lists.size)
  | .listAdd l _ | .listSet l _ _ | .listPop l => some (.list l)
  | .newMap => some (.map s.maps.size)
  | .mapSet m _ _ | .mapRemove m _ => some (.map m)

/-- A later store, where at most one list or map has changed. Its window is filled, and it lies on
the same block as before or on a new one. -/
structure Moves (h : Holder) (s s' : Store) : Prop where
  /-- The other lists are the same. -/
  lists : ∀ l, .list l ≠ h → s'.lists[l]? = s.lists[l]?
  /-- The other maps are the same. -/
  maps : ∀ m, .map m ≠ h → s'.maps[m]? = s.maps[m]?
  /-- The other blocks are the same. -/
  blocks : Blocks.ChangedAt (s.window h).block s.blocks s'.blocks
  /-- The window is filled, on the same block or on a new one. -/
  own : ∀ w, s'.window? h = some w → w.block < s'.blocks.size ∧ s'.blocks.Filled w ∧
    (w.block = (s.window h).block ∧ (s.window? h).isSome ∨ s.blocks.size ≤ w.block)

namespace Moves

variable {h : Holder}

/-- A change of one list or map leaves the windows of the others. -/
theorem window?_ne (hm : Moves h s s') {h' : Holder} (hne : h' ≠ h) :
    s'.window? h' = s.window? h' := by
  cases h' with
  | list l => exact hm.lists l hne
  | map m => exact congrArg (Option.map _) (hm.maps m hne)

/-- The block of another list or map is the same. -/
theorem block_eq (hm : Moves h s s') (hs : s.Tidy) {h' : Holder} (hne : h' ≠ h) {w : Window}
    (hw : s.window? h' = some w) : s'.blocks[w.block]? = s.blocks[w.block]? :=
  hm.blocks.other _ (hs.placed hw) (hs.block_ne hw hne)

/-- It keeps the windows on different blocks. -/
theorem apart (hm : Moves h s s') (hs : s.Tidy) {h' : Holder} (hne : h' ≠ h) {w w' : Window}
    (hw : s'.window? h = some w) (hw' : s'.window? h' = some w') : w.block ≠ w'.block := by
  intro e
  rw [hm.window?_ne hne] at hw'
  obtain ⟨-, -, ⟨hb, -⟩ | hb⟩ := hm.own w hw
  · exact hs.block_ne hw' hne (e.symm.trans hb)
  · exact Nat.not_lt_of_le hb (e ▸ hs.placed hw')

/-- It keeps the store tidy. -/
theorem tidy (hm : Moves h s s') (hs : s.Tidy) : s'.Tidy where
  placed {h' w} hw := by
    by_cases hne : h' = h
    · exact (hm.own w (hne ▸ hw)).1
    · exact Nat.lt_of_lt_of_le (hs.placed (hm.window?_ne hne ▸ hw)) hm.blocks.size
  filled {h' w} hw := by
    by_cases hne : h' = h
    · exact (hm.own w (hne ▸ hw)).2.1
    · exact Nat.le_trans (hs.filled (hm.window?_ne hne ▸ hw)) (hm.blocks.written _)
  -- Of two windows at most one is that of the change.
  apart {h₁ h₂ w₁ w₂} hw₁ hw₂ e := by
    by_cases h1 : h₁ = h
    · by_cases h2 : h₂ = h
      · rw [h1, h2]
      · exact absurd e (hm.apart hs h2 (h1 ▸ hw₁) hw₂)
    · by_cases h2 : h₂ = h
      · exact absurd e.symm (hm.apart hs h1 (h2 ▸ hw₂) hw₁)
      · exact hs.apart (hm.window?_ne h1 ▸ hw₁) (hm.window?_ne h2 ▸ hw₂) e

/-- A list has another window. -/
theorem setList {l : Nat} {w : Window} {bs : Blocks}
    (hb : Blocks.ChangedAt (s.list l).block s.blocks bs)
    (hw : l < s.lists.size → w.block < bs.size ∧ bs.Filled w ∧
      (w.block = (s.list l).block ∨ s.blocks.size ≤ w.block)) :
    Moves (.list l) s { s with blocks := bs, lists := s.lists.set! l w } where
  lists k hne := by
    rw [Array.set!_eq_setIfInBounds]
    exact Array.getElem?_setIfInBounds_ne fun e => hne (congrArg Holder.list e.symm)
  maps _ _ := rfl
  blocks := hb
  own w' hw' := by
    simp only [window?, Array.set!_eq_setIfInBounds, Array.getElem?_setIfInBounds_self] at hw'
    split at hw'
    · -- The list is the only holder that has another window now.
      next hl =>
      cases hw'
      obtain ⟨h₁, h₂, h₃⟩ := hw hl
      exact ⟨h₁, h₂, h₃.imp (⟨·, by simp [window?, hl]⟩) id⟩
    · cases hw'

/-- A map has other keys or other values. -/
theorem setMap {m : Nat} {o : MapObject} {bs : Blocks}
    (hb : Blocks.ChangedAt (s.map m).keys.block s.blocks bs)
    (hw : m < s.maps.size → o.keys.block < bs.size ∧ bs.Filled o.keys ∧
      (o.keys.block = (s.map m).keys.block ∨ s.blocks.size ≤ o.keys.block)) :
    Moves (.map m) s { s with blocks := bs, maps := s.maps.set! m o } where
  lists _ _ := rfl
  maps k hne := by
    rw [Array.set!_eq_setIfInBounds]
    exact Array.getElem?_setIfInBounds_ne fun e => hne (congrArg Holder.map e.symm)
  blocks := hb
  own w' hw' := by
    simp only [window?, Array.set!_eq_setIfInBounds, Array.getElem?_setIfInBounds_self] at hw'
    split at hw'
    · next hl =>
      cases hw'
      obtain ⟨h₁, h₂, h₃⟩ := hw hl
      exact ⟨h₁, h₂, h₃.imp (⟨·, by simp [window?, hl]⟩) id⟩
    · cases hw'

/-- A list is founded on a new block. -/
theorem newList (s : Store) (items : List Value) :
    Moves (.list s.lists.size) s (s.change (.newList items)) where
  lists l hne := by
    show (s.lists.push _)[l]? = _
    rw [Array.getElem?_push, if_neg fun e => hne (congrArg Holder.list e)]
  maps _ _ := rfl
  blocks := .push ..
  own w hw := by
    replace hw : (s.lists.push (s.blocks.push items).2)[s.lists.size]? = some w := hw
    rw [Array.getElem?_push_size] at hw
    cases hw
    exact ⟨Blocks.block_push_lt .., Blocks.filled_push .., .inr (Nat.le_refl _)⟩

/-- A map is founded on a new block. -/
theorem newMap (s : Store) : Moves (.map s.maps.size) s (s.change .newMap) where
  lists _ _ := rfl
  maps m hne := by
    show (s.maps.push _)[m]? = _
    rw [Array.getElem?_push, if_neg fun e => hne (congrArg Holder.map e)]
  blocks := .push ..
  own w hw := by
    replace hw : (s.maps.push { keys := (s.blocks.push []).2 })[s.maps.size]?.map (·.keys) =
      some w := hw
    rw [Array.getElem?_push_size] at hw
    cases hw
    exact ⟨Blocks.block_push_lt .., Blocks.filled_push .., .inr (Nat.le_refl _)⟩

end Moves

/-- A list that was made has its window at hand. -/
theorem window?_list {l : Nat} (hl : l < s.lists.size) :
    s.window? (.list l) = some (s.window (.list l)) := by
  simp [window?, window, list, hl]

/-- So has a map. -/
theorem window?_map {m : Nat} (hm : m < s.maps.size) :
    s.window? (.map m) = some (s.window (.map m)) := by
  simp [window?, window, map, hm]

/-- A change outside of the lists and maps. -/
theorem change_outside {c : Change} (hc : c.holder? s = none) :
    (s.change c).blocks = s.blocks ∧ (s.change c).lists = s.lists ∧ (s.change c).maps = s.maps := by
  cases c with
  | outside other => exact ⟨rfl, rfl, rfl⟩
  | _ => cases hc

/-- A further item is added to a window that may be on a new block then. -/
theorem Tidy.widen (hs : s.Tidy) (h : Holder) (v : Value) :
    (s.blocks.widen (s.window h)).block < (s.blocks.add (s.window h) v).size ∧
      (s.blocks.add (s.window h) v).Filled (s.blocks.widen (s.window h)) ∧
      ((s.blocks.widen (s.window h)).block = (s.window h).block ∨
        s.blocks.size ≤ (s.blocks.widen (s.window h)).block) := by
  have hfilled := Blocks.filled_add (hs.filled_window h) v
  have hposition : 0 < (s.blocks.widen (s.window h)).length := Nat.succ_pos _
  refine ⟨Blocks.lt_size_of_written (Nat.lt_of_lt_of_le hposition hfilled), hfilled, ?_⟩
  exact (Blocks.block_widen s.blocks (s.window h)).imp And.left (Nat.le_of_eq ∘ Eq.symm)

/-- A change concerns one list or map. -/
theorem Tidy.moves (hs : s.Tidy) {c : Change} {h : Holder} (hc : c.holder? s = some h) :
    Moves h s (s.change c) := by
  cases c with
  | outside other => cases hc
  | newList items =>
    cases hc
    exact .newList s items
  | listAdd l v =>
    cases hc
    exact .setList (Blocks.changedAt_add ..) fun _ => hs.widen (.list l) v
  | listSet l i v =>
    cases hc
    -- Only a slot that was written is written again.
    refine ⟨fun _ _ => rfl, fun _ _ => rfl, Blocks.changedAt_write .., fun w hw => ?_⟩
    replace hw : s.window? (.list l) = some w := hw
    have hlater := (Blocks.changedAt_write s.blocks (s.list l).block i v)
    rw [hw]
    exact ⟨Nat.lt_of_lt_of_le (hs.placed hw) hlater.size,
      Nat.le_trans (hs.filled hw) (hlater.written _),
      .inl ⟨congrArg Window.block (window_of_some hw).symm, rfl⟩⟩
  | listPop l =>
    cases hc
    -- The window gets shorter and stays on its block.
    refine .setList (.refl ..) fun hl => ⟨?_, ?_, .inl rfl⟩
    · show (s.window (.list l)).block < s.blocks.size
      exact hs.placed (window?_list hl)
    · exact Nat.le_trans (Nat.sub_le _ _) (hs.filled_window (.list l))
  | newMap =>
    cases hc
    exact .newMap s
  | mapSet m key value =>
    cases hc
    show Moves _ s (s.mapSet m key value)
    unfold mapSet
    dsimp only
    split
    · -- The key is there already: the window stays.
      exact .setMap (.refl ..) fun hm =>
        ⟨hs.placed (window?_map hm), hs.filled_window (.map m), .inl rfl⟩
    · exact .setMap (Blocks.changedAt_add ..) fun _ => hs.widen (.map m) key
  | mapRemove m key =>
    cases hc
    show Moves _ s (s.mapRemove m key)
    unfold mapRemove
    dsimp only
    split
    · -- The key is not there, and the window stays.
      exact .setMap (.refl ..) fun hm =>
        ⟨hs.placed (window?_map hm), hs.filled_window (.map m), .inl rfl⟩
    · next i _ =>
      have hlater := Blocks.changedAt_remove s.blocks (s.map m).keys i
      refine .setMap hlater fun hm =>
        ⟨?_, Blocks.filled_remove (hs.filled_window (.map m)) i, .inl rfl⟩
      show (s.window (.map m)).block < (s.blocks.remove (s.map m).keys i).1.size
      exact Nat.lt_of_lt_of_le (hs.placed (window?_map hm)) hlater.size

/-- Every change keeps a store tidy. -/
theorem Tidy.change (hs : s.Tidy) (c : Change) : (s.change c).Tidy := by
  cases hc : c.holder? s with
  | none =>
    obtain ⟨hblocks, hlists, hmaps⟩ := change_outside hc
    exact hs.of_eq hblocks hlists hmaps
  | some h => exact (hs.moves hc).tidy hs

/-- What was written stays written. -/
theorem Tidy.written_le (hs : s.Tidy) (h : s.Evolves s') (k : Nat) :
    s.blocks.written k ≤ s'.blocks.written k := by
  refine (h.keeps (P := fun t => t.Tidy ∧ s.blocks.written k ≤ t.blocks.written k)
    ⟨hs, Nat.le_refl _⟩ fun t c _ ⟨ht, hle⟩ => ⟨ht.change c, Nat.le_trans hle ?_⟩).2
  cases hc : c.holder? t with
  | none => exact Nat.le_of_eq (congrArg (Blocks.written · k) (change_outside hc).1).symm
  | some h => exact (ht.moves hc).blocks.written k

/-- A store that changes have made is tidy. -/
theorem Made.tidy (hs : s.Made) : s.Tidy :=
  have ⟨es, hs⟩ := hs
  hs.keeps (.empty es) fun _ c _ h => h.change c

/-! ### Items of lists -/

/-- A list has an item at every index below its length, and at no other. -/
theorem Tidy.listGet?_isSome_iff (hs : s.Tidy) {l i : Nat} :
    (s.listGet? l i).isSome ↔ i < (s.list l).length := by
  refine ⟨fun h => ?_, (hs.filled_window (.list l)).get?_isSome⟩
  by_contra hi
  simp [listGet?, Blocks.get?, hi] at h

/-- A list in the same window has the same length. -/
theorem length_list_eq {l : Nat} (h : s'.lists[l]? = s.lists[l]?) :
    (s'.list l).length = (s.list l).length := by
  unfold list
  rw [h]
  cases s.lists[l]? <;> rfl

/-- A list has no fewer items after a change that does not drop one from it. -/
theorem Tidy.length_list_change (hs : s.Tidy) {l : Nat} {c : Change} (hc : c ≠ .listPop l) :
    (s.list l).length ≤ ((s.change c).list l).length := by
  by_cases h : c.holder? s = some (.list l)
  · cases c with
    | newList items =>
      cases h
      simp [list]
    | listAdd k v =>
      cases h
      show _ ≤ ((s.listAdd l v).list l).length
      -- A list that is not at hand has no items before and after.
      by_cases hl : l < s.lists.size
      · simp [listAdd, list, hl, Blocks.widen]
      · simp [list, hl]
    | listSet k i v =>
      cases h
      have hlists : (s.listSet l i v).lists[l]? = s.lists[l]? := rfl
      exact Nat.le_of_eq (length_list_eq hlists).symm
    | listPop k =>
      cases h
      exact absurd rfl hc
    | _ => cases h
  · -- The change concerns another list or map, or none.
    cases hh : c.holder? s with
    | none => exact Nat.le_of_eq (length_list_eq (by rw [(change_outside hh).2.1])).symm
    | some h' =>
      have hne : .list l ≠ h' := fun e => h (e ▸ hh)
      exact Nat.le_of_eq (length_list_eq ((hs.moves hh).lists l hne)).symm

/-- A list has no fewer items after changes that do not drop any from it. -/
theorem Tidy.length_list_le (hs : s.Tidy) {l : Nat} {may : Change → Prop}
    (hmay : ∀ c, may c → c ≠ .listPop l) (h : s.Leads may s') :
    (s.list l).length ≤ (s'.list l).length :=
  (h.keeps (P := fun t => t.Tidy ∧ (s.list l).length ≤ (t.list l).length) ⟨hs, Nat.le_refl _⟩
    fun _ c hc ⟨ht, hle⟩ => ⟨ht.change c, Nat.le_trans hle (ht.length_list_change (hmay c hc))⟩).2

end Store

end ClassScript
