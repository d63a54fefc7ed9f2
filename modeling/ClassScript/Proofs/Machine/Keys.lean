import Mathlib
import ClassScript.Proofs.Machine.Windows

/-!
# Keys of maps

A map keeps its keys in a window, in insertion order, and their values in a table next to it.
`MapObject.Keyed` says that no key is there twice and that each key has a value, as far as it is the
same as itself: a not-a-number is not, and its value is never found. Every change of a store keeps
this, also when a key is taken out and the others move up. `Store.Held` is what a walk over the keys
that a map had relies on, and it is lost only where a key is taken out of the map.
-/

namespace ClassScript

/-! ### Being the same value -/

section Floats

open Float.Model (UnpackedFloat)

/-- Two numbers in parts are equal if both are zero or if they have the same parts. -/
theorem unpacked_beq_iff (a b : UnpackedFloat) :
    a.beq b = true ↔ a ≠ .notANumber ∧ (a = b ∨ ∃ s t, a = .zero s ∧ b = .zero t) := by
  cases a with
  | notANumber => simp [UnpackedFloat.beq, UnpackedFloat.compare]
  | zero s =>
    -- Zeros are equal whatever their signs are.
    cases b with
    | finite t n f hn => cases t <;> simp [UnpackedFloat.beq, UnpackedFloat.compare]
    | infinity t => cases t <;> simp [UnpackedFloat.beq, UnpackedFloat.compare]
    | _ => simp [UnpackedFloat.beq, UnpackedFloat.compare]
  | infinity s =>
    cases b with
    | infinity t =>
      cases s <;> cases t <;> simp [UnpackedFloat.beq, UnpackedFloat.compare] <;> decide
    | _ => cases s <;> simp [UnpackedFloat.beq, UnpackedFloat.compare]
  | finite s m e hm =>
    cases b with
    | finite t n f hn =>
      cases s <;> cases t <;> simp [UnpackedFloat.beq, UnpackedFloat.compare, and_comm]
    | infinity t => cases t <;> simp [UnpackedFloat.beq, UnpackedFloat.compare]
    | _ => cases s <;> simp [UnpackedFloat.beq, UnpackedFloat.compare]

/-- Two floats are equal if their numbers are. -/
theorem float_beq_iff (x y : Float) :
    (x == y) = true ↔ x.toModel.unpack.beq y.toModel.unpack = true := .rfl

/-- Equality of floats is symmetric. -/
theorem float_beq_symm {x y : Float} (h : (x == y) = true) : (y == x) = true := by
  rw [float_beq_iff, unpacked_beq_iff] at h ⊢
  obtain ⟨hnan, h | ⟨s, t, hx, hy⟩⟩ := h
  · exact ⟨h ▸ hnan, .inl h.symm⟩
  · exact ⟨by simp [hy], .inr ⟨t, s, hy, hx⟩⟩

/-- Equality of floats is transitive. -/
theorem float_beq_trans {x y z : Float} (h₁ : (x == y) = true) (h₂ : (y == z) = true) :
    (x == z) = true := by
  rw [float_beq_iff, unpacked_beq_iff] at h₁ h₂ ⊢
  obtain ⟨hnan, h₁⟩ := h₁
  refine ⟨hnan, ?_⟩
  obtain h₁ | ⟨s, t, hx, hy⟩ := h₁
  · exact h₁ ▸ h₂.2
  · obtain h₂ | ⟨t', u, hy', hz⟩ := h₂.2
    · exact .inr ⟨s, t, hx, h₂ ▸ hy⟩
    · exact .inr ⟨s, u, hx, hz⟩

end Floats

namespace Value

variable {a b c : Value}

/-- A not-a-number: a number that does not equal itself. -/
def IsNaN (v : Value) : Prop := ∃ x, v = .float x ∧ ¬(x == x) = true

/-- Every value is the same as itself but a not-a-number and the superclasses that methods see,
which no expression has as its value. -/
theorem same_self_iff : a.same a = true ↔ ¬a.IsNaN ∧ ∀ cs, a ≠ .superclasses cs := by
  cases a <;> simp [same, IsNaN]

/-- Being the same value is symmetric. -/
theorem same_symm (h : a.same b = true) : b.same a = true := by
  cases a <;> cases b <;> simp only [same, beq_iff_eq, Bool.false_eq_true] at h ⊢
  case float x y => exact float_beq_symm h
  all_goals exact h.symm

/-- Being the same value is transitive. -/
theorem same_trans (h₁ : a.same b = true) (h₂ : b.same c = true) : a.same c = true := by
  cases a <;> cases b <;> simp only [same, beq_iff_eq, Bool.false_eq_true] at h₁ <;>
    cases c <;> simp only [same, beq_iff_eq, Bool.false_eq_true] at h₂ ⊢
  case float x y z => exact float_beq_trans h₁ h₂
  all_goals exact h₁.trans h₂

end Value

/-! ### Tables of values -/

namespace MapObject

variable {o : MapObject} {key k : Value}

/-- A key has a value exactly if the table has an entry with the same key. -/
theorem get?_isSome_iff : (o.get? k).isSome ↔ ∃ e ∈ o.entries, e.1.same k = true := by
  simp [get?]

/-- Without the entries of a key, the keys that are the same are not found, and the other ones are
found as before. -/
theorem find?_filter_same (entries : List (Value × Value)) (key k : Value) :
    (entries.filter (!·.1.same key)).find? (·.1.same k) =
      if key.same k then none else entries.find? (·.1.same k) := by
  -- Being the same is an equivalence, so an entry cannot be the same as only one of the two.
  rw [List.find?_filter]
  split
  · next hsame =>
    refine List.find?_eq_none.2 fun e _ he => ?_
    have ⟨hne, hek⟩ : ¬e.1.same key = true ∧ e.1.same k = true := by simpa using he
    exact hne (Value.same_trans hek (Value.same_symm hsame))
  · next hsame =>
    refine List.find?_congr fun e _ => ?_
    have hne : e.1.same k = true → ¬e.1.same key = true := fun hek hekey =>
      hsame (Value.same_trans (Value.same_symm hekey) hek)
    cases hek : e.1.same k with
    | false => simp
    | true => simpa using hne hek

/-- After a key got a value, the keys that are the same have this value. -/
theorem get?_put (o : MapObject) (key value k : Value) :
    get? { o with entries := o.put key value } k =
      if key.same k then some value else o.get? k := by
  unfold get? put
  rw [List.find?_cons, find?_filter_same]
  cases key.same k <;> rfl

/-- After a key was taken out, the keys that are the same have no value. -/
theorem get?_drop (o : MapObject) (key k : Value) :
    get? { o with entries := o.drop key } k = if key.same k then none else o.get? k := by
  unfold get? drop
  rw [find?_filter_same]
  cases key.same k <;> rfl

/-- After a key was given a value, this key and those before have values. -/
theorem isSome_put (value : Value) :
    (get? { o with entries := o.put key value } k).isSome ↔
      key.same k = true ∨ (o.get? k).isSome := by
  rw [get?_put]
  split
  · next hsame => exact iff_of_true rfl (.inl hsame)
  · next hsame => exact (or_iff_right hsame).symm

/-- After a key was taken out, the other keys have values as before. -/
theorem isSome_drop (hk : ¬key.same k = true) :
    (get? { o with entries := o.drop key } k).isSome ↔ (o.get? k).isSome := by
  rw [get?_drop, if_neg hk]

/-- No key of a map is there twice, and a key has a value if it is the same as itself. -/
structure Keyed (bs : Blocks) (o : MapObject) : Prop where
  /-- No two keys are the same. -/
  distinct : (bs.items o.keys).Pairwise fun a b => ¬a.same b = true
  /-- Every key has a value. -/
  valued : ∀ k ∈ bs.items o.keys, k.same k = true → (o.get? k).isSome

namespace Keyed

variable {bs bs' : Blocks} {keys : Window}

/-- Keys that are the same in other blocks are keyed there too. -/
theorem of_items (h : o.Keyed bs) (hitems : bs'.items o.keys = bs.items o.keys) : o.Keyed bs' :=
  ⟨hitems ▸ h.distinct, hitems ▸ h.valued⟩

/-- A key that is there may get another value. -/
theorem put (h : o.Keyed bs) (value : Value) :
    Keyed bs { o with entries := o.put key value } :=
  ⟨h.distinct, fun k hk hself => (isSome_put value).2 (.inr (h.valued k hk hself))⟩

/-- A key that had no value goes behind the others. -/
theorem add (h : o.Keyed bs) (hkey : ¬(o.get? key).isSome) (value : Value)
    (hitems : bs'.items keys = bs.items o.keys ++ [key]) :
    Keyed bs' { keys, entries := o.put key value } where
  distinct := by
    rw [hitems, List.pairwise_append]
    refine ⟨h.distinct, List.pairwise_singleton .., fun k hk k' hk' hsame => ?_⟩
    obtain rfl := List.mem_singleton.1 hk'
    -- A key that is the same as the new one would have a value, and so the new one.
    have hself : k.same k = true := Value.same_trans hsame (Value.same_symm hsame)
    obtain ⟨e, he, hek⟩ := get?_isSome_iff.1 (h.valued k hk hself)
    exact hkey (get?_isSome_iff.2 ⟨e, he, Value.same_trans hek hsame⟩)
  valued k hk hself := by
    rw [hitems, List.mem_append, List.mem_singleton] at hk
    refine (isSome_put value (o := o)).2 ?_
    obtain hk | rfl := hk
    · exact .inr (h.valued k hk hself)
    · exact .inl hself

/-- A key that is not among the keys is taken out. -/
theorem drop (h : o.Keyed bs) (hkey : ∀ k ∈ bs.items o.keys, ¬k.same key = true) :
    Keyed bs { o with entries := o.drop key } where
  distinct := h.distinct
  valued k hk hself :=
    (isSome_drop fun hsame => hkey k hk (Value.same_symm hsame)).2 (h.valued k hk hself)

/-- A key is taken out from among the others. -/
theorem remove (h : o.Keyed bs) {i : Nat} {k₀ : Value} (hi : (bs.items o.keys)[i]? = some k₀)
    (hkey : k₀.same key = true) (hitems : bs'.items keys = (bs.items o.keys).eraseIdx i) :
    Keyed bs' { keys, entries := o.drop key } where
  distinct := hitems ▸ h.distinct.sublist (List.eraseIdx_sublist ..)
  valued k hk hself := by
    rw [hitems, List.mem_eraseIdx_iff_getElem?] at hk
    obtain ⟨j, hji, hj⟩ := hk
    refine (isSome_drop (o := o) fun hsame => ?_).2
      (h.valued k (List.mem_of_getElem? hj) hself)
    -- Another key that is the same would be there twice.
    have hboth : k₀.same k = true := Value.same_trans hkey hsame
    obtain ⟨hilt, rfl⟩ := List.getElem?_eq_some_iff.1 hi
    obtain ⟨hjlt, rfl⟩ := List.getElem?_eq_some_iff.1 hj
    rcases Nat.lt_or_gt_of_ne hji with hlt | hlt
    · exact List.pairwise_iff_getElem.1 h.distinct j i hjlt hilt hlt (Value.same_symm hboth)
    · exact List.pairwise_iff_getElem.1 h.distinct i j hilt hjlt hlt hboth

end Keyed

end MapObject

/-! ### Stores with maps -/

namespace Store

variable {s : Store} {m : Nat}

/-- A map that is at hand is the one in its place. -/
theorem map_of_some {o : MapObject} (h : s.maps[m]? = some o) : s.map m = o := by
  rw [map, h, Option.getD_some]

/-- Its window is that of its keys. -/
theorem window?_of_map {o : MapObject} (h : s.maps[m]? = some o) :
    s.window? (.map m) = some o.keys := congrArg (Option.map MapObject.keys) h

/-- A map after it was replaced. -/
theorem getElem?_maps_set {o o' : MapObject} (h : (s.maps.set! m o')[m]? = some o) :
    o = o' ∧ s.maps[m]? = some (s.map m) := by
  rw [Array.set!_eq_setIfInBounds, Array.getElem?_setIfInBounds_self] at h
  split at h
  · next hm => exact ⟨(Option.some.inj h).symm, by simp [map, hm]⟩
  · cases h

/-- Every map of a store has its keys once and with values. -/
def Keyed (s : Store) : Prop :=
  ∀ {m : Nat} {o : MapObject}, s.maps[m]? = some o → o.Keyed s.blocks

namespace Keyed

/-- A new map is keyed, since it has no keys. -/
theorem newMap {o : MapObject} (h : s.newMap.1.maps[s.maps.size]? = some o) :
    o.Keyed s.newMap.1.blocks := by
  have ho : o = { keys := (s.blocks.push []).2 } := by
    replace h : (s.maps.push { keys := (s.blocks.push []).2 })[s.maps.size]? = some o := h
    rw [Array.getElem?_push_size] at h
    exact (Option.some.inj h).symm
  have hnone : s.newMap.1.blocks.items o.keys = [] := by
    rw [ho]
    exact Blocks.items_push s.blocks []
  exact ⟨hnone ▸ .nil, fun k hk => absurd (hnone ▸ hk) List.not_mem_nil⟩

/-- A map stays keyed when a key gets a value. -/
theorem mapSet (hs : s.Tidy) (hk : s.Keyed) {key value : Value} {o : MapObject}
    (h : (s.mapSet m key value).maps[m]? = some o) : o.Keyed (s.mapSet m key value).blocks := by
  unfold Store.mapSet at h ⊢
  dsimp only at h ⊢
  -- A key that is there keeps its place, and a new one comes behind the others.
  split at h
  · next hkey =>
    obtain ⟨rfl, hm⟩ := getElem?_maps_set h
    rw [if_pos hkey]
    exact (hk hm).put value
  · next hkey =>
    obtain ⟨rfl, hm⟩ := getElem?_maps_set h
    rw [if_neg hkey]
    exact (hk hm).add hkey value (Blocks.items_add (hs.filled_window (.map m)) key)

/-- A map stays keyed when a key is taken out. -/
theorem mapRemove (hs : s.Tidy) (hk : s.Keyed) {key : Value} {o : MapObject}
    (h : (s.mapRemove m key).maps[m]? = some o) : o.Keyed (s.mapRemove m key).blocks := by
  unfold Store.mapRemove at h ⊢
  dsimp only at h ⊢
  cases hi : (s.mapKeys m).findIdx? (·.same key) with
  | none =>
    -- The key is not there, and nothing changes.
    rw [hi] at h
    obtain ⟨rfl, hm⟩ := getElem?_maps_set h
    exact (hk hm).drop fun k hmem => by
      simpa using List.findIdx?_eq_none_iff.1 hi k hmem
  | some i =>
    -- The key is taken out of the window and of the table.
    rw [hi] at h
    obtain ⟨rfl, hm⟩ := getElem?_maps_set h
    obtain ⟨hlt, hkey, -⟩ := List.findIdx?_eq_some_iff_getElem.1 hi
    have hfilled := hs.filled_window (.map m)
    exact (hk hm).remove (List.getElem?_eq_getElem hlt) hkey
      (Blocks.items_remove hfilled (hfilled.length_items ▸ hlt))

/-- Every change keeps the keys of maps with values. -/
theorem change (hk : s.Keyed) (hs : s.Tidy) (c : Change) : (s.change c).Keyed := by
  intro m o ho
  cases hh : c.holder? s with
  | none =>
    obtain ⟨hblocks, -, hmaps⟩ := change_outside hh
    exact hblocks ▸ hk (hmaps ▸ ho)
  | some h =>
    by_cases hne : .map m = h
    · -- A change of this map is a new map, a value for a key, or a key less.
      subst hne
      cases c with
      | newMap => cases hh; exact newMap ho
      | mapSet _ key value => cases hh; exact mapSet hs hk ho
      | mapRemove _ key => cases hh; exact mapRemove hs hk ho
      | _ => cases hh
    · -- A change of another list or map leaves the window of this one.
      have hm := hs.moves hh
      rw [hm.maps m hne] at ho
      exact (hk ho).of_items (Blocks.items_eq_of_block (hm.block_eq hs hne (window?_of_map ho)))

end Keyed

/-- In a store that changes have made, every map has its keys once and with values. -/
theorem Made.keyed (hs : s.Made) : s.Keyed :=
  have ⟨es, hs⟩ := hs
  (hs.keeps (P := fun t => t.Tidy ∧ t.Keyed) ⟨.empty es, by simp [Keyed]⟩
    fun _ c _ ⟨ht, hk⟩ => ⟨ht.change c, hk.change ht c⟩).2

/-! ### Walks over keys -/

/-- What a walk over the keys that a map had relies on: they are still where they were, and each of
them that is the same as itself has a value. The map may have gone on to another block, but nothing
else has come to the block of the keys. -/
structure Held (m : Nat) (w : Window) (keys : List Value) (s : Store) : Prop where
  /-- Lists and maps keep their items apart. -/
  tidy : s.Tidy
  /-- The map is at hand. -/
  lt_size : m < s.maps.size
  /-- The block of the keys is at hand. -/
  placed : w.block < s.blocks.size
  /-- Only the map may be on the block of the keys, and its window covers them then. -/
  owner : ∀ {h w'}, s.window? h = some w' → w'.block = w.block → h = .map m ∧ w.length ≤ w'.length
  /-- The keys are where they were. -/
  items : s.blocks.items w = keys
  /-- The keys have values. -/
  valued : ∀ k ∈ keys, k.same k = true → (s.mapGet? m k).isSome

namespace Held

variable {w : Window} {keys : List Value}

/-- The keys of a map before a walk over them. -/
theorem of_keyed (hs : s.Tidy) (hk : s.Keyed) (hm : m < s.maps.size) :
    Held m (s.map m).keys (s.mapKeys m) s := by
  have hw : s.window? (.map m) = some (s.map m).keys := window?_map hm
  refine ⟨hs, hm, hs.placed hw, fun hw' e => ?_, rfl, fun k hmem hself => ?_⟩
  · obtain rfl := hs.apart hw' hw e
    exact ⟨rfl, Nat.le_of_eq (congrArg Window.length (Option.some.inj (hw.symm.trans hw')))⟩
  · have hmap : s.maps[m]? = some (s.map m) := by simp [map, hm]
    exact (hk hmap).valued k hmem hself

/-- A walk may go on in a store with the same lists and maps. -/
theorem of_eq {s' : Store} (h : Held m w keys s) (blocks : s'.blocks = s.blocks)
    (lists : s'.lists = s.lists) (maps : s'.maps = s.maps) : Held m w keys s' where
  tidy := h.tidy.of_eq blocks lists maps
  lt_size := maps ▸ h.lt_size
  placed := blocks ▸ h.placed
  owner {h' w'} hw' := by
    have e : s'.window? h' = s.window? h' := by cases h' <;> simp only [window?, lists, maps]
    exact h.owner (e ▸ hw')
  items := blocks ▸ h.items
  valued k hk hself := by
    have e : s'.map m = s.map m := by simp only [map, maps, blocks]
    simpa only [mapGet?, e] using h.valued k hk hself

/-- A change of another list or map. -/
theorem of_moves {s' : Store} {h' : Holder} (h : Held m w keys s) (hm : Moves h' s s')
    (hne : .map m ≠ h') : Held m w keys s' := by
  -- The block of the keys belongs to nothing but the map.
  have hblock : w.block ≠ (s.window h').block := fun e => by
    cases hw' : s.window? h' with
    | none =>
      rw [window_of_none hw'] at e
      exact Nat.ne_of_lt h.placed e
    | some w' =>
      rw [window_of_some hw'] at e
      exact hne (h.owner hw' e.symm).1.symm
  have hmap : s'.maps[m]? = some (s.map m) := by
    rw [hm.maps m hne]
    simp [map, h.lt_size]
  refine ⟨hm.tidy h.tidy, (Array.getElem?_eq_some_iff.1 hmap).1,
    Nat.lt_of_lt_of_le h.placed hm.blocks.size, fun {h₁ w₁} hw₁ e => ?_, ?_, fun k hk hself => ?_⟩
  · by_cases h1 : h₁ = h'
    · obtain ⟨-, -, ⟨hsame, -⟩ | hnew⟩ := hm.own w₁ (h1 ▸ hw₁)
      · exact absurd (e.symm.trans hsame) hblock
      · exact absurd h.placed (Nat.not_lt_of_le (e ▸ hnew))
    · exact h.owner (hm.window?_ne h1 ▸ hw₁) e
  · exact (Blocks.items_eq_of_block (hm.blocks.other _ h.placed hblock)).trans h.items
  · simpa only [mapGet?, map_of_some hmap] using h.valued k hk hself

/-- A change of the map that does not write to the slots of the keys and takes no value away. -/
theorem of_map {o : MapObject} {bs : Blocks} (h : Held m w keys s)
    (hm : Moves (.map m) s { s with blocks := bs, maps := s.maps.set! m o })
    (howner : o.keys.block = w.block → w.length ≤ o.keys.length)
    (hitems : bs.items w = s.blocks.items w)
    (hvalued : ∀ k, (s.mapGet? m k).isSome → (o.get? k).isSome) :
    Held m w keys { s with blocks := bs, maps := s.maps.set! m o } := by
  have hmap : (s.maps.set! m o)[m]? = some o := by
    rw [Array.set!_eq_setIfInBounds, Array.getElem?_setIfInBounds_self, if_pos h.lt_size]
  refine ⟨hm.tidy h.tidy, (Array.getElem?_eq_some_iff.1 hmap).1,
    Nat.lt_of_lt_of_le h.placed hm.blocks.size, fun {h₁ w₁} hw₁ e => ?_, hitems.trans h.items,
    fun k hk hself => ?_⟩
  · -- The map itself owns its keys; every other holder has its window left as it was.
    by_cases h1 : h₁ = .map m
    · subst h1
      obtain rfl : o.keys = w₁ :=
        Option.some.inj ((congrArg (Option.map MapObject.keys) hmap).symm.trans hw₁)
      exact ⟨rfl, howner e⟩
    · exact h.owner (hm.window?_ne h1 ▸ hw₁) e
  · have hget := hvalued k (h.valued k hk hself)
    rwa [← map_of_some (s := { s with blocks := bs, maps := s.maps.set! m o }) hmap] at hget

/-- A key of the map is given a value. -/
theorem mapSet (h : Held m w keys s) (key value : Value) : Held m w keys (s.mapSet m key value) := by
  have hm : Moves (.map m) s (s.mapSet m key value) :=
    h.tidy.moves (c := .mapSet m key value) rfl
  have howner : (s.map m).keys.block = w.block → w.length ≤ (s.map m).keys.length :=
    fun e => (h.owner (window?_map h.lt_size) e).2
  have hvalued : ∀ k, (s.mapGet? m k).isSome →
      (MapObject.get? { s.map m with entries := (s.map m).put key value } k).isSome :=
    fun k hk => (MapObject.isSome_put value).2 (.inr hk)
  unfold Store.mapSet at hm ⊢
  dsimp only at hm ⊢
  split at hm
  · -- The key has a value already: only the table changes.
    next hkey =>
    rw [if_pos hkey]
    exact h.of_map hm howner rfl hvalued
  · -- A new key goes behind the others. If the map moves to another block, the walk keeps the old
    -- one.
    next hkey =>
    rw [if_neg hkey]
    refine h.of_map hm (fun e => ?_) ?_ hvalued
    · obtain ⟨hsame, -⟩ | hnew := Blocks.block_widen s.blocks (s.map m).keys
      · exact Nat.le_succ_of_le (howner (hsame.symm.trans e))
      · exact absurd h.placed (Nat.not_lt_of_le (Nat.le_of_eq (hnew.symm.trans e)))
    · exact Blocks.items_add_of_le (h.tidy.filled_window (.map m)) h.placed howner key

/-- The keys are held as long as none is taken out of the map. -/
theorem change (h : Held m w keys s) {c : Change} (hc : ∀ key, c ≠ .mapRemove m key) :
    Held m w keys (s.change c) := by
  cases hh : c.holder? s with
  | none =>
    obtain ⟨hblocks, hlists, hmaps⟩ := change_outside hh
    exact h.of_eq hblocks hlists hmaps
  | some h' =>
    by_cases hne : .map m = h'
    · subst hne
      cases c with
      | newMap =>
        -- The map that the walk goes through was made before.
        cases hh
        exact absurd h.lt_size (Nat.lt_irrefl _)
      | mapSet _ key value => cases hh; exact h.mapSet key value
      | mapRemove _ key => cases hh; exact absurd rfl (hc key)
      | _ => cases hh
    · exact h.of_moves (h.tidy.moves hh) hne

/-- Changes that take no key out of the map lead to a store that still holds the keys. -/
theorem leads {t : Store} (h : Held m w keys s)
    (hl : s.Leads (fun c => ∀ key, c ≠ .mapRemove m key) t) : Held m w keys t :=
  hl.keeps h fun _ _ hc hu => hu.change hc

end Held

end Store

end ClassScript
