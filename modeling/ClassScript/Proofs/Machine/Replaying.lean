import ClassScript.Proofs.Machine.Iterating
import ClassScript.Proofs.Machine.Keys

/-!
# Maps and the calls that made them

A map keeps its keys in insertion order and, next to them, a table of values. What both of them are
follows from the calls alone: `valueAfter` and `keysAfter` replay them. An iterator goes through the
keys that the map had when it was made, and passes over those that the map has lost by the time
their turn comes.
-/

namespace ClassScript

open Store (Change)

/-! ### Replaying calls -/

/-- A call that leaves a map as it is. -/
inductive MapQuestion where
  /-- The value of a key. -/
  | get (key : Value)
  /-- Whether a key has a value. -/
  | has (key : Value)
  /-- The number of keys. -/
  | length
  /-- The list of keys. -/
  | keys
  /-- An iterator over the map. -/
  | iterate
  /-- The next element of an iterator. -/
  | next (i : Nat)

/-- A call of a method of a map, or of an iterator. -/
inductive MapCall where
  /-- A key gets a value. -/
  | set (key value : Value)
  /-- A key is taken out. -/
  | remove (key : Value)
  /-- Something is asked. -/
  | ask (question : MapQuestion)

/-- The value of a key after some calls, the latest first: the one that it got last, unless it was
taken out since. -/
def valueAfter : List MapCall → Value → Option Value
  | [], _ => none
  | .set key value :: earlier, k => if key.same k then some value else valueAfter earlier k
  | .remove key :: earlier, k => if key.same k then none else valueAfter earlier k
  | .ask _ :: earlier, k => valueAfter earlier k

/-- The keys after some calls, the latest first: a key that had no value goes behind the others. -/
def keysAfter : List MapCall → List Value
  | [] => []
  | .set key _ :: earlier =>
    if (valueAfter earlier key).isSome then keysAfter earlier else keysAfter earlier ++ [key]
  | .remove key :: earlier => (keysAfter earlier).eraseP (·.same key)
  | .ask _ :: earlier => keysAfter earlier

/-- A key that gets a value goes behind the others if it had none. -/
theorem keysAfter_set (key value : Value) (earlier : List MapCall) :
    keysAfter (.set key value :: earlier) =
      if (valueAfter earlier key).isSome then keysAfter earlier
      else keysAfter earlier ++ [key] := rfl

/-- A key that gets a value has it, and the others have theirs. -/
theorem valueAfter_set (key value k : Value) (earlier : List MapCall) :
    valueAfter (.set key value :: earlier) k =
      if key.same k then some value else valueAfter earlier k := rfl

/-- A key that is taken out has no value, and the others have theirs. -/
theorem valueAfter_remove (key k : Value) (earlier : List MapCall) :
    valueAfter (.remove key :: earlier) k =
      if key.same k then none else valueAfter earlier k := rfl

/-- Keys of a map with some values. -/
structure KeysOf (value : Value → Option Value) (keys : List Value) : Prop where
  /-- No key is there twice. -/
  distinct : keys.Pairwise fun a b => ¬a.same b = true
  /-- The keys are those that have values. -/
  valued : ∀ k, (value k).isSome ↔ ∃ a ∈ keys, a.same k = true

namespace KeysOf

variable {value : Value → Option Value} {keys : List Value} {key : Value}

/-- A key that has a value gets another one. -/
theorem replace (h : KeysOf value keys) (hkey : (value key).isSome) (v : Value) :
    KeysOf (fun k => if key.same k then some v else value k) keys where
  distinct := h.distinct
  valued k := by
    split
    · next hsame =>
      obtain ⟨a, ha, hak⟩ := (h.valued key).1 hkey
      exact iff_of_true rfl ⟨a, ha, Value.same_trans hak hsame⟩
    · exact h.valued k

/-- A key that has no value gets one, and goes behind the others. -/
theorem add (h : KeysOf value keys) (hkey : ¬(value key).isSome) (v : Value) :
    KeysOf (fun k => if key.same k then some v else value k) (keys ++ [key]) where
  distinct := by
    refine List.pairwise_append.2 ⟨h.distinct, List.pairwise_singleton .., ?_⟩
    intro a ha b hb hab
    cases List.mem_singleton.1 hb
    exact hkey ((h.valued key).2 ⟨a, ha, hab⟩)
  valued k := by
    simp only [List.mem_append, List.mem_singleton, or_and_right, exists_or, exists_eq_left]
    split
    · next hsame => exact iff_of_true rfl (.inr hsame)
    · next hsame => exact (h.valued k).trans (or_iff_left hsame).symm

/-- None of the keys is left that is the same as one that was taken out. -/
theorem not_same_of_mem_eraseP (h : KeysOf value keys) {k : Value}
    (hk : k ∈ keys.eraseP (·.same key)) : ¬k.same key = true := by
  intro hsame
  obtain ⟨a, front, behind, hfront, ha, rfl, herase⟩ :=
    List.exists_of_eraseP (p := (·.same key)) (List.mem_of_mem_eraseP hk) hsame
  rw [herase, List.mem_append] at hk
  obtain hk | hk := hk
  · exact hfront k hk hsame
  · have hbehind := (List.pairwise_cons.1 (List.pairwise_append.1 h.distinct).2.1).1 k hk
    exact hbehind (Value.same_trans ha (Value.same_symm hsame))

/-- A key is taken out. -/
theorem remove (h : KeysOf value keys) (key : Value) :
    KeysOf (fun k => if key.same k then none else value k) (keys.eraseP (·.same key)) where
  distinct := h.distinct.sublist List.eraseP_sublist
  valued k := by
    -- A key that is the same as the removed one has no value, and none of those left is the same.
    split
    · next hsame =>
      refine iff_of_false Bool.false_ne_true ?_
      rintro ⟨a, ha, hak⟩
      exact h.not_same_of_mem_eraseP ha (Value.same_trans hak (Value.same_symm hsame))
    · next hsame =>
      refine (h.valued k).trans (exists_congr fun a => and_congr_left fun hak => ?_)
      refine (List.mem_eraseP_of_neg fun ha => hsame ?_).symm
      exact Value.same_trans (Value.same_symm ha) hak

/-- A key without a value is none of the keys. -/
theorem not_same_of_absent (h : KeysOf value keys) (hkey : value key = none) {a : Value}
    (ha : a ∈ keys) : ¬a.same key = true := by
  intro hsame
  have hpresent := (h.valued key).2 ⟨a, ha, hsame⟩
  rw [hkey] at hpresent
  cases hpresent

/-- Keys that are the same as one that has no value have none either. -/
theorem absent_of_same (h : KeysOf value keys) (hkey : value key = none) {k : Value}
    (hsame : key.same k = true) : value k = none := by
  by_contra hne
  obtain ⟨a, ha, hak⟩ := (h.valued k).1 (Option.isSome_iff_ne_none.2 hne)
  exact h.not_same_of_absent hkey ha (Value.same_trans hak (Value.same_symm hsame))

end KeysOf

/-- After any calls the keys are all different, and they are those that have values. -/
theorem keysOf_calls (calls : List MapCall) : KeysOf (valueAfter calls) (keysAfter calls) := by
  -- On the calls, the last of which comes first.
  induction calls with
  | nil => exact ⟨.nil, fun k => by simp [valueAfter, keysAfter]⟩
  | cons c earlier ih =>
    cases c with
    | set key value =>
      rw [keysAfter_set]
      split
      · next hkey => exact ih.replace hkey value
      · next hkey => exact ih.add hkey value
    | remove key => exact ih.remove key
    | ask => exact ih

/-- A key came into the map by the call that so many calls were in front of: it had no value there,
and it was not taken out since. -/
def CameIn (calls : List MapCall) (time : Nat) (key : Value) : Prop :=
  ∃ later value earlier, calls = later ++ .set key value :: earlier ∧ earlier.length = time ∧
    valueAfter earlier key = none ∧ ∀ k, .remove k ∈ later → ¬key.same k = true

/-- A key came into the map before another one did. -/
def Before (calls : List MapCall) (a b : Value) : Prop :=
  ∃ s t, CameIn calls s a ∧ CameIn calls t b ∧ s < t

/-- A key stays in the map if the next call does not take it out. -/
theorem CameIn.later {calls : List MapCall} {time : Nat} {key : Value} (h : CameIn calls time key)
    {c : MapCall} (hc : ∀ k, c = .remove k → ¬key.same k = true) :
    CameIn (c :: calls) time key := by
  obtain ⟨later, value, earlier, rfl, htime, hnone, hkept⟩ := h
  refine ⟨c :: later, value, earlier, rfl, htime, hnone, fun k hk => ?_⟩
  obtain hk | hk := List.mem_cons.1 hk
  · exact hc k hk.symm
  · exact hkept k hk

/-- A key came in by one of the calls. -/
theorem CameIn.lt_length {calls : List MapCall} {time : Nat} {key : Value}
    (h : CameIn calls time key) : time < calls.length := by
  obtain ⟨later, value, earlier, rfl, rfl, -⟩ := h
  simp only [List.length_append, List.length_cons]
  omega

/-- A key that came in has a value. -/
theorem CameIn.valued {calls : List MapCall} {time : Nat} {key : Value} (h : CameIn calls time key)
    (hself : key.same key = true) : (valueAfter calls key).isSome := by
  obtain ⟨later, value, earlier, rfl, -, -, hkept⟩ := h
  -- On the calls behind the one that the key came in by.
  induction later with
  | nil => rw [List.nil_append, valueAfter_set, if_pos hself, Option.isSome_some]
  | cons c later ih =>
    have hrest := ih fun k hk => hkept k (List.mem_cons_of_mem c hk)
    cases c with
    | set k v =>
      rw [List.cons_append, valueAfter_set]
      split
      · rfl
      · exact hrest
    | remove k =>
      have hne : ¬k.same key = true := fun hsame =>
        hkept k List.mem_cons_self (Value.same_symm hsame)
      rw [List.cons_append, valueAfter_remove, if_neg hne]
      exact hrest
    | ask => exact hrest

/-- A key had come in by the time of a later call. -/
theorem CameIn.earlier {later calls : List MapCall} {time : Nat} {key : Value}
    (h : CameIn (later ++ calls) time key) (hlt : time < calls.length) :
    CameIn calls time key := by
  obtain ⟨later', value, earlier, he, rfl, hnone, hkept⟩ := h
  obtain ⟨between, rfl, rfl⟩ | ⟨between, rfl, hcalls⟩ := List.append_eq_append_iff.1 he
  · exact ⟨between, value, earlier, rfl, rfl, hnone, fun k hk =>
      hkept k (List.mem_append_right _ hk)⟩
  · have hlength := congrArg List.length hcalls
    simp only [List.length_cons, List.length_append] at hlength
    obtain rfl : between = [] := List.length_eq_zero_iff.1 (by omega)
    exact ⟨[], value, earlier, hcalls.symm, rfl, hnone, nofun⟩

/-- A key came in once since it was not there. -/
theorem CameIn.unique {calls : List MapCall} {s t : Nat} {key : Value} (hs : CameIn calls s key)
    (ht : CameIn calls t key) (hself : key.same key = true) : s = t := by
  -- A key that came in before has a value when it is to come in again.
  have hle : ∀ {s t}, CameIn calls s key → CameIn calls t key → t ≤ s := by
    intro s t hs ht
    obtain ⟨later, value, earlier, rfl, rfl, hnone, -⟩ := ht
    refine Nat.le_of_not_lt fun hlt => ?_
    rw [List.append_cons] at hs
    have hvalued := (hs.earlier hlt).valued hself
    rw [hnone] at hvalued
    cases hvalued
  exact Nat.le_antisymm (hle ht hs) (hle hs ht)

/-- Every key came in at some time, and the keys are in the order of these times. -/
theorem keysAfter_ordered (calls : List MapCall) :
    (∀ key ∈ keysAfter calls, ∃ time, CameIn calls time key) ∧
      (keysAfter calls).Pairwise (Before calls) := by
  induction calls with
  | nil => exact ⟨List.forall_mem_nil _, .nil⟩
  | cons c earlier ih =>
    obtain ⟨hcame, hordered⟩ := ih
    -- What is left of the keys keeps its times.
    have hkept : ∀ keys : List Value, keys.Sublist (keysAfter earlier) →
        (∀ key ∈ keys, ∀ k, c = .remove k → ¬key.same k = true) →
        (∀ key ∈ keys, ∃ time, CameIn (c :: earlier) time key) ∧
          keys.Pairwise (Before (c :: earlier)) := by
      intro keys hsub hc
      refine ⟨fun key hkey => ?_, ?_⟩
      · obtain ⟨time, htime⟩ := hcame key (hsub.subset hkey)
        exact ⟨time, htime.later (hc key hkey)⟩
      · refine (hordered.sublist hsub).imp_of_mem fun {a b} ha hb hab => ?_
        obtain ⟨s, t, hs, ht, hlt⟩ := hab
        exact ⟨s, t, hs.later (hc a ha), ht.later (hc b hb), hlt⟩
    cases c with
    | set key value =>
      obtain ⟨hbefore, hpairs⟩ := hkept _ (List.Sublist.refl _) nofun
      rw [keysAfter_set]
      split
      · exact ⟨hbefore, hpairs⟩
      · next hnone =>
        have hnew : CameIn (.set key value :: earlier) earlier.length key :=
          ⟨[], value, earlier, rfl, rfl, by simpa using hnone, nofun⟩
        refine ⟨fun k hk => ?_, List.pairwise_append.2 ⟨hpairs, List.pairwise_singleton .., ?_⟩⟩
        · obtain hk | hk := List.mem_append.1 hk
          · exact hbefore k hk
          · cases List.mem_singleton.1 hk
            exact ⟨_, hnew⟩
        · intro a ha b hb
          cases List.mem_singleton.1 hb
          obtain ⟨time, htime⟩ := hcame a ha
          exact ⟨time, _, htime.later nofun, hnew, htime.lt_length⟩
    | remove key =>
      refine hkept _ List.eraseP_sublist fun k hk k' he => ?_
      cases he
      exact (keysOf_calls earlier).not_same_of_mem_eraseP hk
    | ask => exact hkept _ (List.Sublist.refl _) nofun

/-! ### The map in the store -/

namespace Store

variable {s t : Store} {place : Nat} {calls : List MapCall}

/-- A new list has its items. -/
theorem items_newList (s : Store) (items : List Value) :
    (s.newList items).1.blocks.items ((s.newList items).1.list s.lists.size) = items := by
  have hlist : (s.newList items).1.list s.lists.size = (s.blocks.push items).2 := by
    simp [list, newList]
  rw [hlist]
  exact Blocks.items_push s.blocks items

/-- A change that leaves a map alone. -/
def Change.Spares (place : Nat) (c : Change) : Prop :=
  (∀ key value, c ≠ .mapSet place key value) ∧ ∀ key, c ≠ .mapRemove place key

/-- A new list leaves the map alone. -/
theorem Change.Spares.newList (items : List Value) : Spares place (.newList items) :=
  ⟨nofun, nofun⟩

/-- So does whatever is not in lists and maps. -/
theorem Change.Spares.outside (other : Store) : Spares place (.outside other) := ⟨nofun, nofun⟩

/-- A change that spares a map leaves it and its keys as they are. -/
theorem Tidy.spared (hs : s.Tidy) (hplace : place < s.maps.size) {c : Change}
    (hc : c.Spares place) :
    (s.change c).maps[place]? = s.maps[place]? ∧
      (s.change c).mapKeys place = s.mapKeys place := by
  -- It is enough that the map and its block are the same; the keys are read from these.
  suffices hmap : (s.change c).maps[place]? = s.maps[place]? ∧
      (s.change c).blocks[(s.map place).keys.block]? = s.blocks[(s.map place).keys.block]? by
    have hsome : s.maps[place]? = some (s.map place) := by simp [map, hplace]
    refine ⟨hmap.1, ?_⟩
    unfold mapKeys
    rw [map_of_some (hmap.1.trans hsome)]
    exact Blocks.items_eq_of_block hmap.2
  cases hh : c.holder? s with
  | none =>
    obtain ⟨hblocks, -, hmaps⟩ := change_outside hh
    rw [hblocks, hmaps]
    exact ⟨rfl, rfl⟩
  | some h =>
    -- The change is one of another list or map, since it spares this one.
    have hne : .map place ≠ h := by
      rintro rfl
      cases c with
      | newMap =>
        cases hh
        exact Nat.lt_irrefl _ hplace
      | mapSet _ key value => cases hh; exact hc.1 key value rfl
      | mapRemove _ key => cases hh; exact hc.2 key rfl
      | _ => cases hh
    exact ⟨(hs.moves hh).maps place hne, (hs.moves hh).block_eq hs hne (window?_map hplace)⟩

/-- A map is what some calls on a new map make of it. -/
structure Replays (place : Nat) (calls : List MapCall) (s : Store) : Prop where
  /-- Changes have made the store. -/
  made : s.Made
  /-- The map is at hand. -/
  placed : place < s.maps.size
  /-- Its keys are those that the calls make. -/
  keys : s.mapKeys place = keysAfter calls
  /-- The table has the values that the calls make. -/
  value : ∀ k, s.mapGet? place k = valueAfter calls k
  /-- No key is in the table twice. -/
  distinct : (s.map place).entries.Pairwise fun a b => ¬a.1.same b.1 = true
  /-- Every key in the table was given a value. -/
  given : ∀ e ∈ (s.map place).entries, ∃ value, .set e.1 value ∈ calls

namespace Replays

/-- A map is what it was if only other things have changed. -/
theorem of_leads (h : s.Replays place calls) (hl : s.Leads (Change.Spares place) t) :
    t.Replays place calls := by
  -- Along the changes the store stays tidy, which keeps the keys of the map out of their reach.
  have hsame := hl.keeps (P := fun u => u.Tidy ∧ u.maps[place]? = s.maps[place]? ∧
    u.mapKeys place = s.mapKeys place) ⟨h.made.tidy, rfl, rfl⟩ fun u c hc ⟨hu, hmap, hkeys⟩ => by
      have hplace : place < u.maps.size := by
        have hsome : u.maps[place]?.isSome := by simp [hmap, h.placed]
        simpa using hsome
      obtain ⟨hmap', hkeys'⟩ := hu.spared hplace hc
      exact ⟨hu.change c, hmap'.trans hmap, hkeys'.trans hkeys⟩
  obtain ⟨-, hmap, hkeys⟩ := hsame
  have hsome : t.maps[place]? = some (s.map place) := by
    rw [hmap]
    simp [map, h.placed]
  have hto : t.map place = s.map place := map_of_some hsome
  refine ⟨h.made.evolves (hl.mono fun _ _ => trivial), (Array.getElem?_eq_some_iff.1 hsome).1,
    hkeys.trans h.keys, fun k => ?_, hto ▸ h.distinct, hto ▸ h.given⟩
  unfold mapGet?
  rw [hto]
  exact h.value k

/-- More calls that neither give a key a value nor take one out that there is. -/
theorem of_calls {calls' : List MapCall} (h : s.Replays place calls)
    (hkeys : keysAfter calls' = keysAfter calls) (hvalue : valueAfter calls' = valueAfter calls)
    (hsub : calls ⊆ calls') : s.Replays place calls' where
  made := h.made
  placed := h.placed
  keys := h.keys.trans hkeys.symm
  value k := (h.value k).trans (congrFun hvalue.symm k)
  distinct := h.distinct
  given e he := by
    obtain ⟨value, hv⟩ := h.given e he
    exact ⟨value, hsub hv⟩

/-- Another object takes the place of the map. -/
theorem of_object {o : MapObject} {bs : Blocks} (hplace : place < s.maps.size)
    (hmade : Made { s with blocks := bs, maps := s.maps.set! place o })
    (hkeys : bs.items o.keys = keysAfter calls) (hvalue : ∀ k, o.get? k = valueAfter calls k)
    (hdistinct : o.entries.Pairwise fun a b => ¬a.1.same b.1 = true)
    (hgiven : ∀ e ∈ o.entries, ∃ value, .set e.1 value ∈ calls) :
    Replays place calls { s with blocks := bs, maps := s.maps.set! place o } := by
  have hmap : map { s with blocks := bs, maps := s.maps.set! place o } place = o := by
    simp [map, hplace]
  refine ⟨hmade, by simpa using hplace, ?_, fun k => ?_, ?_, ?_⟩
  · unfold mapKeys
    rw [hmap]
    exact hkeys
  · unfold mapGet?
    rw [hmap]
    exact hvalue k
  · rw [hmap]
    exact hdistinct
  · rw [hmap]
    exact hgiven

/-- A key gets a value. -/
theorem mapSet (h : s.Replays place calls) (key value : Value) :
    (s.mapSet place key value).Replays place (.set key value :: calls) := by
  have hmade : (s.mapSet place key value).Made :=
    h.made.evolves (.of_change s (.mapSet place key value))
  have hvalue : ∀ k, MapObject.get? { s.map place with
      entries := (s.map place).put key value } k = valueAfter (.set key value :: calls) k := by
    intro k
    rw [MapObject.get?_put, valueAfter_set, ← h.value k]
    rfl
  have hdistinct : ((s.map place).put key value).Pairwise fun a b => ¬a.1.same b.1 = true := by
    refine List.pairwise_cons.2 ⟨fun e he hsame => ?_, h.distinct.sublist List.filter_sublist⟩
    have hne : ¬e.1.same key = true := by simpa using (List.mem_filter.1 he).2
    exact hne (Value.same_symm hsame)
  have hgiven : ∀ e ∈ (s.map place).put key value,
      ∃ v, .set e.1 v ∈ MapCall.set key value :: calls := by
    refine List.forall_mem_cons.2 ⟨⟨value, List.mem_cons_self⟩, fun e he => ?_⟩
    obtain ⟨v, hv⟩ := h.given e (List.mem_of_mem_filter he)
    exact ⟨v, List.mem_cons_of_mem _ hv⟩
  have hpresent : ((s.map place).get? key).isSome = (valueAfter calls key).isSome :=
    congrArg Option.isSome (h.value key)
  unfold Store.mapSet at hmade ⊢
  dsimp only at hmade ⊢
  split at hmade
  · -- The key had a value, and keeps its place.
    next hkey =>
    rw [if_pos hkey]
    refine of_object h.placed hmade ?_ hvalue hdistinct hgiven
    rw [keysAfter_set, if_pos (hpresent ▸ hkey)]
    exact h.keys
  · -- The key had none, and goes behind the others.
    next hkey =>
    rw [if_neg hkey]
    refine of_object h.placed hmade ?_ hvalue hdistinct hgiven
    rw [keysAfter_set, if_neg (hpresent ▸ hkey), ← h.keys]
    exact Blocks.items_add (h.made.tidy.filled_window (.map place)) key

/-- A key is taken out. -/
theorem mapRemove (h : s.Replays place calls) (key : Value) :
    (s.mapRemove place key).Replays place (.remove key :: calls) := by
  have hmade : (s.mapRemove place key).Made :=
    h.made.evolves (.of_change s (.mapRemove place key))
  have hvalue : ∀ k, MapObject.get? { s.map place with
      entries := (s.map place).drop key } k = valueAfter (.remove key :: calls) k := by
    intro k
    rw [MapObject.get?_drop, valueAfter_remove, ← h.value k]
    rfl
  have hdistinct := h.distinct.sublist (List.filter_sublist (p := (!·.1.same key)))
  have hgiven : ∀ e ∈ (s.map place).drop key, ∃ v, .set e.1 v ∈ MapCall.remove key :: calls := by
    intro e he
    obtain ⟨v, hv⟩ := h.given e (List.mem_of_mem_filter he)
    exact ⟨v, List.mem_cons_of_mem _ hv⟩
  -- Replaying the call erases the first key that is the same.
  have hkeys : keysAfter (.remove key :: calls) = (s.mapKeys place).eraseP (·.same key) := by
    rw [h.keys]
    rfl
  rw [List.eraseP_eq_eraseIdx] at hkeys
  unfold Store.mapRemove at hmade ⊢
  dsimp only at hmade ⊢
  cases hi : (s.mapKeys place).findIdx? (·.same key) with
  | none =>
    rw [hi] at hmade hkeys
    exact of_object h.placed hmade hkeys.symm hvalue hdistinct hgiven
  | some i =>
    rw [hi] at hmade hkeys
    refine of_object h.placed hmade (Eq.trans ?_ hkeys.symm) hvalue hdistinct hgiven
    have hfilled := h.made.tidy.filled_window (.map place)
    obtain ⟨hlt, -⟩ := List.findIdx?_eq_some_iff_getElem.1 hi
    exact Blocks.items_remove hfilled (hfilled.length_items ▸ hlt)

/-- A key that has no value is taken out. -/
theorem remove_absent (h : s.Replays place calls) {key : Value}
    (hkey : valueAfter calls key = none) : s.Replays place (.remove key :: calls) := by
  have hkeysOf := keysOf_calls calls
  refine h.of_calls ?_ (funext fun k => ?_) (List.subset_cons_self ..)
  · exact List.eraseP_of_forall_not fun a ha => hkeysOf.not_same_of_absent hkey ha
  · rw [valueAfter_remove]
    split
    · next hsame => exact (hkeysOf.absent_of_same hkey hsame).symm
    · rfl

/-- A new map. -/
theorem newMap (hs : s.Made) : s.newMap.1.Replays s.maps.size [] := by
  have hmade : s.newMap.1.Made := hs.evolves (.of_change s .newMap)
  -- The new map is behind the old ones, and its block of keys is new and empty.
  have hmap : s.newMap.1.map s.maps.size = { keys := (s.blocks.push []).2 } := by
    refine map_of_some ?_
    exact Array.getElem?_push_size
  refine ⟨hmade, ?_, ?_, fun k => ?_, ?_, ?_⟩
  · show s.maps.size < (s.maps.push _).size
    simp
  · unfold mapKeys
    rw [hmap]
    exact Blocks.items_push s.blocks []
  · unfold mapGet?
    rw [hmap]
    rfl
  · rw [hmap]
    exact .nil
  · rw [hmap]
    exact List.forall_mem_nil _

end Replays

end Store

/-! ### Histories of a map -/

namespace Engine

variable (eng : Engine) (place : Nat) (m : Machine)

/-- The value of a key that the map has is the reply; there is no other reply. -/
theorem run_mapGet (key : Value) :
    eng.run .mapGet (.map place) [key] m =
      match m.store.mapGet? place key with
      | some value => .ok value m
      | none => .error (.raised (.keyNotFound key.describe)) m := by
  have hread : Exec.read (·.mapGet? place key) m = .ok (m.store.mapGet? place key) m := rfl
  change (Exec.read (·.mapGet? place key) >>= _) m = _
  rw [Exec.bind_apply, hread]
  dsimp only
  cases m.store.mapGet? place key <;> rfl

/-- A key that the map has is taken out, with its value as the reply. -/
theorem run_mapRemove (key : Value) :
    eng.run .mapRemove (.map place) [key] m =
      match m.store.mapGet? place key with
      | some value => .ok value { m with store := m.store.mapRemove place key }
      | none => .error (.raised (.keyNotFound key.describe)) m := by
  have hread : Exec.read (·.mapGet? place key) m = .ok (m.store.mapGet? place key) m := rfl
  change (Exec.read (·.mapGet? place key) >>= _) m = _
  rw [Exec.bind_apply, hread]
  dsimp only
  cases m.store.mapGet? place key <;> rfl

/-- The keys of the map are the reply, as a new list. -/
theorem run_mapKeys :
    eng.run .mapKeys (.map place) [] m = .ok (.list m.store.lists.size)
      { m with store := (m.store.newList (m.store.mapKeys place)).1 } := rfl

/-- An iterator over the map has all keys in front of it. -/
theorem run_mapIterate :
    eng.run .mapIterate (.map place) [] m = .ok (.iterator m.store.iterators.size)
      { m with store := (m.store.newIterator (.entries place (m.store.mapKeys place))).1 } := rfl

end Engine

/-- What a question asks of a map, or of an iterator. -/
def MapQuestion.run (eng : Engine) (place : Nat) : MapQuestion → Exec Value
  | .get key => eng.run .mapGet (.map place) [key]
  | .has key => eng.run .mapHas (.map place) [key]
  | .length => eng.run .mapLength (.map place) []
  | .keys => eng.run .mapKeys (.map place) []
  | .iterate => eng.run .mapIterate (.map place) []
  | .next i => eng.run .iteratorNext (.iterator i) []

/-- What a call does. -/
def MapCall.run (eng : Engine) (place : Nat) : MapCall → Exec Value
  | .set key value => eng.run .mapSet (.map place) [key, value]
  | .remove key => eng.run .mapRemove (.map place) [key]
  | .ask question => question.run eng place

/-- Calls on a new map, the latest first, lead to a machine. In between anything may happen that
leaves the map alone. -/
inductive MapHistory (eng : Engine) (place : Nat) : List MapCall → Machine → Prop where
  /-- The map is made. -/
  | start {m m' : Machine} (made : m.store.Made)
    (h : Engine.construct .map [] m = .ok (.map place) m') : MapHistory eng place [] m'
  /-- A call, whether it fails or not. -/
  | call {calls : List MapCall} {m : Machine} (h : MapHistory eng place calls m) (c : MapCall) :
    MapHistory eng place (c :: calls) (Exec.final (c.run eng place) m)
  /-- Something else happens. -/
  | other {calls : List MapCall} {m m' : Machine} (h : MapHistory eng place calls m)
    (spared : m.store.Leads (Change.Spares place) m'.store) : MapHistory eng place calls m'

/-- A question leaves the map alone. -/
theorem MapQuestion.changes (eng : Engine) (place : Nat) (q : MapQuestion) :
    Exec.Changes (Change.Spares place) (q.run eng place) := by
  cases q with
  | get key =>
    refine .bind (.read _) fun value => ?_
    split
    · exact .pure _
    · exact .raise _
  | has key => exact .bind (.read _) fun _ => .pure _
  | length => exact .bind (.read _) fun _ => .pure _
  | keys =>
    -- The keys are answered as a new list.
    refine .bind (.read _) fun keys => .bind (.allocate fun s => ?_) fun _ => .pure _
    exact ⟨.newList keys, .newList keys, rfl⟩
  | iterate =>
    refine .bind (.read _) fun keys => .bind (.allocate fun s => ?_) fun _ => .pure _
    exact ⟨.outside (s.newIterator (.entries place keys)).1, .outside _, rfl⟩
  | next i =>
    -- The iterator moves, and the map stays.
    refine ⟨fun m => ?_⟩
    have hmove : ∀ c made, m.store.Leads (Change.Spares place) (m.store.moveIterator i c made) :=
      fun c made => .change .refl (Change.Spares.outside (m.store.moveIterator i c made))
    change m.store.Leads _ (Exec.final (eng.run .iteratorNext (.iterator i) []) m).store
    unfold Exec.final
    rw [eng.run_iteratorNext]
    cases m.store.advance (m.store.cursor i) <;> exact hmove _ _

/-- Whatever calls lead to a machine, the map is what they make of it. -/
theorem MapHistory.replays {eng : Engine} {place : Nat} {calls : List MapCall} {m : Machine}
    (h : MapHistory eng place calls m) : m.store.Replays place calls := by
  induction h with
  | start made h =>
    cases h
    exact .newMap made
  | @call calls m _ c ih =>
    cases c with
    | set key value => exact ih.mapSet key value
    | remove key =>
      -- The call fails where the key has no value, and then there was nothing to take out.
      have hvalue := ih.value key
      change (Exec.final (eng.run .mapRemove (.map place) [key]) m).store.Replays place _
      unfold Exec.final
      rw [eng.run_mapRemove]
      cases hget : m.store.mapGet? place key with
      | some value => exact ih.mapRemove key
      | none => exact ih.remove_absent (hvalue.symm.trans hget)
    | ask q =>
      exact (ih.of_leads ((q.changes eng place).leads m)).of_calls rfl rfl
        (List.subset_cons_self ..)
  | other _ spared ih => exact ih.of_leads spared

/-! ### Iterators over a map -/

namespace Store

variable {s : Store} {place : Nat} {keys : List Value}

/-- No key is found if the map has lost all of them. -/
theorem lost_of_presentKey? (h : s.presentKey? place keys = none) :
    ∀ k ∈ keys, s.mapGet? place k = none := by
  induction keys with
  | nil => exact List.forall_mem_nil _
  | cons key rest ih =>
    unfold presentKey? at h
    split at h
    · cases h
    · next hkey => exact List.forall_mem_cons.2 ⟨hkey, ih h⟩

/-- The key that is found has its value, and the map has lost those in front of it. -/
theorem present_of_presentKey? {key value : Value} {rest : List Value}
    (h : s.presentKey? place keys = some (key, value, rest)) :
    ∃ lost, keys = lost ++ key :: rest ∧ (∀ k ∈ lost, s.mapGet? place k = none) ∧
      s.mapGet? place key = some value := by
  -- On the keys; those that have lost their values are passed over.
  induction keys with
  | nil => cases h
  | cons k keys ih =>
    unfold presentKey? at h
    split at h
    · next hvalue =>
      cases h
      exact ⟨[], rfl, List.forall_mem_nil _, hvalue⟩
    · next hk =>
      obtain ⟨lost, rfl, hlost, hvalue⟩ := ih h
      exact ⟨k :: lost, rfl, List.forall_mem_cons.2 ⟨hk, hlost⟩, hvalue⟩

end Store

/-- The replies of an iterator that has some keys of a map in front of it: the first of them that
the map has when the turn comes, with the value that it has then, and so on with those behind it;
and the end where the map has lost all that are left. -/
inductive EntryWalk (place : Nat) : List Value → List (Machine × Value) → Prop where
  /-- The iterator is not asked any more. -/
  | nil (keys : List Value) : EntryWalk place keys []
  /-- The map has lost some keys, but not the next one. -/
  | entry {lost keys : List Value} {key value : Value} {m : Machine}
    {turns : List (Machine × Value)} (id pair : ObjectId)
    (skipped : ∀ k ∈ lost, m.store.mapGet? place k = none)
    (present : m.store.mapGet? place key = some value) (rest : EntryWalk place keys turns) :
    EntryWalk place (lost ++ key :: keys)
      ((m, .iteratorResult id (.pair pair key value) false) :: turns)
  /-- The map has lost all keys that are left. -/
  | ended {keys : List Value} {m : Machine} {turns : List (Machine × Value)} (id : ObjectId)
    (skipped : ∀ k ∈ keys, m.store.mapGet? place k = none)
    (rest : ∀ t ∈ turns, ∃ id, t.2 = .iteratorResult id .nil true) :
    EntryWalk place keys ((m, .iteratorResult id .nil true) :: turns)

/-- An iterator that has keys in front of it goes through them, whatever happens in between. -/
theorem Asked.entryWalk {eng : Engine} {i : Nat} {m : Machine} {turns : List (Machine × Value)}
    (h : Asked eng i m turns) {place : Nat} {keys : List Value}
    (hcursor : m.store.cursor i = .entries place keys) : EntryWalk place keys turns := by
  induction h generalizing keys with
  | done => exact .nil keys
  | @next m m' v turns hrun rest ih =>
    rw [eng.run_iteratorNext, hcursor, Store.advance] at hrun
    -- What is found in front of the cursor decides on the reply and on where the cursor goes.
    cases hpresent : m.store.presentKey? place keys with
    | none =>
      rw [hpresent] at hrun
      cases hrun
      have hdone := m.store.cursor_moveIterator_done i 1
      exact .ended _ (Store.lost_of_presentKey? hpresent) (rest.ended hdone)
    | some found =>
      obtain ⟨key, value, behind⟩ := found
      rw [hpresent] at hrun
      cases hrun
      have hne : m.store.cursor i ≠ .done := by simp [hcursor]
      obtain ⟨lost, rfl, hlost, hvalue⟩ := Store.present_of_presentKey? hpresent
      exact .entry _ _ hlost hvalue (ih (Store.cursor_moveIterator hne _ 2))
  | other _ hsame _ ih => exact ih (hsame.trans hcursor)

/-- The key that a reply of an iterator over a map carries. -/
def Value.entryKey? : Value → Option Value
  | .iteratorResult _ (.pair _ key _) false => some key
  | _ => none

/-- The keys that the replies of some turns carry. -/
def yielded (turns : List (Machine × Value)) : List Value := turns.filterMap (·.2.entryKey?)

/-- An iterator carries keys that were in front of it, in their order. -/
theorem EntryWalk.yielded_sublist {place : Nat} {keys : List Value}
    {turns : List (Machine × Value)} (h : EntryWalk place keys turns) :
    (yielded turns).Sublist keys := by
  induction h with
  | nil => exact List.nil_sublist _
  | @entry lost keys key _ _ _ _ _ _ _ _ ih =>
    exact (ih.cons_cons key).trans (List.sublist_append_right lost _)
  | @ended keys _ turns _ _ rest =>
    -- An iterator that has ended carries nothing any more.
    have hnone : yielded turns = [] := by
      refine List.filterMap_eq_nil_iff.2 fun t ht => ?_
      obtain ⟨id, he⟩ := rest t ht
      rw [he]
      rfl
    change (yielded turns).Sublist keys
    exact hnone ▸ List.nil_sublist keys

/-! ### What maps are -/

/-- A map is what some calls make of it: its keys go with its table of values, and the replies about
it are those that the calls lead to. -/
structure MapInStep (eng : Engine) (place : Nat) (calls : List MapCall) (m : Machine) : Prop where
  /-- No key is there twice. -/
  distinct : (m.store.mapKeys place).Pairwise fun a b => ¬a.same b = true
  /-- No key is in the table twice. -/
  table_distinct : (m.store.map place).entries.Pairwise fun a b => ¬a.1.same b.1 = true
  /-- Every key is in the table. -/
  valued : ∀ a ∈ m.store.mapKeys place, ∃ e ∈ (m.store.map place).entries, e.1.same a = true
  /-- The table has nothing but the keys. -/
  keyed : ∀ e ∈ (m.store.map place).entries, ∃ a ∈ m.store.mapKeys place, a.same e.1 = true
  /-- Every key came in at one time. -/
  came : ∀ a ∈ m.store.mapKeys place, ∃! time, CameIn calls time a
  /-- The keys are in the order of these times. -/
  ordered : (m.store.mapKeys place).Pairwise (Before calls)
  /-- The number of keys. -/
  length : eng.run .mapLength (.map place) [] m =
    .ok (.int (Int64.ofNat (keysAfter calls).length)) m
  /-- The list of keys. -/
  keys : ∃ l m', eng.run .mapKeys (.map place) [] m = .ok (.list l) m' ∧
    m'.store.blocks.items (m'.store.list l) = keysAfter calls
  /-- Whether a key has a value. -/
  has : ∀ key, eng.run .mapHas (.map place) [key] m =
    .ok (.bool (valueAfter calls key).isSome) m
  /-- The value of a key. -/
  get : ∀ key, eng.run .mapGet (.map place) [key] m =
    match valueAfter calls key with
    | some value => .ok value m
    | none => .error (.raised (.keyNotFound key.describe)) m

/-- A map that is what some calls make of it goes with its table, if every key that it was given is
the same as itself. -/
theorem Store.Replays.mapInStep {place : Nat} {calls : List MapCall} {m : Machine}
    (h : m.store.Replays place calls) (eng : Engine)
    (hself : ∀ key value, .set key value ∈ calls → key.same key = true) :
    MapInStep eng place calls m := by
  obtain ⟨hdistinct, hvalued⟩ := keysOf_calls calls
  obtain ⟨hcame, hordered⟩ := keysAfter_ordered calls
  -- A key that is there came in by a call, and is the same as itself like all keys of calls.
  have hkeys : ∀ {a}, a ∈ m.store.mapKeys place → a.same a = true := by
    intro a ha
    obtain ⟨time, later, value, earlier, he, -⟩ := hcame a (h.keys ▸ ha)
    exact hself a value (by simp [he])
  have hlength : (m.store.map place).keys.length = (keysAfter calls).length :=
    h.keys ▸ (h.made.tidy.filled_window (.map place)).length_items.symm
  refine ⟨h.keys ▸ hdistinct, h.distinct, fun a ha => ?_, fun e he => ?_, fun a ha => ?_,
    h.keys ▸ hordered, ?_, ⟨_, _, eng.run_mapKeys place m, ?_⟩, fun key => ?_, fun key => ?_⟩
  · have hsome := (hvalued a).2 ⟨a, h.keys ▸ ha, hkeys ha⟩
    rw [← h.value] at hsome
    exact MapObject.get?_isSome_iff.1 hsome
  · obtain ⟨value, hset⟩ := h.given e he
    have hsome : (m.store.mapGet? place e.1).isSome :=
      MapObject.get?_isSome_iff.2 ⟨e, he, hself e.1 value hset⟩
    rw [h.value] at hsome
    exact h.keys ▸ (hvalued e.1).1 hsome
  · obtain ⟨time, htime⟩ := hcame a (h.keys ▸ ha)
    exact ⟨time, htime, fun t ht => ht.unique htime (hkeys ha)⟩
  · rw [← hlength]
    rfl
  · exact (m.store.items_newList _).trans h.keys
  · rw [← h.value]
    rfl
  · rw [← h.value]
    exact eng.run_mapGet place m key

/-- A map keeps its keys and its table of values in step. After any calls, on a new map, that give
values only to keys that are the same as themselves, it is what the calls make of it. An iterator
over it goes through the keys that it has at that time, whatever happens to the map in between, and
ends for good. -/
theorem maps_keep_in_step {eng : Engine} {place : Nat} {calls : List MapCall} {m : Machine}
    (h : MapHistory eng place calls m)
    (hkeys : ∀ key value, .set key value ∈ calls →
      ¬key.IsNaN ∧ ∀ cs, key ≠ .superclasses cs) :
    MapInStep eng place calls m ∧
      ∃ i m₁, eng.run .mapIterate (.map place) [] m = .ok (.iterator i) m₁ ∧
        (∀ m', ∃ v m'', eng.run .iteratorNext (.iterator i) [] m' = .ok v m'') ∧
        ∀ turns, Asked eng i m₁ turns →
          EntryWalk place (keysAfter calls) turns ∧ (yielded turns).Sublist (keysAfter calls) := by
  have hself : ∀ key value, .set key value ∈ calls → key.same key = true := fun key value hset =>
    Value.same_self_iff.2 (hkeys key value hset)
  refine ⟨h.replays.mapInStep eng hself, _, _, eng.run_mapIterate place m,
    eng.exists_iteratorNext _, fun turns hasked => ?_⟩
  have hcursor : (m.store.newIterator (.entries place (m.store.mapKeys place))).1.cursor
      m.store.iterators.size = .entries place (keysAfter calls) := by
    rw [h.replays.keys]
    simp [Store.cursor, Store.newIterator]
  have hwalk := hasked.entryWalk hcursor
  exact ⟨hwalk, hwalk.yielded_sublist⟩

/-- The first of three keys is taken out and comes back behind the others. While an iterator goes
through the map, the second one goes, the last one gets another value, and a fourth key comes in. -/
theorem maps_keep_in_step_returning :
    let eng := engine 0
    let set (key value : Int64) : MapCall := .set (.int key) (.int value)
    let calls := [set 1 12, .remove (.int 1), set 3 30, set 2 20, set 1 10]
    ∃ m, MapHistory eng 0 calls m ∧ MapInStep eng 0 calls m ∧
      ∃ i m₁, eng.run .mapIterate (.map 0) [] m = .ok (.iterator i) m₁ ∧
        ∃ turns, Asked eng i m₁ turns ∧ EntryWalk 0 (keysAfter calls) turns ∧
          turns.map (·.2.isEnd) = [false, false, true, true] ∧
          (yielded turns).map Value.describe = ["2", "1"] := by
  intro eng set calls
  -- No key is a not-a-number, and none is a value for superclasses.
  have hkeys : ∀ key value, .set key value ∈ calls →
      ¬key.IsNaN ∧ ∀ cs, key ≠ .superclasses cs := by
    intro key value h
    simp only [calls, set, List.mem_cons, MapCall.set.injEq, reduceCtorEq, List.not_mem_nil,
      or_false, false_or] at h
    rcases h with ⟨rfl, -⟩ | ⟨rfl, -⟩ | ⟨rfl, -⟩ | ⟨rfl, -⟩ <;>
      exact Value.same_self_iff.1 (by decide)
  have hstart : MapHistory eng 0 []
      (Exec.final (Engine.construct .map []) Machine.initial) :=
    .start Machine.made_initial rfl
  have h := ((((hstart.call (set 1 10)).call (set 2 20)).call (set 3 30)).call
    (.remove (.int 1))).call (set 1 12)
  obtain ⟨hstep, i, m₁, hrun, -, hwalks⟩ := maps_keep_in_step h hkeys
  let put (key value : Int64) := eng.run .mapSet (.map 0) [.int key, .int value]
  let steps := [none, some (eng.run .mapRemove (.map 0) [.int 3]), some (put 1 13), none,
    some (put 4 40), none, none]
  -- The steps in between change maps only.
  have hsteps : ∀ x, some x ∈ steps → Exec.Changes Change.Inside x := by
    intro x hx
    simp only [steps, List.mem_cons, Option.some.injEq, reduceCtorEq, List.not_mem_nil, or_false,
      false_or] at hx
    obtain rfl | rfl | rfl := hx
    · exact eng.changes_mapRemove ..
    · exact eng.changes_mapSet ..
    · exact eng.changes_mapSet ..
  have hasked := asked_turnsBetween eng i hsteps m₁
  refine ⟨_, h, hstep, i, m₁, hrun, _, hasked, (hwalks _ hasked).1, ?_⟩
  obtain ⟨hi, hm₁⟩ := EStateM.Result.ok.inj (hrun.symm.trans (eng.run_mapIterate ..))
  rw [Value.iterator.inj hi, hm₁]
  exact ⟨by decide +kernel, by decide +kernel⟩

end ClassScript
