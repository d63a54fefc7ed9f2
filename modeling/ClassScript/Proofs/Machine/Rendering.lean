import Mathlib
import ClassScript.Parse.Grammar
import ClassScript.Proofs.Machine.Keys
import ClassScript.Proofs.Machine.Turns

/-!
# Texts of maps

A map is turned into a text key by key. The program is asked for the text of a key, the value of the
key is looked up then, and the program is asked for the text of the value. Meanwhile the program may
change the map. A key is always found in its slot, and the text is finished or the program raises an
error, unless a key has lost its value when it is looked up. Then one of the questions so far has
taken a key out of the map.
-/

namespace ClassScript

open Exec (Restores)

namespace Engine

variable {eng : Engine} {place block n i : Nat} {m m' : Machine} {texts : List String}

/-! ### Turns -/

/-- In the turn of an index, the program is asked on a machine for the text of a value: first for
that of the key in the slot, then for that of the value that the map has for the key. -/
inductive AsksAt (eng : Engine) (place block i : Nat) (m : Machine) :
    Value → Machine → EStateM.Result Interrupt Machine String → Prop where
  /-- The key. -/
  | key {key : Value} (hkey : m.store.blocks.slot? block i = some key)
    {r : EStateM.Result Interrupt Machine String} (hr : eng.stringify key m = r) :
    AsksAt eng place block i m key m r
  /-- The value of the key. -/
  | value {key : Value} (hkey : m.store.blocks.slot? block i = some key) {k : String} {m' : Machine}
    (hk : eng.stringify key m = .ok k m') {value : Value}
    (hvalue : m'.store.mapGet? place key = some value)
    {r : EStateM.Result Interrupt Machine String} (hr : eng.stringify value m' = r) :
    AsksAt eng place block i m value m' r

/-- The turn of an index adds the text of an entry. -/
def RendersAt (eng : Engine) (place block i : Nat) (s t : List String × Machine) : Prop :=
  ∃ key k m value v, s.2.store.blocks.slot? block i = some key ∧ eng.stringify key s.2 = .ok k m ∧
    m.store.mapGet? place key = some value ∧ eng.stringify value m = .ok v t.2 ∧
    t.1 = s.1 ++ [k ++ ": " ++ v]

/-- The text of a map that had a number of keys comes to an index in a machine, after some texts of
entries, and ends there. -/
inductive RenderingEnds (eng : Engine) (place block n i : Nat) (texts : List String) (m : Machine) :
    EStateM.Result Interrupt Machine Value → Prop where
  /-- No index is left. -/
  | whole (hi : i = n) :
    RenderingEnds eng place block n i texts m (.ok (.string ("\x7b" ++ joined texts ++ "\x7d")) m)
  /-- The program raises an error when it is asked for the text of a key or value. -/
  | raised (hi : i < n) {v : Value} {m' m'' : Machine} {e : Interrupt}
    (h : eng.AsksAt place block i m v m' (.error e m'')) :
    RenderingEnds eng place block n i texts m (.error e m'')
  /-- The key has no value when this is looked up. -/
  | missing (hi : i < n) {key : Value} {k : String} {m' : Machine}
    (h : eng.AsksAt place block i m key m (.ok k m'))
    (hkey : m.store.blocks.slot? block i = some key)
    (hnone : m'.store.mapGet? place key = none) :
    RenderingEnds eng place block n i texts m (.error .fault m')

/-- Asking for a text leaves a store that changes have made. -/
theorem evolves_stringify (heng : eng.Restoring) {v : Value} {s : String}
    (h : eng.stringify v m = .ok s m') : m.store.Evolves m'.store :=
  Exec.final_ok h ▸ ((restores_stringify heng v).restored m).store

/-- A machine in which an index has its turn has a store that changes have made. -/
theorem evolves_turns (heng : eng.Restoring)
    (h : Turns (eng.RendersAt place block) ([], m) i (texts, m')) : m.store.Evolves m'.store := by
  refine h.keeps (P := fun _ s => m.store.Evolves s.2.store) .refl ?_
  rintro _ s t - ⟨key, k, m₁, value, v, -, hk, -, hv, -⟩ hs
  exact (hs.trans (evolves_stringify heng hk)).trans (evolves_stringify heng hv)

/-! ### The walk -/

/-- Reading a slot answers what is in it. -/
theorem read_slot {key : Option Value} (h : m.store.blocks.slot? block i = key) :
    Exec.read (·.blocks.slot? block i) m = .ok key m :=
  congrArg (EStateM.Result.ok · m) h

/-- Reading a map answers the value of the key. -/
theorem read_mapGet? {key : Value} {value : Option Value}
    (h : m.store.mapGet? place key = value) : Exec.read (·.mapGet? place key) m = .ok value m :=
  congrArg (EStateM.Result.ok · m) h

/-- The text of a map from an index on, behind some texts of entries. -/
abbrev renderFrom (eng : Engine) (place block count i : Nat) (texts : List String) : Exec Value :=
  (fun rest => .string ("\x7b" ++ joined (texts ++ rest) ++ "\x7d")) <$>
    eng.stringifyEntries place block count i

/-- A question for which the program raises an error ends the walk. -/
theorem renderFrom_raised (count : Nat) {v : Value} {m'' : Machine} {e : Interrupt}
    (h : eng.AsksAt place block i m v m' (.error e m'')) :
    eng.renderFrom place block (count + 1) i texts m = .error e m'' := by
  rw [renderFrom, stringifyEntries]
  simp only [map_eq_pure_bind, Exec.bind_apply]
  cases h with
  | key hkey hk => simp only [read_slot hkey, Exec.bind_apply, hk]
  | value hkey hk hvalue hv =>
    simp only [read_slot hkey, Exec.bind_apply, hk, read_mapGet? hvalue, hv]

/-- A key without a value has no meaning. -/
theorem renderFrom_missing (count : Nat) {key : Value} {k : String}
    (hkey : m.store.blocks.slot? block i = some key) (hk : eng.stringify key m = .ok k m')
    (hnone : m'.store.mapGet? place key = none) :
    eng.renderFrom place block (count + 1) i texts m = .error .fault m' := by
  rw [renderFrom, stringifyEntries]
  simp only [map_eq_pure_bind, Exec.bind_apply, read_slot hkey, hk, read_mapGet? hnone]
  rfl

/-- A turn that adds the text of an entry is followed by the next one. -/
theorem renderFrom_next (count : Nat) {texts' : List String}
    (h : eng.RendersAt place block i (texts, m) (texts', m')) :
    eng.renderFrom place block (count + 1) i texts m =
      eng.renderFrom place block count (i + 1) texts' m' := by
  obtain ⟨key, k, m₁, value, v, hkey, hk, hvalue, hv, rfl⟩ := h
  rw [renderFrom, renderFrom, stringifyEntries]
  simp only [map_eq_pure_bind, Exec.bind_apply, read_slot hkey, hk, read_mapGet? hvalue, hv]
  cases eng.stringifyEntries place block count (i + 1) m' with
  | error e m'' => rfl
  | ok rest m'' => simp [pure, EStateM.pure]

/-- A walk goes on from an index to the index where it ends: every key is found in its slot. -/
theorem exists_renderingEnds (heng : eng.Restoring) (count : Nat) {m₀ : Machine}
    (hm : m₀.store.Tidy) (hslots : n ≤ m₀.store.blocks.written block) (hn : i + count = n)
    (h : Turns (eng.RendersAt place block) ([], m₀) i (texts, m)) :
    ∃ j texts' m₁, Turns (eng.RendersAt place block) ([], m₀) j (texts', m₁) ∧
      eng.RenderingEnds place block n j texts' m₁
        (eng.renderFrom place block count i texts m) := by
  -- On the number of keys that are left.
  induction count generalizing i m texts with
  | zero =>
    have hanswer : eng.renderFrom place block 0 i texts m =
        .ok (.string ("\x7b" ++ joined texts ++ "\x7d")) m := by
      show EStateM.Result.ok (Value.string ("\x7b" ++ joined (texts ++ []) ++ "\x7d")) m = _
      rw [List.append_nil]
    exact ⟨i, texts, m, h, hanswer ▸ .whole hn⟩
  | succ count ih =>
    have hi : i < n := by omega
    -- Slots that were written are never taken back, so the key is there whatever the program did.
    have hwritten : ¬m.store.blocks.written block ≤ i := fun hle =>
      Nat.not_le_of_lt hi
        (Nat.le_trans hslots (Nat.le_trans (hm.written_le (evolves_turns heng h) block) hle))
    obtain ⟨key, hkey⟩ : ∃ key, m.store.blocks.slot? block i = some key :=
      Option.ne_none_iff_exists'.1 fun hnone => hwritten (Blocks.slot?_eq_none_iff.1 hnone)
    cases hk : eng.stringify key m with
    | error e m₁ =>
      have asked := (AsksAt.key hkey hk : eng.AsksAt place block i m key m _)
      exact ⟨i, texts, m, h, renderFrom_raised count asked ▸ .raised hi asked⟩
    | ok k m₁ =>
      cases hvalue : m₁.store.mapGet? place key with
      | none =>
        -- The key was taken out of the map when the program was asked for its text.
        exact ⟨i, texts, m, h, renderFrom_missing count hkey hk hvalue ▸
          .missing hi (.key hkey hk) hkey hvalue⟩
      | some value =>
        cases hv : eng.stringify value m₁ with
        | error e m₂ =>
          have asked := AsksAt.value hkey hk hvalue hv
          exact ⟨i, texts, m, h, renderFrom_raised count asked ▸ .raised hi asked⟩
        | ok v m₂ =>
          -- The entry is rendered, and the next turn starts.
          have turn : eng.RendersAt place block i (texts, m) (texts ++ [k ++ ": " ++ v], m₂) :=
            ⟨key, k, m₁, value, v, hkey, hk, hvalue, hv, rfl⟩
          rw [renderFrom_next count turn]
          exact ih (by omega) (h.next turn)

/-- A question so far has taken a key out of a map: changes of any other kind do not lead from the
machine on which the program was asked to the machine with its answer. -/
def Removed (eng : Engine) (place block i : Nat) (m : Machine) : Prop :=
  ∃ j ≤ i, ∃ texts m₁ v m₂ k m₃, Turns (eng.RendersAt place block) ([], m) j (texts, m₁) ∧
    eng.AsksAt place block j m₁ v m₂ (.ok k m₃) ∧
    ¬m₂.store.Leads (fun c => ∀ key, c ≠ .mapRemove place key) m₃.store

/-- An answer that took no key out of the map leaves the keys held. -/
theorem held_of_asksAt {w : Window} {keys : List Value} {m₀ m₁ m₂ m₃ : Machine} {v : Value}
    {k : String} (hkept : ¬eng.Removed place w.block i m₀)
    (h : Turns (eng.RendersAt place w.block) ([], m₀) i (texts, m₁))
    (ha : eng.AsksAt place w.block i m₁ v m₂ (.ok k m₃)) (hm : m₂.store.Held place w keys) :
    m₃.store.Held place w keys := by
  by_contra hlost
  exact hkept ⟨i, Nat.le_refl i, texts, m₁, v, m₂, k, m₃, h, ha, fun hl => hlost (hm.leads hl)⟩

/-- The keys are held at every index as long as no question has taken a key out of the map. -/
theorem held_of_turns {w : Window} {keys : List Value} {m₀ : Machine}
    (hm : m₀.store.Held place w keys) {s : List String × Machine}
    (h : Turns (eng.RendersAt place w.block) ([], m₀) i s)
    (hkept : ¬eng.Removed place w.block i m₀) : s.2.store.Held place w keys := by
  refine h.keeps (P := fun i s => ¬eng.Removed place w.block i m₀ → s.2.store.Held place w keys)
    (fun _ => hm) ?_ hkept
  rintro j ⟨texts, m₁⟩ t ht ⟨key, k, m₂, value, v, hkey, hk, hvalue, hv, -⟩ held hlater
  have hnow : ¬eng.Removed place w.block j m₀ := fun ⟨i, hi, found⟩ =>
    hlater ⟨i, Nat.le_succ_of_le hi, found⟩
  have hasked : m₂.store.Held place w keys := held_of_asksAt hnow ht (.key hkey hk) (held hnow)
  exact held_of_asksAt hnow ht (.value hkey hk hvalue hv) hasked

/-- A key that has lost its value when this is looked up was taken out of the map by a question so
far, if the keys of the map are the same as themselves. -/
theorem removed_of_missing {w : Window} {keys : List Value} {m₀ m₁ : Machine} {key : Value}
    {k : String} (hm : m₀.store.Held place w keys) (hself : ∀ k ∈ keys, k.same k = true)
    (h : Turns (eng.RendersAt place w.block) ([], m₀) i (texts, m)) (hi : i < w.length)
    (hkey : m.store.blocks.slot? w.block i = some key) (hk : eng.stringify key m = .ok k m₁)
    (hnone : m₁.store.mapGet? place key = none) : eng.Removed place w.block i m₀ := by
  by_contra hkept
  have held := held_of_turns hm h hkept
  have hmem : key ∈ keys := by
    rw [← held.items]
    refine List.mem_of_getElem? (i := i) ?_
    rw [Blocks.getElem?_items, Blocks.get?, if_pos hi, hkey]
  have hvalue := (held_of_asksAt hkept h (.key hkey hk) held).valued key hmem (hself key hmem)
  rw [hnone] at hvalue
  cases hvalue

/-- What is known of the text of a map and of the answer to the question for it. -/
structure MapRendering (eng : Engine) (place : Nat) (m : Machine)
    (answer : EStateM.Result Interrupt Machine Value) : Prop where
  /-- The walk over the keys comes to an index where it ends. Every key on the way is found in its
  slot, and has a value when this is looked up. -/
  ends : ∃ i texts m₁,
    Turns (eng.RendersAt place (m.store.map place).keys.block) ([], m) i (texts, m₁) ∧
    eng.RenderingEnds place (m.store.map place).keys.block (m.store.map place).keys.length i texts
      m₁ answer
  /-- If no key of the map is a not-a-number, nor the superclasses that methods see, a key has no
  value when this is looked up only if a question so far has taken a key out of the map. -/
  removed : (∀ k ∈ m.store.mapKeys place, ¬k.IsNaN ∧ ∀ cs, k ≠ .superclasses cs) →
    ∀ {i texts m₁ key k m₂},
      Turns (eng.RendersAt place (m.store.map place).keys.block) ([], m) i (texts, m₁) →
      i < (m.store.map place).keys.length →
      m₁.store.blocks.slot? (m.store.map place).keys.block i = some key →
      eng.stringify key m₁ = .ok k m₂ → m₂.store.mapGet? place key = none →
      eng.Removed place (m.store.map place).keys.block i m

end Engine

/-- The text of a map while the program changes the map. It ends with a text or with an error that
the program raises when it is asked for the text of a key or value, and looks only values up that
are there, unless a question so far has taken a key out of the map. -/
theorem map_rendering_ends (levels place : Nat) {m : Machine} (hm : m.store.Made) :
    (engine levels).MapRendering place m ((engine levels).run .mapToString (.map place) [] m) where
  ends := by
    have hanswer : (engine levels).run .mapToString (.map place) [] m =
        (engine levels).renderFrom place (m.store.map place).keys.block
          (m.store.map place).keys.length 0 [] m := rfl
    exact hanswer ▸ Engine.exists_renderingEnds (engine_restoring levels) _ hm.tidy
      (hm.tidy.filled_window (.map place)) (Nat.zero_add _) .start
  removed hkeys _ _ _ _ _ _ h hi hkey hk hnone := by
    have hself : ∀ k ∈ m.store.mapKeys place, k.same k = true := fun k hmem =>
      Value.same_self_iff.2 (hkeys k hmem)
    -- The keys of a map that is not there are none, so the walk has nothing to miss.
    by_cases hplace : place < m.store.maps.size
    · exact Engine.removed_of_missing (.of_keyed hm.tidy hm.keyed hplace) hself h hi hkey hk hnone
    · have hmap : m.store.maps[place]? = none := by simpa using hplace
      simp [Store.map, hmap] at hi

/-- A program with a map of one key, which takes itself out of the map when it is asked for its
text. -/
def removingProgram : List Stmt :=
  (Parse.source
    "class K \x7b toString() \x7b m.remove(k) return \"k\" \x7d \x7d var m = Map() var k = K() m.set(k, 1)"
    0).program

/-- The program leads to a machine that is reachable. -/
theorem reachable_removing : (Machine.initial.interpret 9 removingProgram).2.Reachable :=
  .interpret .initial 9 removingProgram

/-- A map whose key changes it while it is turned into a text. -/
theorem map_rendering_ends_removing :
    (Machine.initial.interpret 9 removingProgram).2.store.Made ∧
      (engine 9).MapRendering 0 (Machine.initial.interpret 9 removingProgram).2
        ((engine 9).run .mapToString (.map 0) []
          (Machine.initial.interpret 9 removingProgram).2) :=
  ⟨reachable_removing.made, map_rendering_ends 9 0 reachable_removing.made⟩

/-- Whether a map of one key, which is the same as itself, has no text because the key is gone. -/
def losesKey (m : Machine) : Bool :=
  (match m.store.mapKeys 0 with
    | [key] => key.same key
    | _ => false) &&
    match (engine 9).run .mapToString (.map 0) [] m with
    | .error .fault m' => (m'.store.mapKeys 0).isEmpty
    | _ => false

/-- Such a map crashes, since its key is gone when the value is looked up. -/
theorem fault_of_losesKey {m : Machine} (h : losesKey m = true) :
    (∃ key, m.store.mapKeys 0 = [key] ∧ ¬key.IsNaN) ∧
      ∃ m', (engine 9).run .mapToString (.map 0) [] m = .error .fault m' ∧
        m'.store.mapKeys 0 = [] := by
  obtain ⟨h₀, h₁⟩ := Bool.and_eq_true_iff.1 h
  constructor
  · split at h₀
    · next key hkeys => exact ⟨key, hkeys, (Value.same_self_iff.1 h₀).1⟩
    · cases h₀
  · split at h₁
    · next m' hr => exact ⟨m', hr, List.isEmpty_iff.1 h₁⟩
    · cases h₁

/-- The value of a key is looked up although the key is gone, if the key is taken out of the map
while it is asked for its text: the map then has neither a text, nor does the program raise an
error. -/
theorem map_rendering_misses_removed_key :
    (Machine.initial.interpret 9 removingProgram).2.Reachable ∧
      (∃ key, (Machine.initial.interpret 9 removingProgram).2.store.mapKeys 0 = [key] ∧
        ¬key.IsNaN) ∧
      ∃ m, (engine 9).run .mapToString (.map 0) []
          (Machine.initial.interpret 9 removingProgram).2 = .error .fault m ∧
        m.store.mapKeys 0 = [] :=
  have hloses : losesKey (Machine.initial.interpret 9 removingProgram).2 = true := by cbv
  ⟨reachable_removing, fault_of_losesKey hloses⟩

end ClassScript
