import ClassScript.Proofs.Machine.Turns

/-!
# Iterators between other steps

An iterator is asked for its next element again and again, and in between anything may happen to the
list or map that it goes through. `Asked` lists the replies, each with the machine that the iterator
was asked on. An iterator over a list or over collected arguments goes by index: its replies carry
the items as they are when their turn comes, and the first end comes where the index has reached the
length. After that there is no element any more, whatever happens to the list.
-/

namespace ClassScript

open Store (Change)

/-! ### Steps that change lists and maps -/

/-- A change of a list or map. -/
def Store.Change.Inside (c : Change) : Prop := ∀ other, c ≠ .outside other

namespace Exec

variable {α β : Type} {may : Change → Prop}

/-- A step that makes only changes of a kind to the store. -/
structure Changes (may : Change → Prop) (x : Exec α) : Prop where
  /-- Such changes lead to the store that the step ends with, early or not. -/
  leads : ∀ m : Machine, m.store.Leads may (final x m).store

namespace Changes

/-- A value changes nothing. -/
theorem pure (a : α) : Changes may (Pure.pure a : Exec α) := ⟨fun _ => .refl⟩

/-- An error changes nothing. -/
theorem raise (cause : Cause) : Changes may (raise cause : Exec α) := ⟨fun _ => .refl⟩

/-- A crash changes nothing. -/
theorem fault : Changes may (fault : Exec α) := ⟨fun _ => .refl⟩

/-- Reading changes nothing. -/
theorem read (f : Store → α) : Changes may (read f) := ⟨fun _ => .refl⟩

/-- A result that was computed without the store changes nothing. -/
theorem ofExcept (r : Except Cause α) : Changes may (ofExcept r) := by
  cases r with
  | ok a => exact .pure a
  | error cause => exact .raise cause

/-- A step is a change if what it does to the store is one. -/
theorem update {f : Store → Store} (h : ∀ s, ∃ c, may c ∧ f s = s.change c) :
    Changes may (update f) := by
  refine ⟨fun m => ?_⟩
  obtain ⟨c, hc, hf⟩ := h m.store
  change m.store.Leads may (f m.store)
  exact hf ▸ .change .refl hc

/-- So is a step that also answers something. -/
theorem allocate {f : Store → Store × α} (h : ∀ s, ∃ c, may c ∧ (f s).1 = s.change c) :
    Changes may (allocate f) := by
  refine ⟨fun m => ?_⟩
  obtain ⟨c, hc, hf⟩ := h m.store
  change m.store.Leads may (f m.store).1
  exact hf ▸ .change .refl hc

/-- Steps in a row make only changes that each of them may make. -/
theorem bind {x : Exec α} {f : α → Exec β} (hx : Changes may x) (hf : ∀ a, Changes may (f a)) :
    Changes may (x >>= f) := by
  refine ⟨fun m => ?_⟩
  have h := hx.leads m
  unfold final at *
  rw [bind_apply]
  cases hr : x m with
  | ok a m' =>
    rw [hr] at h
    exact h.trans ((hf a).leads m')
  | error e m' =>
    rw [hr] at h
    exact h

end Changes

end Exec

/-- Changes of lists and maps leave the iterators alone. -/
theorem Store.Leads.iterators {s t : Store} (h : s.Leads Change.Inside t) :
    t.iterators = s.iterators := by
  refine h.keeps (P := fun u => u.iterators = s.iterators) rfl fun u c hc hu => ?_
  rw [← hu]
  -- Changes of lists and maps do not touch the iterators, and changes elsewhere are excluded.
  cases c with
  | outside other => exact absurd rfl (hc other)
  | mapSet m key value =>
    simp only [Store.change, Store.mapSet]
    split <;> rfl
  | mapRemove m key =>
    simp only [Store.change, Store.mapRemove]
    split <;> rfl
  | _ => rfl

namespace Engine

variable (eng : Engine)

/-- Adding an item changes a list. -/
theorem changes_listAdd (l : Nat) (v : Value) :
    Exec.Changes Change.Inside (eng.run .listAdd (.list l) [v]) :=
  .bind (.update fun _ => ⟨.listAdd l v, nofun, rfl⟩) fun _ => .pure _

/-- Replacing an item changes a list. -/
theorem changes_listSet (l : Nat) (i v : Value) :
    Exec.Changes Change.Inside (eng.run .listSet (.list l) [i, v]) :=
  .bind (.read _) fun _ => .bind (.ofExcept _) fun i =>
    .bind (.update fun _ => ⟨.listSet l i v, nofun, rfl⟩) fun _ => .pure _

/-- Taking an item out changes a list. -/
theorem changes_listPop (l : Nat) :
    Exec.Changes Change.Inside (eng.run .listPop (.list l) []) := by
  refine .bind (.read _) fun w => ?_
  dsimp only
  split
  · exact .raise _
  · refine .bind (.read _) fun last => ?_
    split
    · exact .fault
    · exact .bind (.update fun _ => ⟨.listPop l, nofun, rfl⟩) fun _ => .pure _

/-- Setting a key changes a map. -/
theorem changes_mapSet (m : Nat) (key value : Value) :
    Exec.Changes Change.Inside (eng.run .mapSet (.map m) [key, value]) :=
  .bind (.update fun _ => ⟨.mapSet m key value, nofun, rfl⟩) fun _ => .pure _

/-- Taking a key out changes a map. -/
theorem changes_mapRemove (m : Nat) (key : Value) :
    Exec.Changes Change.Inside (eng.run .mapRemove (.map m) [key]) := by
  refine .bind (.read _) fun old => ?_
  split
  · exact .raise _
  · exact .bind (.update fun _ => ⟨.mapRemove m key, nofun, rfl⟩) fun _ => .pure _

end Engine

/-! ### Asking an iterator -/

/-- What an iterator goes through next. -/
def Store.cursor (s : Store) (i : Nat) : Cursor := s.iterators[i]?.getD .done

/-- A store in which an iterator has gone on, and some values have got identities. -/
def Store.moveIterator (s : Store) (i : Nat) (c : Cursor) (made : Nat) : Store :=
  { s with iterators := s.iterators.set! i c, nextId := s.nextId + made }

/-- The reply of an iterator that is asked for its next element. -/
theorem Engine.run_iteratorNext (eng : Engine) (i : Nat) (m : Machine) :
    eng.run .iteratorNext (.iterator i) [] m =
      match m.store.advance (m.store.cursor i) with
      | .element v next => .ok (.iteratorResult m.store.nextId v false)
          { m with store := m.store.moveIterator i next 1 }
      | .entry key value next =>
        .ok (.iteratorResult (m.store.nextId + 1) (.pair m.store.nextId key value) false)
          { m with store := m.store.moveIterator i next 2 }
      | .finished => .ok (.iteratorResult m.store.nextId .nil true)
          { m with store := m.store.moveIterator i .done 1 } := by
  have hread : Exec.read (fun s => s.advance (s.iterators[i]?.getD .done)) m =
      .ok (m.store.advance (m.store.cursor i)) m := rfl
  change (Exec.read (fun s => s.advance (s.iterators[i]?.getD .done)) >>= _) m = _
  rw [Exec.bind_apply, hread]
  dsimp only
  cases m.store.advance (m.store.cursor i) <;> rfl

/-- Whether a reply is the end of an iteration. -/
def Value.isEnd : Value → Bool
  | .iteratorResult _ _ isEnd => isEnd
  | _ => false

/-- An iterator is asked for its next element again and again, from a machine on. The turns are in
their order, each with the machine in front of it and with the reply. Whatever happens in between
leaves the iterator alone. -/
inductive Asked (eng : Engine) (i : Nat) : Machine → List (Machine × Value) → Prop where
  /-- Nothing happens any more. -/
  | done (m : Machine) : Asked eng i m []
  /-- The iterator is asked. -/
  | next {m m' : Machine} {v : Value} {turns : List (Machine × Value)}
    (h : eng.run .iteratorNext (.iterator i) [] m = .ok v m') (rest : Asked eng i m' turns) :
    Asked eng i m ((m, v) :: turns)
  /-- Something else happens. -/
  | other {m m' : Machine} {turns : List (Machine × Value)}
    (store : m.store.Evolves m'.store) (cursor : m'.store.cursor i = m.store.cursor i)
    (rest : Asked eng i m' turns) : Asked eng i m turns

/-- An iterator that is not at the end goes on with the cursor that it is given. -/
theorem Store.cursor_moveIterator {s : Store} {i : Nat} (h : s.cursor i ≠ .done) (c : Cursor)
    (made : Nat) : (s.moveIterator i c made).cursor i = c := by
  have hi : i < s.iterators.size := by
    by_contra hge
    exact h (by simp [cursor, hge])
  simp [cursor, moveIterator, hi]

/-- An iterator that is moved to the end is at the end. -/
theorem Store.cursor_moveIterator_done (s : Store) (i made : Nat) :
    (s.moveIterator i .done made).cursor i = .done := by
  simp only [cursor, moveIterator, Array.set!_eq_setIfInBounds, Array.getElem?_setIfInBounds_self]
  split <;> rfl

/-- Moving an iterator evolves the store. -/
theorem Store.evolves_moveIterator (s : Store) (i : Nat) (c : Cursor) (made : Nat) :
    s.Evolves (s.moveIterator i c made) :=
  .of_outside rfl rfl rfl

/-- Every iterator has a reply, at any time. -/
theorem Engine.exists_iteratorNext (eng : Engine) (i : Nat) (m : Machine) :
    ∃ v m', eng.run .iteratorNext (.iterator i) [] m = .ok v m' := by
  rw [eng.run_iteratorNext]
  cases m.store.advance (m.store.cursor i) <;> exact ⟨_, _, rfl⟩

namespace Asked

variable {eng : Engine} {i : Nat} {m : Machine} {turns : List (Machine × Value)}

/-- A step that changes only lists and maps may be in between. -/
theorem changes {α : Type} {x : Exec α} (hx : Exec.Changes Change.Inside x)
    (rest : Asked eng i (Exec.final x m) turns) : Asked eng i m turns := by
  refine .other ((hx.leads m).mono fun _ _ => trivial) ?_ rest
  unfold Store.cursor
  rw [(hx.leads m).iterators]

/-- An iterator at the end stays there. -/
theorem ended (h : Asked eng i m turns) (hdone : m.store.cursor i = .done) :
    ∀ t ∈ turns, ∃ id, t.2 = .iteratorResult id .nil true := by
  induction h with
  | done => exact List.forall_mem_nil _
  | @next m m' v turns hrun _ ih =>
    rw [eng.run_iteratorNext, hdone] at hrun
    cases hrun
    exact List.forall_mem_cons.2 ⟨⟨_, rfl⟩, ih (m.store.cursor_moveIterator_done i 1)⟩
  | other _ hcursor _ ih => exact ih (hcursor.trans hdone)

end Asked

/-- The turns of an iterator that is asked between steps; where there is no step, it is asked. -/
def turnsBetween (eng : Engine) (i : Nat) : List (Option (Exec Value)) → Machine →
    List (Machine × Value)
  | [], _ => []
  | none :: rest, m =>
    match eng.run .iteratorNext (.iterator i) [] m with
    | .error _ m' => turnsBetween eng i rest m'
    | .ok v m' => (m, v) :: turnsBetween eng i rest m'
  | some x :: rest, m => turnsBetween eng i rest (Exec.final x m)

/-- Asking an iterator again and again, with changes in between, is such a list of replies. -/
theorem asked_turnsBetween (eng : Engine) (i : Nat) {steps : List (Option (Exec Value))}
    (h : ∀ x, some x ∈ steps → Exec.Changes Change.Inside x) (m : Machine) :
    Asked eng i m (turnsBetween eng i steps m) := by
  -- On the steps: each asks the iterator or changes something else.
  induction steps generalizing m with
  | nil => exact .done m
  | cons step rest ih =>
    have hrest := fun m => ih (fun x hx => h x (List.mem_cons_of_mem _ hx)) m
    cases step with
    | none =>
      obtain ⟨v, m', hrun⟩ := eng.exists_iteratorNext i m
      unfold turnsBetween
      rw [hrun]
      exact .next hrun (hrest m')
    | some x => exact .changes (h x List.mem_cons_self) (hrest _)

/-! ### Lists and collected arguments -/

namespace Value

/-- The operation that makes an iterator over a list or over collected arguments. -/
def iterating? : Value → Option Operation
  | .list _ => some .listIterate
  | .varargs _ _ => some .varargsIterate
  | _ => none

/-- The item at an index of a list or of collected arguments. -/
def item? (s : Store) : Value → Nat → Option Value
  | .list l, k => s.listGet? l k
  | .varargs _ items, k => items[k]?
  | _, _ => none

/-- The number of items of a list or of collected arguments. -/
def itemCount (s : Store) : Value → Nat
  | .list l => (s.list l).length
  | .varargs _ items => items.length
  | _ => 0

/-- There is an item at every index below the number of items, and at no other. -/
theorem isSome_item?_iff {s : Store} (hs : s.Tidy) (self : Value) (k : Nat) :
    (self.item? s k).isSome ↔ k < self.itemCount s := by
  cases self with
  | list l => exact hs.listGet?_isSome_iff
  | varargs id items => simp [item?, itemCount]
  | _ => simp [item?, itemCount]

end Value

/-- A cursor that stands at an index of a list or of collected arguments. -/
inductive Cursor.StandsAt : Value → Nat → Cursor → Prop where
  /-- At an index of a list. -/
  | items (l k : Nat) : StandsAt (.list l) k (.items l k)
  /-- At an index of collected arguments. -/
  | arguments (id : ObjectId) (items : List Value) (k : Nat) :
    StandsAt (.varargs id items) k (.arguments (items.drop k))

/-- A cursor at an index yields the item there, and goes on to the next index. -/
theorem Cursor.StandsAt.advance {self : Value} {k : Nat} {c : Cursor} (h : StandsAt self k c)
    (s : Store) :
    (self.item? s k = none ∧ s.advance c = .finished) ∨
      ∃ x c', self.item? s k = some x ∧ s.advance c = .element x c' ∧ StandsAt self (k + 1) c' := by
  cases h with
  | items l =>
    unfold Value.item? Store.advance
    dsimp only
    cases s.listGet? l k with
    | none => exact .inl ⟨rfl, rfl⟩
    | some x => exact .inr ⟨x, _, rfl, rfl, .items l (k + 1)⟩
  | arguments id items =>
    unfold Value.item?
    dsimp only
    -- The cursor keeps the arguments that are left.
    cases hx : items[k]? with
    | none =>
      rw [List.drop_eq_nil_of_le (List.getElem?_eq_none_iff.1 hx)]
      exact .inl ⟨rfl, rfl⟩
    | some x =>
      obtain ⟨hk, rfl⟩ := List.getElem?_eq_some_iff.1 hx
      rw [List.drop_eq_getElem_cons hk]
      exact .inr ⟨_, _, rfl, rfl, .arguments id items (k + 1)⟩

/-- A cursor that stands at an item is not at its end. -/
theorem Cursor.StandsAt.ne_done {self : Value} {k : Nat} {c : Cursor} (h : StandsAt self k c) :
    c ≠ .done := by
  cases h <;> nofun

/-- The replies of an iterator that stands at an index: the items from there on, each as it is when
its turn comes, and the end where the index has reached the number of items. -/
inductive ItemWalk (self : Value) : Nat → List (Machine × Value) → Prop where
  /-- The iterator is not asked any more. -/
  | nil (k : Nat) : ItemWalk self k []
  /-- There is an item at the index. -/
  | item {k : Nat} {m : Machine} {x : Value} {turns : List (Machine × Value)} (id : ObjectId)
    (h : self.item? m.store k = some x) (below : k < self.itemCount m.store)
    (rest : ItemWalk self (k + 1) turns) :
    ItemWalk self k ((m, .iteratorResult id x false) :: turns)
  /-- The index has reached the number of items. -/
  | ended {k : Nat} {m : Machine} {turns : List (Machine × Value)} (id : ObjectId)
    (h : self.itemCount m.store ≤ k)
    (rest : ∀ t ∈ turns, ∃ id, t.2 = .iteratorResult id .nil true) :
    ItemWalk self k ((m, .iteratorResult id .nil true) :: turns)

/-- An iterator that stands at an index goes on from there, whatever happens in between. -/
theorem Asked.itemWalk {eng : Engine} {i : Nat} {m : Machine} {turns : List (Machine × Value)}
    (h : Asked eng i m turns) (hm : m.store.Made) {self : Value} {k : Nat}
    (hcursor : Cursor.StandsAt self k (m.store.cursor i)) : ItemWalk self k turns := by
  induction h generalizing k with
  | done => exact .nil k
  | @next m m' v turns hrun rest ih =>
    -- In a tidy store there is an item at the index exactly if the index is below the length.
    have hcount := Value.isSome_item?_iff hm.tidy self k
    rw [eng.run_iteratorNext] at hrun
    obtain ⟨hnone, hfinished⟩ | ⟨x, c, hx, helement, hnext⟩ := hcursor.advance m.store
    · rw [hfinished] at hrun
      cases hrun
      rw [hnone] at hcount
      refine .ended _ (Nat.le_of_not_lt fun hlt => ?_) (rest.ended ?_)
      · cases hcount.2 hlt
      · exact m.store.cursor_moveIterator_done i 1
    · rw [helement] at hrun
      cases hrun
      refine .item _ hx (hcount.1 (hx ▸ rfl)) (ih (hm.evolves ?_) ?_)
      · exact m.store.evolves_moveIterator i c 1
      · exact (Store.cursor_moveIterator hcursor.ne_done c 1).symm ▸ hnext
  | other hstore hsame _ ih => exact ih (hm.evolves hstore) (hsame ▸ hcursor)

/-- The number of elements among the replies of some turns. -/
def elements (turns : List (Machine × Value)) : Nat := turns.countP fun t => !t.2.isEnd

/-- A reply with an element is counted. -/
theorem elements_cons (m : Machine) (id : ObjectId) (x : Value) (turns : List (Machine × Value)) :
    elements ((m, .iteratorResult id x false) :: turns) = elements turns + 1 :=
  List.countP_cons_of_pos rfl

namespace ItemWalk

variable {self : Value} {k n : Nat} {m : Machine} {v : Value} {turns : List (Machine × Value)}

/-- Every reply is an element or the end. -/
theorem reply (h : ItemWalk self k turns) {t : Machine × Value} (ht : t ∈ turns) :
    ∃ id, (∃ x, t.2 = .iteratorResult id x false) ∨ t.2 = .iteratorResult id .nil true := by
  induction h with
  | nil => cases ht
  | item id _ _ _ ih =>
    rcases List.mem_cons.1 ht with rfl | ht
    · exact ⟨id, .inl ⟨_, rfl⟩⟩
    · exact ih ht
  | ended id _ rest =>
    rcases List.mem_cons.1 ht with rfl | ht
    · exact ⟨id, .inr rfl⟩
    · obtain ⟨id, he⟩ := rest t ht
      exact ⟨id, .inr he⟩

/-- An element is the item at the index that the elements in front of it lead to. -/
theorem item_eq (h : ItemWalk self k turns) {id : ObjectId} {x : Value}
    (ht : turns[n]? = some (m, .iteratorResult id x false)) :
    self.item? m.store (k + elements (turns.take n)) = some x := by
  induction h generalizing n with
  | nil => cases ht
  | item _ hx _ _ ih =>
    -- The index has moved by one behind the first element.
    cases n with
    | zero =>
      cases ht
      exact hx
    | succ n =>
      have hrest := ih ht
      rwa [List.take_succ_cons, elements_cons, ← Nat.add_assoc, Nat.add_right_comm]
  | ended _ _ rest =>
    -- Behind the end there are only ends, and they carry no element.
    cases n with
    | zero => cases ht
    | succ n =>
      obtain ⟨_, he⟩ := rest _ (List.mem_of_getElem? ht)
      cases he

/-- The end comes where it has come before, or where the index has reached the number of items. -/
theorem isEnd_iff (h : ItemWalk self k turns) (ht : turns[n]? = some (m, v)) :
    v.isEnd = true ↔ (∃ t ∈ turns.take n, t.2.isEnd = true) ∨
      self.itemCount m.store ≤ k + elements (turns.take n) := by
  induction h generalizing n with
  | nil => cases ht
  | item id _ hlt _ ih =>
    cases n with
    | zero =>
      cases ht
      simp [elements, Value.isEnd, hlt]
    | succ n =>
      have hrest := ih ht
      rw [Nat.add_right_comm, Nat.add_assoc] at hrest
      rw [List.take_succ_cons, elements_cons, hrest]
      simp [Value.isEnd]
  | ended id hle rest =>
    -- Behind an end every reply is an end.
    cases n with
    | zero =>
      cases ht
      simp [elements, Value.isEnd, hle]
    | succ n =>
      obtain ⟨_, he⟩ := rest _ (List.mem_of_getElem? ht)
      obtain rfl : v = _ := he
      simp [Value.isEnd]

end ItemWalk

/-- The replies of an iterator over a list or over collected arguments. -/
structure GoesByIndex (self : Value) (turns : List (Machine × Value)) : Prop where
  /-- Every reply is an element or the end. -/
  reply : ∀ t ∈ turns,
    ∃ id, (∃ x, t.2 = .iteratorResult id x false) ∨ t.2 = .iteratorResult id .nil true
  /-- The element behind some number of elements is the item that has this number as its index at
  that time. -/
  item_eq : ∀ (n : Nat) m id x, turns[n]? = some (m, .iteratorResult id x false) →
    self.item? m.store (elements (turns.take n)) = some x
  /-- The end comes exactly where it has come before, or where there are no more items at that time
  than there were elements. -/
  isEnd_iff : ∀ (n : Nat) m v, turns[n]? = some (m, v) →
    (v.isEnd = true ↔ (∃ t ∈ turns.take n, t.2.isEnd = true) ∨
      self.itemCount m.store ≤ elements (turns.take n))

/-- An iterator over a list or over collected arguments goes by index and ends once, whatever
happens to the list in between. -/
theorem sequence_iterators_exact (eng : Engine) {self : Value} {op : Operation}
    (hop : self.iterating? = some op) {m : Machine} (hm : m.store.Made) :
    ∃ i m₁, eng.run op self [] m = .ok (.iterator i) m₁ ∧
      (∀ m', ∃ v m'', eng.run .iteratorNext (.iterator i) [] m' = .ok v m'') ∧
      ∀ turns, Asked eng i m₁ turns → GoesByIndex self turns := by
  -- The iterator starts at index zero.
  obtain ⟨c, hrun, hc⟩ : ∃ c, eng.run op self [] m = Exec.newIterator c m ∧
      Cursor.StandsAt self 0 c := by
    cases self with
    | list l =>
      cases hop
      exact ⟨_, rfl, .items l 0⟩
    | varargs id items =>
      cases hop
      exact ⟨_, rfl, .arguments id items 0⟩
    | _ => cases hop
  refine ⟨m.store.iterators.size, _, hrun, eng.exists_iteratorNext _, fun turns hasked => ?_⟩
  have hcursor : (m.store.newIterator c).1.cursor m.store.iterators.size = c := by
    simp [Store.cursor, Store.newIterator]
  have hmade : (m.store.newIterator c).1.Made := hm.evolves (.of_outside rfl rfl rfl)
  -- All that was asked of it is a walk from there on.
  have hwalk : ItemWalk self 0 turns := hasked.itemWalk hmade (hcursor.symm ▸ hc)
  refine ⟨fun t => hwalk.reply, fun n m id x ht => ?_, fun n m v ht => ?_⟩
  · exact Nat.zero_add (elements (turns.take n)) ▸ hwalk.item_eq ht
  · exact Nat.zero_add (elements (turns.take n)) ▸ hwalk.isEnd_iff ht

/-- A list of one item gets a second one while an iterator goes through it. The second item is
replaced before its turn comes and dropped behind it, and two more items come behind the end. -/
theorem sequence_iterators_exact_add :
    let eng := engine 0
    let m := Exec.final (Exec.newList [.int 1]) .initial
    m.store.Made ∧ ∃ m₁, eng.run .listIterate (.list 0) [] m = .ok (.iterator 0) m₁ ∧
      ∃ turns, Asked eng 0 m₁ turns ∧ GoesByIndex (.list 0) turns ∧
        turns.map (fun t => (t.2.isEnd, (t.1.store.list 0).length)) =
          [(false, 1), (false, 2), (true, 1), (true, 3)] := by
  intro eng m
  have hm : m.store.Made :=
    Machine.made_initial.evolves (.of_change Machine.initial.store (.newList [.int 1]))
  let add (n : Int64) := eng.run .listAdd (.list 0) [.int n]
  let set (i n : Int64) := eng.run .listSet (.list 0) [.int i, .int n]
  let pop := eng.run .listPop (.list 0) []
  let steps :=
    [none, some (add 2), some (set 1 5), none, some pop, none, some (add 3), some (add 4), none]
  -- All steps in between change lists only.
  have hsteps : ∀ x, some x ∈ steps → Exec.Changes Change.Inside x := by
    intro x hx
    simp only [steps, List.mem_cons, Option.some.injEq, reduceCtorEq, List.not_mem_nil, or_false,
      false_or] at hx
    obtain rfl | rfl | rfl | rfl | rfl := hx
    · exact eng.changes_listAdd ..
    · exact eng.changes_listSet ..
    · exact eng.changes_listPop ..
    · exact eng.changes_listAdd ..
    · exact eng.changes_listAdd ..
  have hop : (Value.list 0).iterating? = some .listIterate := rfl
  obtain ⟨i, m₁, hrun, -, hexact⟩ := sequence_iterators_exact eng hop hm
  cases hrun
  have hasked := asked_turnsBetween eng 0 hsteps (Exec.final (eng.run .listIterate (.list 0) []) m)
  exact ⟨hm, _, rfl, _, hasked, hexact _ hasked, by decide +kernel⟩

end ClassScript
