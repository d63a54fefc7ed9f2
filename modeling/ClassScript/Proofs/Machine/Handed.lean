import ClassScript.Proofs.Call.Filled
import ClassScript.Proofs.Hierarchy
import ClassScript.Proofs.Machine.Regime

/-!
# Native code in every regime

Members and native code hand on the values that they are given, and call them back. Whatever regime
a machine is in, it stays in it, and the results are known as the arguments are, on any two engines
that call values alike. The regime itself has to say only what becomes of a method of the program
that gets a receiver.
-/

namespace ClassScript

open Exec (Obeys Yields Abides)

variable {R : Regime} {m : Machine}

/-! ### Steps on the store -/

section Seen

variable (R) (s : Store)

/-- A map gets a value in the same way however the store is seen. -/
theorem mapSet_seenStore (place : Nat) (key value : Value) :
    (R.seenStore s).mapSet place key value = R.seenStore (s.mapSet place key value) := by
  unfold Store.mapSet
  dsimp only
  split <;> split <;> first | rfl | contradiction

/-- So it loses a key. -/
theorem mapRemove_seenStore (place : Nat) (key : Value) :
    (R.seenStore s).mapRemove place key = R.seenStore (s.mapRemove place key) := by
  have hkeys : (R.seenStore s).mapKeys place = s.mapKeys place := rfl
  unfold Store.mapRemove
  dsimp only
  rw [hkeys]
  split <;> rfl

/-- So a key that is still there is found. -/
theorem presentKey?_seenStore (place : Nat) (keys : List Value) :
    (R.seenStore s).presentKey? place keys = s.presentKey? place keys := by
  induction keys with
  | nil => rfl
  | cons key rest ih =>
    have hvalue : (R.seenStore s).mapGet? place key = s.mapGet? place key := rfl
    unfold Store.presentKey?
    rw [hvalue, ih]

/-- An iterator goes on alike whatever the scopes are. -/
theorem advance_seenStore (c : Cursor) : (R.seenStore s).advance c = s.advance c := by
  cases c with
  | entries place keys => simp only [Store.advance, presentKey?_seenStore]
  | characters chars => cases chars <;> rfl
  | arguments values => cases values <;> rfl
  | _ => rfl

end Seen

namespace Exec

/-- A new identity is known of nowhere. -/
theorem abides_freshId : Abides R m freshId freshId :=
  .allocate rfl (.of_outside rfl rfl (Nat.le_succ _) rfl rfl rfl) fun hm => { R.contents hm with }

/-- A list of known values is known. -/
theorem yields_newList {items : List Value} (hi : ∀ v ∈ items, R.Holds m v) :
    Yields R m (newList items) (newList items) :=
  (Obeys.allocate rfl (.of_store rfl rfl rfl (.of_change _ (.newList items)))
    fun hm => (R.contents hm).newList hi).bind fun _ _ _ _ _ => .flat trivial

/-- An iterator over known values is known. -/
theorem yields_newIterator {c : Cursor} (hc : c.All (R.Holds m)) :
    Yields R m (newIterator c) (newIterator c) :=
  (Obeys.allocate rfl (.of_outside rfl rfl (Nat.le_refl _) rfl rfl rfl)
    fun hm => (R.contents hm).newIterator hc).bind fun _ _ _ _ _ => .flat trivial

/-- A change outside of the scopes, with an answer. -/
theorem yields_change {f : Store → Store} {v : Value} (hv : R.Holds m v)
    (hf : f (R.seenStore m.store) = R.seenStore (f m.store))
    (hq : m.Quiet { m with store := f m.store })
    (hc : R.Inv m → (f m.store).Contents (R.Holds m)) :
    Yields R m (do update f; return v) (do update f; return v) :=
  (Obeys.update hf hq hc).bind fun _ _ hl _ _ => .pure fun _ => R.holds hl hv

/-- A result that was computed without the machine leaves it alone. -/
theorem obeys_ofExcept {α : Type} {r : Except Cause α} {Q : α → Machine → Prop}
    (h : ∀ a, r = .ok a → Q a m) : Obeys R m (ofExcept r) (ofExcept r) Q := by
  cases r with
  | ok a => exact .pure fun _ => h a rfl
  | error cause => exact .raise cause

/-- A computation that may fail, in front of another step. -/
theorem yields_after {α : Type} (r : Except Cause α) {f : α → Exec Value}
    (hf : ∀ a, Yields R m (f a) (f a)) :
    Yields R m (Exec.ofExcept r >>= f) (Exec.ofExcept r >>= f) := by
  cases r with
  | ok a => exact hf a
  | error cause => exact .raise cause

end Exec

/-! ### Members -/

namespace Class

variable {P : Class → Prop} {name : String} {fn : Closure} {depth : Nat}

/-- A method that is found is a method of the class or of a class above it. -/
theorem method_of_lookup (hP : ∀ c, P c → ∀ s ∈ c.supers, P s) {c : Class} (hc : P c)
    (hl : c.lookup name = .found fn depth) : ∃ c', P c' ∧ (name, fn) ∈ c'.methods := by
  obtain ⟨c', hc', hown⟩ := Hierarchy.declared_of_lookup hP hc hl
  obtain ⟨l₁, l₂, e, -⟩ := List.lookup_eq_some_iff.1 hown
  exact ⟨c', hc', e ▸ List.mem_append_right _ List.mem_cons_self⟩

/-- A method that is found on superclasses is one of an ancestor's own. -/
theorem method_of_lookupSupers (hP : ∀ c, P c → ∀ s ∈ c.supers, P s) {supers : List Class}
    (hsupers : ∀ s ∈ supers, P s) (hl : hierarchy.lookupSupers name supers = .found fn depth) :
    ∃ c', P c' ∧ (name, fn) ∈ c'.methods := by
  obtain ⟨c', hc', hown⟩ := Hierarchy.declared_of_lookupSupers hP hsupers hl
  obtain ⟨l₁, l₂, e, -⟩ := List.lookup_eq_some_iff.1 hown
  exact ⟨c', hc', e ▸ List.mem_append_right _ List.mem_cons_self⟩

end Class

/-- A native method with a known receiver is known. -/
theorem NativeMethod.yields_bind {method : NativeMethod} {receiver : Value}
    (hr : R.Holds m receiver) : Yields R m (method.bind receiver) (method.bind receiver) :=
  Exec.abides_freshId.bind fun _ _ hl _ _ => .pure fun _ => R.boundMethod.2 (R.holds hl hr)

/-- A method that all objects have is known. -/
theorem yields_objectMember (site : Token) {v : Value} (hv : R.Holds m v) (name : String) :
    Yields R m (objectMember site v name) (objectMember site v name) := by
  unfold objectMember
  split
  · exact NativeMethod.yields_bind hv
  · exact .raiseAt ..

/-- What a native property answers is part of the value. -/
theorem Reading.holds {r : Reading} {v p : Value} (hv : R.Holds m v) (h : r.get? v = some p) :
    R.Holds m p := by
  unfold Reading.get? at h
  split at h
  · cases h
    exact (R.pair.1 hv).1
  · cases h
    exact (R.pair.1 hv).2
  · cases h
    exact R.iteratorResult.1 hv
  · cases h
    exact R.flat trivial
  · cases h

/-- A regime that knows the methods of an object that is known: with their receiver they are known
functions. -/
def Regime.BindsMethods (R : Regime) : Prop :=
  ∀ {m : Machine} {place : Nat} {cls : Class} {name : String} {fn : Closure} {depth : Nat},
    R.Holds m (.instance place cls) → cls.lookup name = .found fn depth →
    Obeys R m (fn.bind (.instance place cls)) (fn.bind (.instance place cls)) fun fn' m' =>
      R.Holds m' (.closure fn')

/-- A regime that knows the methods of superclasses that are known: with a receiver that is known
they are known functions. -/
def Regime.BindsSupers (R : Regime) : Prop :=
  ∀ {m : Machine} {supers : List Class} {name : String} {fn : Closure} {depth : Nat}
    {receiver : Value}, R.Holds m (.superclasses supers) →
    Class.hierarchy.lookupSupers name supers = .found fn depth → R.Holds m receiver →
    Obeys R m (fn.bind receiver) (fn.bind receiver) fun fn' m' => R.Holds m' (.closure fn')

/-- A member of a known value is known. -/
theorem yields_member (hR : R.BindsMethods) (site : Token) {v : Value} (hv : R.Holds m v)
    (name : String) : Yields R m (member site v name) (member site v name) := by
  unfold member
  split
  · -- An object: a field of its own comes first, then a method of its class.
    next place cls =>
    refine .readBind (fun _ => rfl) fun hm => ?_
    split
    · next field hf =>
      obtain ⟨b, hb, hfield⟩ := Option.bind_eq_some_iff.1 hf
      exact .pure fun _ => (R.contents hm).fields place b hb name field hfield
    · split
      · next fn depth hl => exact (hR hv hl).bind fun _ _ _ _ hfn => .pure fun _ => hfn
      · exact .raiseAt ..
      · exact yields_objectMember site hv name
  · -- Any other value: the methods and properties of its native class.
    split
    · exact yields_objectMember site hv name
    · split
      · exact NativeMethod.yields_bind hv
      · split
        · next p hp =>
          obtain ⟨property, -, hread⟩ := Option.bind_eq_some_iff.1 hp
          exact .pure fun _ => Reading.holds hv hread
        · exact .raiseAt ..

/-! ### Messages -/

/-- Two engines that call values alike: values that are known, with arguments that are, have results
that are known. -/
structure Engine.CallsBy (R : Regime) (eng eng' : Engine) : Prop where
  /-- Methods with a receiver are known. -/
  binds : R.BindsMethods
  /-- The calls are alike. -/
  invoke : ∀ {m : Machine} (site : Token) {callee : Value} {positional : List Value}
    {named : List (String × Value)}, R.Holds m callee → (∀ v ∈ positional, R.Holds m v) →
    (∀ p ∈ named, R.Holds m p.2) →
    Yields R m (eng.invoke site callee positional named) (eng'.invoke site callee positional named)

namespace Engine

variable {eng eng' : Engine}

/-- A message to a known value has a known answer. -/
theorem yields_send (h : CallsBy R eng eng') (site : Token) {receiver : Value} (name : String)
    {args : List Value} (hr : R.Holds m receiver) (ha : ∀ v ∈ args, R.Holds m v) :
    Yields R m (eng.send site receiver name args) (eng'.send site receiver name args) :=
  (yields_member h.binds site hr name).bind fun _ _ hl _ hmember =>
    h.invoke site hmember (fun v hv => R.holds hl (ha v hv)) (List.forall_mem_nil _)

/-- The truth of a known value can be asked for. -/
theorem abides_truthy (h : CallsBy R eng eng') {v : Value} (hv : R.Holds m v) :
    Abides R m (eng.truthy v) (eng'.truthy v) := by
  unfold truthy
  split
  · exact .done
  · refine .getBind (fun _ => rfl) fun _ =>
      (yields_send h _ _ hv (List.forall_mem_nil _)).bind fun r _ _ _ _ => ?_
    split
    · exact .done
    · exact .raiseAt ..

/-- Known values can be compared. -/
theorem abides_equal (h : CallsBy R eng eng') {a b : Value} (ha : R.Holds m a)
    (hb : R.Holds m b) : Abides R m (eng.equal a b) (eng'.equal a b) :=
  .getBind (fun _ => rfl) fun _ =>
    (yields_send h _ _ ha (List.forall_mem_singleton.2 hb)).bind fun _ _ _ _ hr =>
      abides_truthy h hr

/-- The text of a known value can be asked for. -/
theorem abides_stringify (h : CallsBy R eng eng') {v : Value} (hv : R.Holds m v) :
    Abides R m (eng.stringify v) (eng'.stringify v) := by
  unfold stringify
  split
  · exact .done
  · refine .getBind (fun _ => rfl) fun _ =>
      (yields_send h _ _ hv (List.forall_mem_nil _)).bind fun r _ _ _ _ => ?_
    split
    · exact .done
    · exact .raiseAt ..

/-- A known value can be a condition. -/
theorem abides_condition (h : CallsBy R eng eng') (token : Token) {v : Value} (hv : R.Holds m v) :
    Abides R m (eng.condition token v) (eng'.condition token v) :=
  .atSite (.located _ (abides_truthy h (R.holdsSite hv))) fun _ _ _ => trivial

/-- The texts of known values can be asked for, one after the other. -/
theorem abides_stringifyAll (h : CallsBy R eng eng') {vs : List Value}
    (hv : ∀ v ∈ vs, R.Holds m v) : Abides R m (eng.stringifyAll vs) (eng'.stringifyAll vs) := by
  induction vs generalizing m with
  | nil => exact .done
  | cons v rest ih =>
    refine (abides_stringify h (hv v List.mem_cons_self)).bind fun _ _ hl _ _ => ?_
    exact (ih fun w hw => R.holds hl (hv w (List.mem_cons_of_mem _ hw))).bind fun _ _ _ _ _ => .done

/-! ### Native code -/

/-- The texts of the items in a block can be asked for. -/
theorem abides_stringifySlots (h : CallsBy R eng eng') (block count i : Nat) :
    Abides R m (eng.stringifySlots block count i) (eng'.stringifySlots block count i) := by
  induction count generalizing m i with
  | zero => exact .done
  | succ count ih =>
    refine .readBind (fun _ => rfl) fun hm => ?_
    split
    · exact .fault
    · next v hv =>
      exact (abides_stringify h ((R.contents hm).blocks.slot? hv)).bind fun _ _ _ _ _ =>
        (ih _).bind fun _ _ _ _ _ => .done

/-- A known value can be searched for among the items in a block. -/
theorem abides_slotsContain (h : CallsBy R eng eng') (block : Nat) {item : Value}
    (hi : R.Holds m item) (count i : Nat) :
    Abides R m (eng.slotsContain block item count i) (eng'.slotsContain block item count i) := by
  -- On the number of slots that are left. The search for the item may change the block.
  induction count generalizing m i with
  | zero => exact .done
  | succ count ih =>
    refine .readBind (fun _ => rfl) fun hm => ?_
    split
    · exact .fault
    · next v hv =>
      refine (abides_equal h ((R.contents hm).blocks.slot? hv) hi).bind fun same _ hl _ _ => ?_
      split
      · exact .done
      · exact ih (R.holds hl hi) _

/-- Lists can be compared item by item. -/
theorem abides_listsEqual (h : CallsBy R eng eng') (a b count i : Nat) :
    Abides R m (eng.listsEqual a b count i) (eng'.listsEqual a b count i) := by
  -- On the number of items that are left; both lists are read again at every turn.
  induction count generalizing m i with
  | zero => exact .done
  | succ count ih =>
    refine .readBind (fun _ => rfl) fun hm => .readBind (fun _ => rfl) fun _ => ?_
    split
    · next v w hv hw =>
      refine (abides_equal h ((R.contents hm).listGet? hv) ((R.contents hm).listGet? hw)).bind
        fun same _ _ _ _ => ?_
      split
      · exact ih _
      · exact .done
    · exact .fault

/-- The texts of the entries of a map can be asked for. -/
theorem abides_stringifyEntries (h : CallsBy R eng eng') (place block count i : Nat) :
    Abides R m (eng.stringifyEntries place block count i)
      (eng'.stringifyEntries place block count i) := by
  -- On the number of entries left. The contents are looked at anew in every turn, since the program
  -- may change them.
  induction count generalizing m i with
  | zero => exact .done
  | succ count ih =>
    refine .readBind (fun _ => rfl) fun hm => ?_
    split
    · exact .fault
    · next key hk =>
      refine (abides_stringify h ((R.contents hm).blocks.slot? hk)).bind fun _ _ _ _ _ => ?_
      refine .readBind (fun _ => rfl) fun hm' => ?_
      split
      · exact .fault
      · next value hv =>
        exact (abides_stringify h ((R.contents hm').mapGet? hv)).bind fun _ _ _ _ _ =>
          (ih _).bind fun _ _ _ _ _ => .done

/-- The methods of all objects stay within the regime. -/
theorem yields_runObject (h : CallsBy R eng eng') (op : Operation) {self : Value}
    (hs : R.Holds m self) (args : List Value) :
    Yields R m (eng.runObject op self args) (eng'.runObject op self args) := by
  unfold runObject
  split
  · exact .flat trivial
  · exact .flat trivial
  · exact (abides_truthy h hs).bind fun _ _ _ _ _ => .flat trivial
  · exact .flat trivial
  · exact .flat trivial
  · exact .fault

/-- The result of a computation on plain contents. -/
theorem exists_of_map_ok {α : Type} {f : α → Value} {r : Except Cause α} {v : Value}
    (h : f <$> r = .ok v) : ∃ a, v = f a := by
  cases r with
  | ok a =>
    cases h
    exact ⟨a, rfl⟩
  | error cause => cases h

/-- Arithmetic on an integer makes a value without parts. -/
theorem flat_onInt {op : Arithmetic} {a : Int64} {v r : Value} (h : op.onInt a v = .ok r) :
    r.Flat := by
  unfold Arithmetic.onInt at h
  split at h
  · obtain ⟨n, rfl⟩ := exists_of_map_ok h
    trivial
  · obtain ⟨x, rfl⟩ := exists_of_map_ok h
    trivial
  · cases h

/-- So does arithmetic on a float. -/
theorem flat_onFloat {op : Arithmetic} {x : Float} {v r : Value} (h : op.onFloat x v = .ok r) :
    r.Flat := by
  unfold Arithmetic.onFloat at h
  split at h
  · obtain ⟨x, rfl⟩ := exists_of_map_ok h
    trivial
  · obtain ⟨x, rfl⟩ := exists_of_map_ok h
    trivial
  · cases h

/-- A number that may fail to be found. -/
theorem yields_number {r : Except Cause Value} (h : ∀ v, r = .ok v → v.Flat) :
    Yields R m (Exec.ofExcept r) (Exec.ofExcept r) :=
  Exec.obeys_ofExcept fun v hv => R.flat (h v hv)

/-- A truth value that may fail to be found. -/
theorem yields_test (r : Except Cause Bool) :
    Yields R m (Value.bool <$> Exec.ofExcept r) (Value.bool <$> Exec.ofExcept r) :=
  (Exec.obeys_ofExcept (Q := fun _ _ => True) fun _ _ => trivial).map fun _ _ _ _ _ =>
    R.flat trivial

/-- The methods of numbers and truth values stay within the regime. -/
theorem yields_runPlain (op : Operation) (self : Value) (args : List Value) :
    Yields R m (runPlain op self args) (runPlain op self args) := by
  unfold runPlain
  split <;> first
    | exact .flat trivial
    | exact yields_number fun _ => flat_onInt
    | exact yields_number fun _ => flat_onFloat
    | exact yields_test _
    | exact Exec.yields_newIterator trivial
    | exact .fault

/-- So do those of texts. -/
theorem yields_runText (op : Operation) (self : Value) (args : List Value) :
    Yields R m (runText op self args) (runText op self args) := by
  have texts : ∀ parts : List String, ∀ v ∈ parts.map Value.string, R.Holds m v := by
    intro parts v hv
    obtain ⟨s, -, rfl⟩ := List.mem_map.1 hv
    exact R.flat trivial
  -- A text, a list of texts or an iterator; only the parts of a text need to be known.
  unfold runText
  split <;> first
    | exact .flat trivial
    | exact Exec.yields_after _ fun _ => .flat trivial
    | exact Exec.yields_after _ fun _ => Exec.yields_newList (texts _)
    | exact Exec.yields_newIterator trivial
    | exact .fault

/-- So do those of lists. -/
theorem yields_runList (h : CallsBy R eng eng') (op : Operation) {self : Value}
    {args : List Value} (hs : R.Holds m self) (ha : ∀ v ∈ args, R.Holds m v) :
    Yields R m (eng.runList op self args) (eng'.runList op self args) := by
  unfold runList
  -- One case for each operation, in the order of the definition: those that write keep the
  -- contents, and those that read find known values.
  split
  · exact Exec.yields_change (R.flat trivial) rfl
      (.of_store rfl rfl rfl (.of_change _ (.listAdd _ _)))
      fun hm => (R.contents hm).listAdd _ (ha _ List.mem_cons_self)
  · refine .readBind (fun _ => rfl) fun _ => Exec.yields_after _ fun i =>
      .readBind (fun _ => rfl) fun hm => ?_
    split
    · next item hi => exact .pure fun _ => (R.contents hm).listGet? hi
    · exact .fault
  · exact .readBind (fun _ => rfl) fun _ => Exec.yields_after _ fun i =>
      Exec.yields_change (R.flat trivial) rfl
        (.of_store rfl rfl rfl (.of_change _ (.listSet _ _ _)))
        fun hm => (R.contents hm).listSet _ _ (ha _ (by simp))
  · exact .readBind (fun _ => rfl) fun _ => .flat trivial
  · refine .readBind (fun _ => rfl) fun _ => ?_
    dsimp only
    split
    · exact .raise _
    · refine .readBind (fun _ => rfl) fun hm => ?_
      split
      · exact .fault
      · next last hlast =>
        exact Exec.yields_change ((R.contents hm).listGet? hlast) rfl
          (.of_store rfl rfl rfl (.of_change _ (.listPop _))) fun hm => (R.contents hm).listPop _
  · exact .readBind (fun _ => rfl) fun _ =>
      (abides_slotsContain h _ (ha _ List.mem_cons_self) _ _).bind fun _ _ _ _ _ => .flat trivial
  · split
    · refine .readBind (fun _ => rfl) fun _ => .readBind (fun _ => rfl) fun _ => ?_
      split
      · exact (abides_listsEqual h _ _ _ _).bind fun _ _ _ _ _ => .flat trivial
      · exact .flat trivial
    · exact .flat trivial
  · exact Exec.yields_newIterator trivial
  · exact .readBind (fun _ => rfl) fun _ =>
      (abides_stringifySlots h _ _ _).bind fun _ _ _ _ _ => .flat trivial
  · exact .flat trivial
  · refine (Exec.obeys_ofExcept (Q := fun _ m' => ∀ v ∈ _, R.Holds m' v) fun _ _ =>
      R.varargs.1 hs).bind fun i _ _ _ hitems => ?_
    split
    · next item hi => exact .pure fun _ => hitems item (List.mem_of_getElem? hi)
    · exact .fault
  · exact Exec.yields_newIterator (R.varargs.1 hs)
  · exact Exec.yields_newList (R.varargs.1 hs)
  · exact (abides_stringifyAll h (R.varargs.1 hs)).bind fun _ _ _ _ _ => .flat trivial
  · exact .fault

/-- So do those of maps. -/
theorem yields_runMap (h : CallsBy R eng eng') (op : Operation) {self : Value}
    {args : List Value} (hs : R.Holds m self) (ha : ∀ v ∈ args, R.Holds m v) :
    Yields R m (eng.runMap op self args) (eng'.runMap op self args) := by
  unfold runMap
  split
  · exact Exec.yields_change (R.flat trivial) (mapSet_seenStore ..)
      (.of_store (Store.environments_mapSet ..) (Store.declared_mapSet ..)
        (Store.nextId_mapSet ..) (.of_change _ (.mapSet _ _ _)))
      fun hm => (R.contents hm).mapSet _ (ha _ (by simp)) (ha _ (by simp))
  · refine .readBind (fun _ => rfl) fun hm => ?_
    split
    · next value hv => exact .pure fun _ => (R.contents hm).mapGet? hv
    · exact .raise _
  · exact .readBind (fun _ => rfl) fun _ => .flat trivial
  · refine .readBind (fun _ => rfl) fun hm => ?_
    split
    · exact .raise _
    · next value hv =>
      exact Exec.yields_change ((R.contents hm).mapGet? hv) (mapRemove_seenStore ..)
        (.of_store (Store.environments_mapRemove ..) (Store.declared_mapRemove ..)
          (Store.nextId_mapRemove ..) (.of_change _ (.mapRemove _ _)))
        fun hm => (R.contents hm).mapRemove _ _
  · exact .readBind (fun _ => rfl) fun _ => .flat trivial
  · exact .readBind (fun _ => rfl) fun hm => Exec.yields_newList ((R.contents hm).mapKeys _)
  · exact .readBind (fun _ => rfl) fun hm => Exec.yields_newIterator ((R.contents hm).mapKeys _)
  · exact .readBind (fun _ => rfl) fun _ =>
      (abides_stringifyEntries h _ _ _ _).bind fun _ _ _ _ _ => .flat trivial
  · next id first second =>
    have parts : ∀ v ∈ [first, second], R.Holds m v := by simpa using R.pair.1 hs
    exact (abides_stringifyAll h parts).bind fun _ _ _ _ _ => .flat trivial
  · next i =>
    refine .readBind (fun _ => advance_seenStore ..) fun hm => ?_
    -- What the iterator yields, and what it is still to yield, was known before.
    have hstep := (R.contents hm).advance ((R.contents hm).iterator i)
      (fun _ => R.flat trivial) fun _ => R.flat trivial
    have moved : ∀ {c : Cursor}, c.All (R.Holds m) →
        Abides R m
          (Exec.update fun s => { s with iterators := s.iterators.set! i c })
          (Exec.update fun s => { s with iterators := s.iterators.set! i c }) := fun hc =>
      .update rfl (.of_outside rfl rfl (Nat.le_refl _) rfl rfl rfl)
        fun hm => (R.contents hm).setIterator i hc
    dsimp only
    split
    · next v next heq =>
      rw [heq] at hstep
      exact (moved hstep.2).bind fun _ _ hl _ _ => Exec.abides_freshId.bind fun _ _ hl' _ _ =>
        .pure fun _ => R.iteratorResult.2 (R.holds (R.trans hl hl') hstep.1)
    · next key value next heq =>
      rw [heq] at hstep
      refine (moved hstep.2.2).bind fun _ _ hl _ _ => Exec.abides_freshId.bind fun _ _ hl' _ _ =>
        Exec.abides_freshId.bind fun _ _ hl'' _ _ => .pure fun _ => ?_
      have later := R.trans hl (R.trans hl' hl'')
      exact R.iteratorResult.2 (R.pair.2 ⟨R.holds later hstep.1, R.holds later hstep.2.1⟩)
    · exact (moved (c := .done) trivial).bind fun _ _ _ _ _ => Exec.abides_freshId.bind
        fun _ _ _ _ _ => .pure fun _ => R.iteratorResult.2 (R.flat trivial)
  · exact .flat trivial
  · exact .fault

/-- So do all native methods. -/
theorem yields_run (h : CallsBy R eng eng') (op : Operation) {self : Value}
    {args : List Value} (hs : R.Holds m self) (ha : ∀ v ∈ args, R.Holds m v) :
    Yields R m (eng.run op self args) (eng'.run op self args) := by
  unfold run
  split <;> first
    | exact yields_runObject h _ hs _
    | exact yields_runText _ _ _
    | exact yields_runList h _ hs ha
    | exact yields_runMap h _ hs ha
    | exact yields_runPlain _ _ _

/-- Printing leaves the regime alone. -/
theorem abides_printLine (line : String) : Abides R m (printLine line) (printLine line) := by
  refine .getBind (fun _ => rfl) fun _ => ?_
  split
  · exact .raise _
  · refine .modifyGet (fun _ => rfl) fun hm => ?_
    have hq : m.Quiet { m with output.text := m.output.text ++ line ++ "\n" } :=
      ⟨rfl, rfl, Nat.le_refl _, .refl, rfl, rfl, rfl, rfl, rfl, rfl⟩
    obtain ⟨hm', hl⟩ := R.quiet hm hq (R.contents hm)
    exact ⟨hl, hm', trivial⟩

/-- Native functions stay within the regime. -/
theorem yields_runFunction (h : CallsBy R eng eng') (fn : NativeFunction) {args : List Value}
    (ha : ∀ v ∈ args, R.Holds m v) :
    Yields R m (eng.runFunction fn args) (eng'.runFunction fn args) := by
  unfold runFunction
  split
  · exact (abides_stringifyAll h (R.varargs.1 (ha _ List.mem_cons_self))).bind fun _ _ _ _ _ =>
      (abides_printLine _).bind fun _ _ _ _ _ => .flat trivial
  · exact .getBind (fun _ => rfl) fun _ => .flat trivial
  · exact .flat trivial
  · exact .fault

/-- Objects of native classes are made within it. -/
theorem yields_construct (cls : NativeClass) {args : List Value}
    (ha : ∀ v ∈ args, R.Holds m v) :
    Yields R m (construct cls args) (construct cls args) := by
  unfold construct
  -- Lists, maps, pairs and iterator results; the other classes have no objects of their own.
  split
  · exact Exec.yields_newList (R.varargs.1 (ha _ List.mem_cons_self))
  · exact (Obeys.allocate rfl (.of_store rfl rfl rfl (.of_change _ .newMap))
      fun hm => (R.contents hm).newMap).bind fun _ _ _ _ _ => .flat trivial
  · exact Exec.abides_freshId.bind fun _ _ hl _ _ => .pure fun _ =>
      R.pair.2 ⟨R.holds hl (ha _ (by simp)), R.holds hl (ha _ (by simp))⟩
  · split
    · exact Exec.abides_freshId.bind fun _ _ hl _ _ => .pure fun _ =>
        R.iteratorResult.2 (R.holds hl (ha _ (by simp)))
    · exact .raise _
  · exact .raise _

/-- The arguments that native code gets are known. -/
theorem obeys_nativeArguments {slots : List (Slot Value)}
    (hslots : ∀ s ∈ slots, s.All (R.Holds m)) :
    Obeys R m (nativeArguments slots) (nativeArguments slots) fun vs m' =>
      ∀ v ∈ vs, R.Holds m' v := by
  induction slots generalizing m with
  | nil => exact .pure fun _ => List.forall_mem_nil _
  | cons slot rest ih =>
    obtain ⟨hfirst, hrest⟩ := List.forall_mem_cons.1 hslots
    cases slot with
    | omitted => exact .fault
    | given v =>
      exact (ih hrest).bind fun vs _ hl _ hvs => .pure fun _ =>
        List.forall_mem_cons.2 ⟨R.holds hl hfirst, hvs⟩
    | collected vs =>
      -- A variadic parameter collects its arguments in a value of their own.
      refine Exec.abides_freshId.bind fun id _ hl _ _ => ?_
      have hrest' : ∀ s ∈ rest, s.All (R.Holds _) := fun s hs =>
        Slot.All.mono (fun _ => R.holds hl) (hrest s hs)
      exact (ih hrest').bind fun ws _ hl' _ hws => .pure fun _ =>
        List.forall_mem_cons.2 ⟨R.varargs.2 fun v hv => R.holds (R.trans hl hl') (hfirst v hv), hws⟩

/-! ### Operators -/

/-- An operand is asked something about the other one, and the step goes on with the answer. -/
theorem yields_asking (h : CallsBy R eng eng') (op : Token) {left right : Value}
    (name : String) (hl : R.Holds m left) (hr : R.Holds m right) {f g : Bool → Exec Value}
    (hf : ∀ t m', R.Later m m' → Yields R m' (f t) (g t)) :
    Yields R m (do f (← eng.condition op (← eng.send op left name [right])))
      (do g (← eng'.condition op (← eng'.send op left name [right]))) :=
  (yields_send h op name hl (List.forall_mem_singleton.2 hr)).bind fun _ _ hl' _ hv =>
    (abides_condition h op hv).bind fun t m' hl'' _ _ => hf t m' (R.trans hl' hl'')

/-- Operators on known values have known results. -/
theorem yields_operate (h : CallsBy R eng eng') (op : Token) {left right : Value}
    (hl : R.Holds m left) (hr : R.Holds m right) :
    Yields R m (eng.operate op left right) (eng'.operate op left right) := by
  have hargs : ∀ v ∈ [right], R.Holds m v := List.forall_mem_singleton.2 hr
  unfold operate
  split
  · exact yields_send h op _ hl hargs
  · split
    · exact (yields_send h op _ hl hargs).bind fun _ _ _ _ hv =>
        yields_send h op _ hv (List.forall_mem_nil _)
    · exact yields_asking h op _ hl hr fun _ _ _ => .flat trivial
    · -- The comparison with equality asks twice, and the operands are still known the second time.
      refine yields_asking h op _ hl hr fun greater m' hlater => ?_
      cases greater
      · exact yields_asking h op _ (R.holds hlater hl) (R.holds hlater hr) fun _ _ _ =>
          .flat trivial
      · exact .flat trivial
    · refine yields_asking h op _ hl hr fun greater m' hlater => ?_
      cases greater
      · exact yields_asking h op _ (R.holds hlater hl) (R.holds hlater hr) fun _ _ _ =>
          .flat trivial
      · exact .flat trivial
    · exact .fault

end Engine

end ClassScript
