import ClassScript.Proofs.Machine.Bookkeeping
import ClassScript.Proofs.Machine.Watch
import ClassScript.Proofs.Parse.Yields

/-!
# The resolver and the machine agree

Programs are read, resolved and run one after the other, on one resolver and one machine. Between
them the machine stays sound for everything that has been resolved, so that every use of a name
arrives at a scope that was made for the syntax that the resolver counted to, also in a function
that an earlier program made.
-/

namespace ClassScript

open Scope

/-! ### New machines -/

/-- Globals without functions of a program are sound. -/
theorem Store.Sound.defineAll {L : Ledger} {α : Type} (name : α → String) (value : α → Value)
    (as : List α) {es : Environments} (hname : ∀ a ∈ as, name a ≠ "super")
    (hvalue : ∀ a ∈ as, ∀ es, (value a).Sound L es) (h : Store.Sound L { environments := es }) :
    Store.Sound L
      { environments := as.foldl (fun es a => es.define globalScope (name a) (value a)) es } := by
  induction as generalizing es with
  | nil => exact h
  | cons a rest ih =>
    refine ih (fun b hb => hname b (List.mem_cons_of_mem _ hb))
      (fun b hb => hvalue b (List.mem_cons_of_mem _ hb)) ?_
    exact h.assign (hvalue a List.mem_cons_self _) fun e => absurd e (hname a List.mem_cons_self)

/-- A machine on which nothing has run is sound. -/
theorem sound_initial (L : Ledger) : Machine.initial.store.Sound L := by
  -- There is one scope without names, so only the natives have to be looked at.
  have hempty : Store.Sound L { environments := ({} : Environments).push .globals none } := by
    refine ⟨fun i name v hv => ?_, fun i v hv => ?_, ?_, List.forall_mem_nil _, .empty _⟩
    · rw [Environments.bindings_push] at hv
      simp [Environments.bindings] at hv
    · rw [Environments.bindings_push] at hv
      simp [Environments.bindings] at hv
    · simp
  have hclasses := Store.Sound.defineAll NativeClass.name .nativeClass NativeClass.all
    (by decide) (fun c _ _ => .nativeClass c) hempty
  exact Store.Sound.defineAll NativeFunction.name .nativeFunction NativeFunction.all
    (by decide) (fun f _ _ => .nativeFunction f) hclasses

/-! ### Further distances -/

/-- Entries that do not name a node say nothing of it. -/
theorem getElem?_foldl_insert_of_notMem {id : NodeId} (entries : List (NodeId × Nat))
    (ds : Distances) (h : ∀ d, (id, d) ∉ entries) :
    (entries.foldl (fun acc e => acc.insert e.1 e.2) ds)[id]? = ds[id]? := by
  induction entries generalizing ds with
  | nil => rfl
  | cons e rest ih =>
    have hne : e.1 ≠ id := by
      rintro rfl
      exact h e.2 List.mem_cons_self
    rw [List.foldl_cons, ih _ fun d hd => h d (List.mem_cons_of_mem _ hd),
      Std.TreeMap.getElem?_insert]
    simp [hne]

/-- Entries that agree on a node say what they agree on. -/
theorem getElem?_foldl_insert_of_mem {id : NodeId} {d : Nat} (entries : List (NodeId × Nat))
    (ds : Distances) (hall : ∀ d', (id, d') ∈ entries → d' = d)
    (h : ds[id]? = some d ∨ (id, d) ∈ entries) :
    (entries.foldl (fun acc e => acc.insert e.1 e.2) ds)[id]? = some d := by
  induction entries generalizing ds with
  | nil => exact h.resolve_right List.not_mem_nil
  | cons e rest ih =>
    refine ih _ (fun d' hd' => hall d' (List.mem_cons_of_mem _ hd')) ?_
    obtain ⟨id', d'⟩ := e
    -- The entry is one of the node: then it is the last word so far.
    by_cases hid : id' = id
    · subst hid
      left
      rw [hall d' List.mem_cons_self, Std.TreeMap.getElem?_insert_self]
    · rcases h with h | h
      · left
        rw [Std.TreeMap.getElem?_insert]
        simpa [hid] using h
      · right
        rcases List.mem_cons.1 h with h | h
        · cases h
          exact absurd rfl hid
        · exact h

/-- After further distances were added, they hold. -/
theorem Machine.getElem?_addDistances (m : Machine) {ds : Distances}
    (hsub : ∀ (id : NodeId) d, m.distances[id]? = some d → ds[id]? = some d) (id : NodeId) :
    (m.addDistances ds).distances[id]? = ds[id]? := by
  unfold Machine.addDistances
  dsimp only
  rw [Std.TreeMap.foldl_eq_foldl_toList]
  -- No distance is added for the node, and it had none.
  cases hd : ds[id]? with
  | none =>
    rw [getElem?_foldl_insert_of_notMem]
    · cases hm : m.distances[id]? with
      | none => rfl
      | some d => rw [← hd, hsub id d hm]
    · intro d hmem
      rw [Std.TreeMap.mem_toList_iff_getElem?_eq_some, hd] at hmem
      cases hmem
  | some d =>
    refine getElem?_foldl_insert_of_mem _ _ (fun d' hmem => ?_) (.inr ?_)
    · rw [Std.TreeMap.mem_toList_iff_getElem?_eq_some, hd] at hmem
      exact (Option.some.inj hmem).symm
    · rw [Std.TreeMap.mem_toList_iff_getElem?_eq_some, hd]

/-! ### Histories -/

/-- Sources that are dealt with one after the other. They lead to the first node identity that is
not used yet, the resolver, and the machine. -/
inductive History : NodeId → Resolver → Machine → Prop where
  /-- Nothing has happened yet. -/
  | start (n : NodeId) : History n {} .initial
  /-- A source was read and resolved, nothing was wrong with its names, and it was run. -/
  | run {n : NodeId} {r r' : Resolver} {m : Machine} (h : History n r m) (source : String)
      (hr : r.run (Parse.source source n).program = ([], r')) (fuel : Nat) :
    History (Parse.source source n).nextId r'
      ((m.addDistances r'.distances).interpret fuel (Parse.source source n).program).2
  /-- A source was read and resolved, and not run. -/
  | resolve {n : NodeId} {r : Resolver} {m : Machine} (h : History n r m) (source : String) :
    History (Parse.source source n).nextId (r.run (Parse.source source n).program).2 m
  /-- A source was read only. -/
  | read {n : NodeId} {r : Resolver} {m : Machine} (h : History n r m) (source : String) :
    History (Parse.source source n).nextId r m
  /-- The bound on the active calls, the output or the time was changed. -/
  | adjust {n : NodeId} {r : Resolver} {m : Machine} (h : History n r m) (maxDepth : Int)
      (output : Output) (now : Float) : History n r { m with maxDepth, output, now }

/-- What lasts from source to source. -/
structure Prepared (n : Nat) (r : Resolver) (m : Machine) : Prop where
  /-- The resolver is outside of all scopes. -/
  resolver : r.Ready
  /-- Nothing is recorded for nodes that are still to come. -/
  fresh : ∀ id : NodeId, n ≤ id → r.distances[id]? = none ∧ r.targets[id]? = none
  /-- The machine is in the outermost scope. -/
  idle : m.Idle
  /-- The store is sound for what was resolved. -/
  store : m.store.Sound ⟨r.tables, n⟩
  /-- The machine has no other distances than the resolver. -/
  distances : ∀ (id : NodeId) d, m.distances[id]? = some d → r.distances[id]? = some d

namespace Prepared

variable {n : NodeId} {r : Resolver} {m : Machine}

/-- At the start nothing is resolved, and the machine is sound. -/
theorem start (n : NodeId) : Prepared n {} .initial where
  resolver := Resolver.ready_empty
  fresh _ _ := ⟨rfl, rfl⟩
  idle := ⟨rfl, rfl, rfl⟩
  store := sound_initial _
  distances _ _ h := by simp [Machine.initial] at h

/-- The uses of a source belong to its own nodes. -/
theorem id_range (source : String) {id : NodeId}
    (h : id ∈ (Stmt.usesOf [] (Parse.source source n).program).map Use.id) :
    n ≤ id ∧ (Parse.source source n).nextId > id := by
  obtain ⟨u, hu, rfl⟩ := List.mem_map.1 h
  have hmem := (Stmt.withinOf [] (Parse.source source n).program).mem hu
  obtain ⟨node, hnode, e⟩ := List.mem_map.1 hmem
  rw [← e]
  exact (Parse.formed_source source n).range node hnode

/-- The nodes of a source get numbers from the given one on. -/
theorem le_nextId (n : NodeId) (source : String) : n ≤ (Parse.source source n).nextId :=
  (Parse.formed_source source n).le

/-- A source is read. -/
theorem read (h : Prepared n r m) (source : String) :
    Prepared (Parse.source source n).nextId r m :=
  { h with
    fresh := fun id hid => h.fresh id (Nat.le_trans (le_nextId n source) hid)
    store := h.store.extended ⟨le_nextId n source, fun _ _ => ⟨rfl, rfl⟩⟩ }

/-- Resolving a source leaves the nodes of other sources alone. -/
theorem same_outside (h : Prepared n r m) (source : String) {id : NodeId}
    (hid : ¬(n ≤ id ∧ (Parse.source source n).nextId > id)) :
    (r.run (Parse.source source n).program).2.tables.Same r.tables id :=
  Resolver.run_same h.resolver _ fun hmem => hid (id_range source hmem)

/-- A source is read and resolved. Nothing changes for earlier nodes, whether or not something is
wrong with the source. -/
theorem resolve (h : Prepared n r m) (source : String) :
    Prepared (Parse.source source n).nextId (r.run (Parse.source source n).program).2 m := by
  refine ⟨Resolver.ready_run h.resolver _, fun id hid => ?_, h.idle, ?_, fun id d hd => ?_⟩
  · obtain ⟨hd, ht⟩ := h.same_outside source fun hr => absurd hid (Nat.not_le_of_lt hr.2)
    have hfresh := h.fresh id (Nat.le_trans (le_nextId n source) hid)
    exact ⟨hd.trans hfresh.1, ht.trans hfresh.2⟩
  · refine h.store.extended ⟨le_nextId n source, fun id hid => ?_⟩
    exact h.same_outside source fun hr => absurd hr.1 (Nat.not_le_of_lt hid)
  · have hr := h.distances id d hd
    -- A node with a distance belongs to an earlier source.
    refine (h.same_outside source fun hrange => ?_).1.trans hr
    rw [(h.fresh id hrange.1).1] at hr
    cases hr

/-- A source without anything wrong is settled. -/
theorem settled (h : Prepared n r m) (source : String) {r' : Resolver}
    (hr : r.run (Parse.source source n).program = ([], r')) :
    Ledger.Settled ⟨r'.tables, (Parse.source source n).nextId⟩
      (Stmt.usesOf [] (Parse.source source n).program)
      (Stmt.nodesOf everywhere (Parse.source source n).program) := by
  have hformed := Parse.formed_source source n
  have hnodup := (Stmt.withinOf [] (Parse.source source n).program).nodup hformed.nodup
  have hreports : (r.run (Parse.source source n).program).1 = [] := by rw [hr]
  refine ⟨fun u hu => ?_, hformed.proper⟩
  have hid := id_range source (List.mem_map_of_mem hu)
  refine ⟨hid.2, ?_, Resolver.run_known h.resolver hreports u hu⟩
  have hholds := Resolver.run_holds h.resolver hreports hnodup
    (fun v hv => h.fresh v.id (id_range source (List.mem_map_of_mem hv)).1) hu
  rwa [hr] at hholds

/-- The machine with the distances of a source that is about to run is sound. -/
theorem sound (h : Prepared n r m) (source : String) {r' : Resolver}
    (hr : r.run (Parse.source source n).program = ([], r')) :
    (m.addDistances r'.distances).Sound ⟨r'.tables, (Parse.source source n).nextId⟩ := by
  have h' := h.resolve source
  rw [hr] at h'
  exact ⟨h'.store, m.getElem?_addDistances h'.distances⟩

/-- A source is read, resolved and run. -/
theorem run (h : Prepared n r m) (source : String) {r' : Resolver}
    (hr : r.run (Parse.source source n).program = ([], r')) (fuel : Nat) :
    Prepared (Parse.source source n).nextId r'
      ((m.addDistances r'.distances).interpret fuel (Parse.source source n).program).2 := by
  have h' := h.resolve source
  rw [hr] at h'
  have hidle : (m.addDistances r'.distances).Idle := ⟨h.idle.scope, h.idle.frames, h.idle.site⟩
  have hagree := agree_watched ⟨r'.tables, (Parse.source source n).nextId⟩ (fun _ => Exec.fault) fuel
  have hdone := ((h.sound source hr).interpretBy hagree h.idle.scope (h.settled source hr)).2
  refine ⟨h'.resolver, h'.fresh, hidle.interpret fuel _, hdone.store, fun id d hd => ?_⟩
  exact (hdone.distances id).symm.trans hd

end Prepared

/-- Every history leaves the machine sound for all that was resolved. -/
theorem History.prepared {n : NodeId} {r : Resolver} {m : Machine} (h : History n r m) :
    Prepared n r m := by
  induction h with
  | start n => exact .start n
  | run _ source hr fuel ih => exact ih.run source hr fuel
  | resolve _ source ih => exact ih.resolve source
  | read _ source ih => exact ih.read source
  | adjust _ maxDepth output now ih =>
    exact { ih with idle := ⟨ih.idle.scope, ih.idle.frames, ih.idle.site⟩ }

/-- The resolver and the machine agree on scopes. After any history, when a source is resolved
without anything wrong, its run is the same whether or not it is watched, and whatever the alarm
would do: no use of a name, in this source or in a function of an earlier one, ever misses the
scope that the resolver counted to. -/
theorem uses_reach_scopes {n : NodeId} {r r' : Resolver} {m : Machine} (h : History n r m)
    (source : String) (hr : r.run (Parse.source source n).program = ([], r'))
    (alarm : Expr → Exec Value) (fuel : Nat) :
    (m.addDistances r'.distances).interpretBy (watched r'.targets alarm fuel)
        (Parse.source source n).program =
      (m.addDistances r'.distances).interpret fuel (Parse.source source n).program := by
  have hp := h.prepared
  have hagree := agree_watched ⟨r'.tables, (Parse.source source n).nextId⟩ alarm fuel
  exact ((hp.sound source hr).interpretBy hagree hp.idle.scope (hp.settled source hr)).1

/-- A function that counts in a variable of the block around it, on a new machine. -/
theorem uses_reach_scopes_counter : ∃ r' : Resolver,
    ({} : Resolver).run (Parse.source
      "\x7b var a = 1; fun f() \x7b a = a + 1; return a \x7d f() \x7d" 0).program = ([], r') ∧
    (Machine.initial.addDistances r'.distances).interpretBy
        (watched r'.targets (fun _ => Exec.fault) 20) (Parse.source
      "\x7b var a = 1; fun f() \x7b a = a + 1; return a \x7d f() \x7d" 0).program =
      (Machine.initial.addDistances r'.distances).interpret 20 (Parse.source
        "\x7b var a = 1; fun f() \x7b a = a + 1; return a \x7d f() \x7d" 0).program := by
  have hresolved : ({} : Resolver).run (Parse.source
      "\x7b var a = 1; fun f() \x7b a = a + 1; return a \x7d f() \x7d" 0).program = ([], _) :=
    Prod.ext (List.isEmpty_iff.1 (by decide +kernel)) rfl
  exact ⟨_, hresolved, uses_reach_scopes (.start 0) _ hresolved _ 20⟩

end ClassScript
