import ClassScript.Proofs.Machine.Enclosed
import ClassScript.Proofs.Machine.History
import ClassScript.Proofs.Machine.Homes

/-!
# The method a call refers to is the one around the code

A guarded engine looks at every expression and statement before it runs: the innermost call has to
refer to the method around the code, whatever the call is and whenever the function was made. Where
the superclasses are used there has to be such a method, and using them without a name has to be
like using them with its name. On the programs of a history the guard never does anything.
-/

namespace ClassScript

open Scope

/-! ### Guarded engines -/

/-- What has to be the case when an expression was evaluated on a machine with some outcome. The
innermost call refers to the method around the expression. A use of the superclasses lies in a
method, always knows which method it is about, and is about the method around it if it has no name
of its own. -/
def InPlace (S : List Site) (m : Machine) (r : EStateM.Result Interrupt Machine Value) (e : Expr) :
    Prop :=
  ∃ s ∈ S, s.node = .expr e ∧ m.home = homeOf s.around ∧
    ∀ id keyword method, e = .super id keyword method → ∃ d, s.around = some d ∧
      (∀ m', r ≠ .error (.located ⟨keyword, .superName⟩) m') ∧
      (method = none → ∀ name : Token, name.lexeme = d.title →
        r = evaluateSuper id keyword (some name) m)

open Classical in
/-- The machine's execution, with another engine for code in front of which the innermost call does
not refer to the method around it. -/
noncomputable def guarded (S : List Site) (alarm : Engine) : Nat → Engine
  | 0 => engine 0
  | levels + 1 =>
    { fuel := levels
      evaluate := fun e m =>
        let r := (guarded S alarm levels).evaluateWith e m
        if InPlace S m r e then r else alarm.evaluate e m
      execute := fun s m =>
        if ∃ site ∈ S, site.node = .stmt s ∧ m.home = homeOf site.around then
          (guarded S alarm levels).executeWith s m
        else alarm.execute s m
      invoke := fun site callee positional named =>
        (guarded S alarm levels).invokeWith site callee positional named }

/-! ### Superclasses -/

/-- Superclasses are found, or the error says that there are none here. -/
theorem evaluateSuper_cases (m : Machine) (id : NodeId) (keyword : Token) :
    (∀ method, evaluateSuper id keyword method m =
        .error (.located ⟨keyword, .superHere⟩) m) ∨
      ∃ d supers, m.distances[id]? = some d ∧
        m.store.environments.getAt? m.scope d "super" = some (.superclasses supers) := by
  by_cases hfound : ∃ d supers, m.distances[id]? = some d ∧
      m.store.environments.getAt? m.scope d "super" = some (.superclasses supers)
  · exact .inr hfound
  · left
    -- Whatever is missing, a distance, a scope or superclasses in it, the error is the same.
    intro method
    unfold evaluateSuper
    rw [Exec.bind_apply]
    dsimp only [MonadState.get, getThe, MonadStateOf.get, EStateM.get]
    cases hd : m.distances[id]? with
    | none => rfl
    | some d =>
      cases hv : m.store.environments.getAt? m.scope d "super" with
      | none =>
        simp only [hv]
        rfl
      | some v =>
        simp only [hv]
        cases v with
        | superclasses supers => exact absurd ⟨d, supers, hd, hv⟩ hfound
        | _ => rfl

/-- Without a name the method of the innermost call is meant. -/
theorem evaluateSuper_home {m : Machine} (id : NodeId) (keyword : Token) {name : Token}
    (h : name.lexeme = m.home) :
    evaluateSuper id keyword none m = evaluateSuper id keyword (some name) m := by
  have hhome : Exec.home m = .ok name.lexeme m := by
    rw [h]
    rfl
  -- Either both fail in the same way, or both look the same method up.
  rcases evaluateSuper_cases m id keyword with herror | ⟨d, supers, hd, hsupers⟩
  · rw [herror none, herror (some name)]
  · unfold evaluateSuper
    rw [Exec.bind_apply, Exec.bind_apply]
    dsimp only [MonadState.get, getThe, MonadStateOf.get, EStateM.get]
    simp only [hd, hsupers]
    rw [Exec.bind_apply, Exec.bind_apply, hhome]
    rfl

/-- A use of the superclasses that knows its method is not missing one. -/
theorem evaluateSuper_ne_superName {m : Machine} (id : NodeId) (keyword : Token)
    {method : Option Token} (h : (method.map Token.lexeme).getD m.home ≠ "") (m' : Machine) :
    evaluateSuper id keyword method m ≠ .error (.located ⟨keyword, .superName⟩) m' := by
  have hhome : Exec.home m = .ok m.home m := rfl
  rcases evaluateSuper_cases m id keyword with herror | ⟨d, supers, hd, hsupers⟩
  · rw [herror method]
    nofun
  · unfold evaluateSuper
    rw [Exec.bind_apply]
    dsimp only [MonadState.get, getThe, MonadStateOf.get, EStateM.get]
    simp only [hd, hsupers]
    rw [Exec.bind_apply, hhome]
    dsimp only
    rw [if_neg h]
    -- Every branch that is left raises another error, or none.
    cases m.store.environments.getAt? m.scope (d - 1) "self" with
    | none => nofun
    | some self =>
      cases Class.hierarchy.lookupSupers ((method.map Token.lexeme).getD m.home) supers with
      | found fn depth => nofun
      | ambiguous branches => nofun
      | absent =>
        cases NativeClass.object.ownMethod? ((method.map Token.lexeme).getD m.home) with
        | some nm => nofun
        | none => nofun

/-! ### Agreement -/

section Agreement

variable {S : List Site} {m : Machine} {eng eng' : Engine}

/-- On a machine that refers to the method around an expression, the expression is in place. -/
theorem inPlace_evaluateWith (eng : Engine) {s : Site} {e : Expr} (hs : s ∈ S) (hnamed : s.Named)
    (hnode : s.node = .expr e) (hhome : m.home = homeOf s.around) :
    InPlace S m (eng.evaluateWith e m) e := by
  refine ⟨s, hs, hnode, hhome, ?_⟩
  -- Only a use of a superclass has anything left to show.
  rintro id keyword method rfl
  obtain ⟨d, hd, htitle, hmethod⟩ := hnamed id keyword method hnode
  have htitled : m.home = d.title := by
    rw [hhome, hd]
    rfl
  have hname : (method.map Token.lexeme).getD m.home ≠ "" := by
    cases method with
    | none => exact htitled ▸ htitle
    | some name => exact hmethod name rfl
  refine ⟨d, hd, evaluateSuper_ne_superName id keyword hname, ?_⟩
  rintro rfl name hlexeme
  exact evaluateSuper_home id keyword (hlexeme.trans htitled.symm)

/-- Guarding an engine changes nothing where functions refer to the method around their code. -/
theorem agreeAt_guarded (hS : ∀ s ∈ S, s.Named) (alarm : Engine) (levels : Nat) :
    Engine.AgreeAt S (engine levels) (guarded S alarm levels) := by
  induction levels with
  | zero =>
    constructor
    · exact ⟨fun {_} _ {_ _ _} _ _ _ => .throw _⟩
    · rfl
    · exact fun _ _ _ => .throw _
    · exact fun _ _ _ => .throw _
  | succ levels ih =>
    constructor
    · exact ⟨fun {_} site {_ _ _} hc hp hn => Engine.supplies_invokeWith ih site hc hp hn⟩
    · rfl
    · intro e around he
      have h := Engine.supplies_evaluateWith ih e he
      refine { h with same := fun {m} hm => ?_ }
      -- The expression has a place in the list, and the innermost call refers to the method around
      -- it.
      obtain ⟨s, hs, hnode, haround⟩ := e.exists_site around
      have hplace := inPlace_evaluateWith (guarded S alarm levels) (he hs) (hS s (he hs)) hnode
        (haround ▸ hm.home)
      dsimp only [guarded, engine]
      rw [if_pos hplace]
      exact h.same hm
    · intro s around hs
      have h := Engine.stays_executeWith ih s hs
      refine { h with same := fun {m} hm => ?_ }
      obtain ⟨site, hsite, hnode, haround⟩ := s.exists_site around
      have hplace : ∃ site ∈ S, site.node = .stmt s ∧ m.home = homeOf site.around :=
        ⟨site, hs hsite, hnode, haround ▸ hm.home⟩
      -- So the guard lets the expression pass.
      dsimp only [guarded, engine]
      rw [if_pos hplace]
      exact h.same hm

/-- A whole program outside of all calls. -/
theorem Machine.At.interpretBy (h : Engine.AgreeAt S eng eng') {program : List Stmt}
    (hm : m.At (Lexical S) "") (hp : Stmt.sitesOf none program ⊆ S) :
    m.interpretBy eng' program = m.interpretBy eng program ∧
      (m.interpretBy eng program).2.store.Meets (Lexical S) := by
  induction program generalizing m with
  | nil => exact ⟨rfl, hm.store⟩
  | cons s rest ih =>
    obtain ⟨hfirst, hrest⟩ := List.append_subset.1 hp
    have hstep := h.execute s none hfirst
    unfold Machine.interpretBy
    rw [hstep.same hm]
    cases hr : eng.execute s m with
    | ok c m' => exact ih (hstep.ok hm hr).2.1 hrest
    | error e m' =>
      -- An error ends the program.
      obtain ⟨-, hm'⟩ := hstep.error hm hr
      refine ⟨rfl, ?_⟩
      dsimp only
      split <;> exact hm'.store

end Agreement

/-! ### Histories -/

/-- Sources that are dealt with one after the other, with the statements of those that were run.
A source is run only if it was read and resolved without errors. -/
inductive Chronicle : NodeId → Resolver → Machine → List Stmt → Prop where
  /-- Nothing has happened yet. -/
  | start (n : NodeId) : Chronicle n {} .initial []
  /-- A source was read, resolved and run. -/
  | run {n : NodeId} {r r' : Resolver} {m : Machine} {past : List Stmt}
    (h : Chronicle n r m past) (source : String) (hc : (Parse.source source n).errors = [])
    (hr : r.run (Parse.source source n).program = ([], r')) (fuel : Nat) :
    Chronicle (Parse.source source n).nextId r'
      ((m.addDistances r'.distances).interpret fuel (Parse.source source n).program).2
      (past ++ (Parse.source source n).program)
  /-- A source was read and resolved, and not run. -/
  | resolve {n : NodeId} {r : Resolver} {m : Machine} {past : List Stmt}
    (h : Chronicle n r m past) (source : String) :
    Chronicle (Parse.source source n).nextId (r.run (Parse.source source n).program).2 m past
  /-- A source was read only. -/
  | read {n : NodeId} {r : Resolver} {m : Machine} {past : List Stmt}
    (h : Chronicle n r m past) (source : String) :
    Chronicle (Parse.source source n).nextId r m past
  /-- The bound on the active calls, the output or the time was changed. -/
  | adjust {n : NodeId} {r : Resolver} {m : Machine} {past : List Stmt}
    (h : Chronicle n r m past) (maxDepth : Int) (output : Output) (now : Float) :
    Chronicle n r { m with maxDepth, output, now } past

/-- A chronicle is a history, with the statements besides. -/
theorem Chronicle.history {n : NodeId} {r : Resolver} {m : Machine} {past : List Stmt}
    (h : Chronicle n r m past) : History n r m := by
  induction h with
  | start n => exact .start n
  | run _ source _ hr fuel ih => exact ih.run source hr fuel
  | resolve _ source ih => exact ih.resolve source
  | read _ source ih => exact ih.read source
  | adjust _ maxDepth output now ih => exact ih.adjust maxDepth output now

/-- Globals without functions of a program meet every condition. -/
theorem Store.Meets.defineAll {P : Condition} {α : Type} (name : α → String) (value : α → Value)
    (as : List α) {es : Environments} (hvalue : ∀ a ∈ as, (value a).Meets P)
    (h : Store.Meets P { environments := es }) :
    Store.Meets P
      { environments := as.foldl (fun es a => es.define globalScope (name a) (value a)) es } := by
  induction as generalizing es with
  | nil => exact h
  | cons a rest ih =>
    obtain ⟨hfirst, hrest⟩ := List.forall_mem_cons.1 hvalue
    exact ih hrest (h.assign globalScope (name a) hfirst)

/-- A machine on which nothing has run meets every condition. -/
theorem meets_initial (P : Condition) : Machine.initial.store.Meets P := by
  have hempty : Store.Meets P { environments := ({} : Environments).push .globals none } := by
    refine ⟨fun i name v hv => ?_, .empty _⟩
    rw [Environments.bindings_push] at hv
    simp [Environments.bindings] at hv
  have hclasses := Store.Meets.defineAll NativeClass.name .nativeClass NativeClass.all
    (fun c _ => .nativeClass c) hempty
  exact Store.Meets.defineAll NativeFunction.name .nativeFunction NativeFunction.all
    (fun f _ => .nativeFunction f) hclasses

/-- More places give room for more functions. -/
theorem Lexical.mono {S S' : List Site} (h : S ⊆ S') (fn : Lambda) (home : String)
    (hfn : Lexical S fn home) : Lexical S' fn home := by
  obtain ⟨outer, inner, houter, hinner, hsites⟩ := hfn
  exact ⟨outer, inner, houter, hinner, List.Subset.trans hsites h⟩

/-- What lasts from source to source. -/
structure Recorded (n : NodeId) (r : Resolver) (m : Machine) (past : List Stmt) : Prop where
  /-- Every function refers to the method around its code. -/
  store : m.store.Meets (Lexical (Stmt.sitesOf none past))
  /-- Superclasses are used in methods with names, and recorded with the classes of these. -/
  resolved : ∀ s ∈ Stmt.sitesOf none past, s.Resolved r.targets
  /-- The nodes of the past have identities that are used up. -/
  below : ∀ node ∈ Stmt.nodesOf everywhere past, n > node.id
  /-- No two nodes of the past have one identity. -/
  nodup : ((Stmt.nodesOf everywhere past).map Node.id).Nodup

namespace Recorded

variable {n : NodeId} {r r' : Resolver} {m : Machine} {past : List Stmt}

/-- At the start nothing was run. -/
theorem start (n : NodeId) : Recorded n {} .initial [] where
  store := meets_initial _
  resolved := List.forall_mem_nil _
  below := List.forall_mem_nil _
  nodup := .nil

/-- A source is read. -/
theorem read (h : Recorded n r m past) (source : String) :
    Recorded (Parse.source source n).nextId r m past :=
  { h with
    below := fun node hnode => Nat.lt_of_lt_of_le (h.below node hnode)
      (Prepared.le_nextId n source) }

/-- Resolving a source changes nothing for the places of the past. -/
theorem still (h : Recorded n r m past) (hp : Prepared n r m) (source : String) :
    ∀ s ∈ Stmt.sitesOf none past,
      s.Resolved (r.run (Parse.source source n).program).2.targets := by
  intro s hs
  have hnode : s.node ∈ Stmt.nodesOf everywhere past := by
    rw [← Stmt.nodes_sitesOf none past]
    exact List.mem_map_of_mem hs
  have hbelow : n > s.node.id := h.below s.node hnode
  have hsame := hp.same_outside source fun hr => absurd hr.1 (Nat.not_le_of_lt hbelow)
  exact (h.resolved s hs).same hsame.2

/-- A source is read and resolved. -/
theorem resolve (h : Recorded n r m past) (hp : Prepared n r m) (source : String) :
    Recorded (Parse.source source n).nextId (r.run (Parse.source source n).program).2 m past :=
  { h.read source with resolved := h.still hp source }

/-- The places of a source behind those of the past. -/
theorem subset_past (past program : List Stmt) :
    Stmt.sitesOf none past ⊆ Stmt.sitesOf none (past ++ program) := by
  rw [Stmt.sitesOf_append]
  exact List.subset_append_left ..

/-- A source that is about to run is recorded with the past. -/
theorem append (h : Recorded n r m past) (hp : Prepared n r m) (source : String)
    (hc : (Parse.source source n).errors = [])
    (hr : r.run (Parse.source source n).program = ([], r')) :
    Recorded (Parse.source source n).nextId r' (m.addDistances r'.distances)
      (past ++ (Parse.source source n).program) := by
  have hformed := Parse.formed_source source n
  have hold := h.still hp source
  rw [hr] at hold
  have hnew : ∀ s ∈ Stmt.sitesOf none (Parse.source source n).program, s.Resolved r'.targets :=
    Stmt.resolvedOf [] none _ .nil ⟨hp.settled source hr, Parse.worded_source hc⟩
  constructor
  · exact h.store.weaken (Lexical.mono (subset_past ..))
  · rw [Stmt.sitesOf_append]
    exact List.forall_mem_append.2 ⟨hold, hnew⟩
  · rw [Stmt.nodesOf_append]
    exact List.forall_mem_append.2 ⟨(h.read source).below, fun node hnode =>
      (hformed.range node hnode).2⟩
  · rw [Stmt.nodesOf_append, List.map_append, List.nodup_append]
    refine ⟨h.nodup, hformed.nodup, ?_⟩
    intro i hold j hnew hsame
    obtain ⟨old, hmem, rfl⟩ := List.mem_map.1 hold
    obtain ⟨new, hmem', rfl⟩ := List.mem_map.1 hnew
    -- The nodes of the source are new.
    have hbelow : n > old.id := h.below old hmem
    have habove : n ≤ new.id := (hformed.range new hmem').1
    have hsame' : old.id = new.id := hsame
    exact absurd (hsame' ▸ habove) (Nat.not_le_of_lt hbelow)

/-- Every node of the past has one place. -/
theorem nodup_sites (h : Recorded n r m past) :
    ((Stmt.sitesOf none past).map (·.node.id)).Nodup := by
  rw [show (fun s : Site => s.node.id) = Node.id ∘ Site.node from rfl, ← List.map_map,
    Stmt.nodes_sitesOf none past]
  exact h.nodup

/-- A program in front of which everything is recorded runs alike on engines that agree. -/
theorem interpretBy (h : Recorded n r m past) (hp : m.Idle) {program : List Stmt}
    {eng eng' : Engine} (heng : Engine.AgreeAt (Stmt.sitesOf none past) eng eng')
    (hprogram : Stmt.sitesOf none program ⊆ Stmt.sitesOf none past) :
    m.interpretBy eng' program = m.interpretBy eng program ∧
      (m.interpretBy eng program).2.store.Meets (Lexical (Stmt.sitesOf none past)) := by
  have hhome : m.home = "" := by
    unfold Machine.home
    rw [hp.frames]
    rfl
  exact Machine.At.interpretBy heng ⟨h.store, hhome⟩ hprogram

end Recorded

/-- The places of a program are among those of the past with the program. -/
theorem Stmt.sitesOf_subset_append (past program : List Stmt) :
    Stmt.sitesOf none program ⊆ Stmt.sitesOf none (past ++ program) := by
  rw [Stmt.sitesOf_append]
  exact List.subset_append_right ..

/-- Every chronicle leaves only functions whose code was run, with the method around it. -/
theorem Chronicle.recorded {n : NodeId} {r : Resolver} {m : Machine} {past : List Stmt}
    (h : Chronicle n r m past) : Recorded n r m past := by
  induction h with
  | start n => exact .start n
  | @run n r r' m past h source hc hr fuel ih =>
    -- The sources so far, and the one that is run now, are recorded together.
    have hp := h.history.prepared
    have hnow := ih.append hp source hc hr
    have hagree := agreeAt_guarded (fun s hs => (hnow.resolved s hs).named) (engine 0) fuel
    have hidle : (m.addDistances r'.distances).Idle :=
      ⟨hp.idle.scope, hp.idle.frames, hp.idle.site⟩
    exact { hnow with
      store := (hnow.interpretBy hidle hagree (Stmt.sitesOf_subset_append ..)).2 }
  | resolve h source ih => exact ih.resolve h.history.prepared source
  | read _ source ih => exact ih.read source
  | adjust _ maxDepth output now ih => exact { ih with }

/-- The method that a call refers to is lexical. After any history, when a source is read and
resolved without errors, its run is the same whether or not it is guarded, and whatever would happen
otherwise: whenever an expression or statement runs, of this source or of an earlier one, the
innermost call refers to the method around it in its program, where every node has one place. Where
superclasses are used there is such a method, it is known which method is asked for, and without a
name it is the one around the use. -/
theorem home_is_lexical {n : NodeId} {r r' : Resolver} {m : Machine} {past : List Stmt}
    (h : Chronicle n r m past) (source : String) (hc : (Parse.source source n).errors = [])
    (hr : r.run (Parse.source source n).program = ([], r')) (alarm : Engine) (fuel : Nat) :
    ((Stmt.sitesOf none (past ++ (Parse.source source n).program)).map (·.node.id)).Nodup ∧
      (m.addDistances r'.distances).interpretBy
          (guarded (Stmt.sitesOf none (past ++ (Parse.source source n).program)) alarm fuel)
          (Parse.source source n).program =
        (m.addDistances r'.distances).interpret fuel (Parse.source source n).program := by
  have hp := h.history.prepared
  have hnow := h.recorded.append hp source hc hr
  have hagree := agreeAt_guarded (fun s hs => (hnow.resolved s hs).named) alarm fuel
  have hidle : (m.addDistances r'.distances).Idle :=
    ⟨hp.idle.scope, hp.idle.frames, hp.idle.site⟩
  constructor
  · exact hnow.nodup_sites
  · exact (hnow.interpretBy hidle hagree (Stmt.sitesOf_subset_append ..)).1

/-- A function that uses the superclasses without a name after the method that made it is left, on a
new machine. -/
theorem home_is_lexical_later : ∃ r' : Resolver,
    let parsed := Parse.source ("class P \x7b fun m() \x7b\x7d \x7d " ++
      "class C < P \x7b fun m() \x7b return fun() \x7b super() \x7d \x7d \x7d C().m()()") 0
    parsed.errors = [] ∧ ({} : Resolver).run parsed.program = ([], r') ∧
      ((Stmt.sitesOf none parsed.program).map (·.node.id)).Nodup ∧
      (Machine.initial.addDistances r'.distances).interpretBy
          (guarded (Stmt.sitesOf none parsed.program) (engine 0) 40) parsed.program =
        (Machine.initial.addDistances r'.distances).interpret 40 parsed.program := by
  have hclean : (Parse.source ("class P \x7b fun m() \x7b\x7d \x7d " ++
      "class C < P \x7b fun m() \x7b return fun() \x7b super() \x7d \x7d \x7d C().m()()")
      0).errors = [] := List.isEmpty_iff.1 (by decide +kernel)
  have hresolved : ({} : Resolver).run
      (Parse.source ("class P \x7b fun m() \x7b\x7d \x7d " ++
        "class C < P \x7b fun m() \x7b return fun() \x7b super() \x7d \x7d \x7d C().m()()")
        0).program = ([], _) :=
    Prod.ext (List.isEmpty_iff.1 (by decide +kernel)) rfl
  have hall := home_is_lexical (.start 0) _ hclean hresolved (engine 0) 40
  exact ⟨_, hclean, hresolved, hall.1, hall.2⟩

end ClassScript
