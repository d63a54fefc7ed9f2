import ClassScript.Proofs.Machine.Calls
import ClassScript.Proofs.Machine.Code

/-!
# Soundness of execution

Expressions and statements keep a machine sound, and what they do does not depend on which of two
engines that agree they run on. A name with a distance is looked up in the scope that the resolver
counted to. A block and a round of a loop move to a new scope inside the current one, and a
declaration makes its name part of the place behind it. `Regime.soundCode` puts these together: code
may run where the current scope stands for the place of the code.
-/

namespace ClassScript

open Scope
open Exec (Tracks Gives Passes)

variable {L : Ledger} {m : Machine}

/-! ### Names -/

/-- The scope that the distance of a use leads to, which was made for the syntax that the resolver
counted to. -/
structure Machine.LeadsTo (m : Machine) (targets : Targets) (id : NodeId) (d : Nat) (j : ScopeId) :
    Prop where
  /-- The scope lies at the distance. -/
  ancestor : m.store.environments.ancestor? m.scope d = some j
  /-- It was made for the syntax that is recorded for the use. -/
  origin : ∃ o, targets[id]? = some o ∧ m.store.environments.origin? j = some o

/-- The distance of a use leads to a scope of its syntax. The scope binds the names that are
declared in front of the use. -/
theorem Machine.Sound.leads (hm : m.Sound L) {u : Use} (hs : m.Stands u.scopes)
    (hu : L.Settles u) {d : Nat} (hd : m.distances[u.id]? = some d) :
    u.scopes.findIdx? (·.knows u.name) = some d ∧ ∃ j, m.LeadsTo L.tables.targets u.id d j ∧
      ∀ r, u.scopes[d]? = some r → ∀ name ∈ r.declared,
        m.store.environments.binds j name = true := by
  have hidx : u.scopes.findIdx? (·.knows u.name) = some d := by
    rw [hm.distances, hu.holds.1] at hd
    exact hd
  -- The resolver counted to the scope that knows the name, and the machine has one there.
  obtain ⟨r, hr, hfind⟩ := getElem?_of_findIdx? hidx
  obtain ⟨j, hj, ho, hb⟩ := hs.chain.ancestor? hr
  have htarget : L.tables.targets[u.id]? = some r.origin := by
    rw [hu.holds.2, Use.region?, hfind]
    rfl
  refine ⟨hidx, j, ⟨hj, r.origin, htarget, ho⟩, fun r' hr' => ?_⟩
  rw [hr] at hr'
  cases hr'
  exact hb

/-- A receiver or superclasses always have a distance. -/
theorem Machine.Sound.known (hm : m.Sound L) {u : Use} (hu : L.Settles u)
    (hrole : u.role = .self ∨ u.role = .super) : ∃ d, m.distances[u.id]? = some d := by
  obtain ⟨r, hr, hk⟩ := hu.known hrole
  rw [hm.distances, hu.holds.1]
  refine Option.ne_none_iff_exists'.1 fun hnone => ?_
  exact Bool.false_ne_true ((List.findIdx?_eq_none_iff.1 hnone r hr).symm.trans hk)

/-- A variable that has a distance is read in the scope that the distance leads to. -/
theorem lookUpVariable_apply (token : Token) (name : String) {id : NodeId} {d : Nat}
    (hd : m.distances[id]? = some d) {j : ScopeId}
    (hj : m.store.environments.ancestor? m.scope d = some j) :
    lookUpVariable token name id m =
      match (m.store.environments.bindings j)[name]? with
      | some v => .ok v m
      | none => .error (.located ⟨token, .undefinedVariable name⟩) m := by
  have hget : m.store.environments.getAt? m.scope d name =
      (m.store.environments.bindings j)[name]? := by
    rw [Environments.getAt?, hj, Option.bind_some]
  unfold lookUpVariable
  rw [Exec.bind_apply]
  dsimp only [MonadState.get, getThe, MonadStateOf.get, EStateM.get]
  simp only [hd, hget]
  cases (m.store.environments.bindings j)[name]? <;> rfl

/-- A name gets a value: in the scope that its distance leads to, if it has one. -/
theorem tracks_assignVariable {name : String} (hname : name ≠ "super") (id : NodeId) {v : Value}
    (hv : m.Holds L v) :
    Tracks L m (assignVariable name id v) (assignVariable name id v) fun _ m' =>
      ∀ d j, m.distances[id]? = some d → m.store.environments.ancestor? m.scope d = some j →
        (m'.store.environments.bindings j)[name]? = some v := by
  have hsuper : name = "super" → ∃ cs, v = .superclasses cs := fun h => absurd h hname
  refine ⟨fun _ => rfl, fun hm _ m' hr => ?_, fun hm _ _ hr => by cases hr⟩
  cases hr
  dsimp only
  -- With a distance, the scope that it leads to gets the value.
  split
  · next d hd =>
    cases hj : m.store.environments.ancestor? m.scope d with
    | none =>
      -- The distance leads past the outermost scope, and nothing is assigned.
      simp only [Environments.assignAt, hj]
      refine ⟨⟨rfl, rfl, .refl _⟩, ⟨hm.store, hm.distances⟩, ?_⟩
      rintro _ _ hd' hj'
      rw [hd] at hd'
      cases hd'
      rw [hj] at hj'
      cases hj'
    | some i =>
      simp only [Environments.assignAt, hj]
      have hgrows := m.store.environments.grows_define i name v
      refine ⟨⟨rfl, rfl, hgrows⟩, ⟨hm.store.assign (hv.grows hgrows) hsuper, hm.distances⟩, ?_⟩
      rintro _ _ hd' hj'
      rw [hd] at hd'
      cases hd'
      rw [hj] at hj'
      cases hj'
      rw [Environments.getElem?_bindings_define, if_pos ⟨rfl, Environments.lt_of_ancestor? hj, rfl⟩]
  · -- Without a distance, the name is a global one.
    next hd =>
    have hgrows := m.store.environments.grows_assign globalScope name v
    refine ⟨⟨rfl, rfl, hgrows⟩, ⟨hm.store.assign (hv.grows hgrows) hsuper, hm.distances⟩, ?_⟩
    rintro _ _ hd' _
    rw [hd] at hd'
    cases hd'

/-- A new function keeps the current scope. -/
theorem tracks_newClosure (fn : Lambda) :
    Tracks L m (newClosure fn) (newClosure fn) fun v _ =>
      ∃ c : Closure, v = .closure c ∧ c.declaration = fn ∧ c.scope = m.scope :=
  Exec.tracks_freshId.bind fun _ _ hl _ _ => .getBind fun _ =>
    Exec.tracks_home.bind fun _ _ _ _ _ => .pure fun _ => ⟨_, rfl, rfl, hl.scope⟩

/-- A new function is sound, since it keeps the scope of its declaration. -/
theorem gives_newClosure {fn : Lambda} {scopes : List Region} (hs : m.Stands scopes)
    (hfn : L.Settled (fn.uses scopes scopes) (fn.nodes everywhere)) :
    Gives L m (newClosure fn) (newClosure fn) := by
  refine (tracks_newClosure fn).mono ?_
  rintro _ m' hl - ⟨c, rfl, rfl, hscope⟩
  have hstands : m'.store.environments.Stands c.scope scopes := hscope ▸ hs.grows hl.environments
  exact .closure ⟨scopes, scopes, hstands, hstands, hfn⟩

/-- In a method there are superclasses, and a receiver in the scope inside theirs. -/
theorem Machine.Sound.superclasses (hm : m.Sound L) {u : Use} (hs : m.Stands u.scopes)
    (hu : L.Settles u) (hrole : u.role = .super) (hname : u.name = "super") :
    ∃ d j supers self, m.distances[u.id]? = some d ∧ m.LeadsTo L.tables.targets u.id d j ∧
      m.store.environments.getAt? m.scope d "super" = some (.superclasses supers) ∧
      m.store.environments.getAt? m.scope (d - 1) "self" = some self := by
  obtain ⟨d, hd⟩ := hm.known hu (.inr hrole)
  obtain ⟨hidx, j, hj, -⟩ := hm.leads hs hu hd
  rw [hname] at hidx
  -- The receiver stands one scope inside the superclasses.
  obtain ⟨d', r, s, id, rfl, hr, -, hself, hs', -, hsuper⟩ := hs.orderly.super_found hidx
  obtain ⟨jr, hjr, -, hbr⟩ := hs.chain.ancestor? hr
  obtain ⟨js, hjs, -, hbs⟩ := hs.chain.ancestor? hs'
  obtain ⟨self, hself⟩ := (Environments.binds_iff _ _ _).1 (hbr "self" hself)
  obtain ⟨v, hv⟩ := (Environments.binds_iff _ _ _).1 (hbs "super" hsuper)
  obtain ⟨supers, rfl⟩ := hm.store.supers js v hv
  refine ⟨d' + 1, j, supers, self, hd, hj, ?_, ?_⟩
  · rw [Environments.getAt?, hjs, Option.bind_some, hv]
  · rw [Nat.add_sub_cancel, Environments.getAt?, hjr, Option.bind_some, hself]

/-- Superclasses and a receiver that are found are no reason for an error. -/
theorem evaluateSuper_ne_superHere {id : NodeId} (keyword : Token) (method : Option Token) {d : Nat}
    {supers : List Class} {self : Value} (hd : m.distances[id]? = some d)
    (hsupers : m.store.environments.getAt? m.scope d "super" = some (.superclasses supers))
    (hself : m.store.environments.getAt? m.scope (d - 1) "self" = some self) (m' : Machine) :
    evaluateSuper id keyword method m ≠ .error (.located ⟨keyword, .superHere⟩) m' := by
  unfold evaluateSuper
  rw [Exec.bind_apply]
  dsimp only [MonadState.get, getThe, MonadStateOf.get, EStateM.get]
  simp only [hd, hsupers, hself]
  obtain ⟨home, hhome⟩ : ∃ home, Exec.home m = .ok home m := ⟨_, rfl⟩
  rw [Exec.bind_apply, hhome]
  dsimp only
  -- Every other branch raises another error, or none.
  split
  · nofun
  · cases Class.hierarchy.lookupSupers ((method.map Token.lexeme).getD home) supers with
    | found fn depth => nofun
    | ambiguous branches => nofun
    | absent =>
      cases NativeClass.object.ownMethod? ((method.map Token.lexeme).getD home) with
      | some nm => nofun
      | none => nofun

/-! ### Declarations -/

section Declarations

variable {scopes : List Region}

/-- A value that is sound as soon as its name is declared in the current scope. -/
theorem tracks_defineHere (hs : m.Stands scopes) {name : Token} (hname : name.IsName) {v : Value}
    (hv : v.Sound L (m.store.environments.define m.scope name.lexeme v)) :
    Tracks L m (Exec.defineHere name.lexeme v) (Exec.defineHere name.lexeme v) fun _ m' =>
      m'.Stands (declareIn name.lexeme scopes) := by
  refine (Tracks.getBind fun _ => Exec.tracks_declare hs.chain.lt_size hv fun e =>
    absurd e hname.ne_super).mono fun _ m' hl _ hbound => ?_
  exact ⟨(hl.stands hs).chain.declareIn (hl.scope ▸ hbound), hs.orderly.declareIn hname⟩

/-- A function is sound when it has its name, as its body sees it. -/
theorem tracks_function (hs : m.Stands scopes) {fn : Lambda} {name : Token}
    (hfn : fn.name = some name) (hname : name.IsName)
    (hsettled : L.Settled (fn.uses (pendIn name.lexeme scopes) (declareIn name.lexeme scopes))
      (fn.nodes everywhere)) :
    Tracks L m (do Exec.defineHere fn.title (← newClosure fn))
      (do Exec.defineHere fn.title (← newClosure fn)) fun _ m' =>
      m'.Stands (declareIn name.lexeme scopes) := by
  have htitle : fn.title = name.lexeme := by simp [Lambda.title, hfn]
  refine (tracks_newClosure fn).bind ?_
  rintro _ m₁ hl₁ - ⟨c, rfl, rfl, hscope⟩
  have hs₁ := hl₁.stands hs
  -- The scope that the function keeps is the one that its name is defined in.
  have hsame : c.scope = m₁.scope := hscope.trans hl₁.scope.symm
  have hgrows := m₁.store.environments.grows_define m₁.scope name.lexeme (.closure c)
  rw [htitle]
  refine tracks_defineHere hs₁ hname (.closure ⟨_, _, ?_, ?_, hsettled⟩)
  · rw [hsame]
    exact ⟨(hs₁.chain.grows hgrows).pendIn _, hs.orderly.pendIn hname⟩
  · rw [hsame]
    exact ⟨(hs₁.chain.grows hgrows).declareIn
      (Environments.binds_define_self _ hs₁.chain.lt_size _ _), hs.orderly.declareIn hname⟩

/-- The methods of a class keep the scope of the class. -/
theorem tracks_newMethods (scope : ScopeId) (fns : List Lambda)
    (methods : List (String × Closure)) :
    Tracks L m (Engine.newMethods scope fns methods) (Engine.newMethods scope fns methods)
      fun ms _ => ∀ p ∈ ms, p ∈ methods ∨ p.2.scope = scope ∧ p.2.declaration ∈ fns := by
  induction fns generalizing m methods with
  | nil => exact .pure fun _ p hp => .inl hp
  | cons fn rest ih =>
    refine Exec.tracks_freshId.bind fun id m₁ _ _ _ => (ih _).mono fun ms _ _ _ hms p hp => ?_
    rcases hms p hp with hp | ⟨hscope, hmem⟩
    · rcases List.mem_cons.1 hp with rfl | hp
      · exact .inr ⟨rfl, List.mem_cons_self⟩
      · exact .inl hp
    · exact .inr ⟨hscope, List.mem_cons_of_mem _ hmem⟩

end Declarations

/-- A method is resolved as part of its class. -/
theorem Ledger.Settled.method {scopes : List Region} {fns : List Lambda}
    (h : L.Settled (Lambda.usesOf scopes fns) (Lambda.nodesOf everywhere fns)) {fn : Lambda}
    (hfn : fn ∈ fns) : L.Settled (fn.uses scopes scopes) (fn.nodes everywhere) := by
  induction fns with
  | nil => cases hfn
  | cons g rest ih =>
    obtain ⟨hfirst, hrest⟩ := append.1 h
    rcases List.mem_cons.1 hfn with rfl | hfn
    · exact hfirst
    · exact ih hrest hfn

/-- A class is declared. Its methods are sound from then on, when the class has its name. -/
theorem tracks_declareClass {scopes : List Region} {id : NodeId} {name : Token}
    {methods : List Lambda} {classes : List Class} (hs : m.Stands scopes) (hname : name.IsName)
    (hmethods : L.Settled (Lambda.usesOf (methodScopes id (declareIn name.lexeme scopes)) methods)
      (Lambda.nodesOf everywhere methods))
    (hclasses : ∀ c ∈ classes, c.Sound L m.store.environments) :
    Tracks L m (declareClass id name methods classes) (declareClass id name methods classes)
      fun _ m' => m'.Stands (declareIn name.lexeme scopes) := by
  refine .getBind fun _ => (Exec.tracks_newScope _ _).bind ?_
  rintro _ m₁ hl₁ - ⟨rfl, he₁⟩
  -- The scope of the class lies inside the current one.
  have hscope := he₁ ▸ hs.chain.push (.supers id)
  have horigin := hscope.1
  have hparent : m₁.store.environments.parent? m.store.environments.table.size = some m.scope :=
    he₁ ▸ m.store.environments.parent?_push_self (.supers id) hs.chain.lt_size
  have hclasses₁ : ∀ c ∈ classes, c.Sound L m₁.store.environments := fun c hc =>
    (hclasses c hc).last (.refl L) hl₁.environments
  refine (Exec.tracks_define hscope.lt_size (.superclasses hclasses₁) fun _ => ⟨_, rfl⟩).bind
    fun _ m₂ hl₂ _ hsuper => ?_
  refine (tracks_newMethods _ methods []).bind fun closures m₃ hl₃ _ hclosures => ?_
  refine Exec.tracks_freshId.bind fun cid m₄ hl₄ _ _ => ?_
  have hlater : m₁.Later m₄ := hl₂.trans (hl₃.trans hl₄)
  have hs₄ := (hl₁.trans hlater).stands hs
  have hcurrent : m.scope = m₄.scope := (hl₁.trans hlater).scope.symm
  refine tracks_defineHere hs₄ hname ?_
  -- The name of the class is declared now, as its methods see it.
  generalize hcls : Value.class _ = cls
  have hgrows := m₄.store.environments.grows_define m₄.scope name.lexeme cls
  have hall := hlater.environments.trans hgrows
  have hdeclared := (hs₄.chain.grows hgrows).declareIn
    (Environments.binds_define_self _ hs₄.chain.lt_size name.lexeme cls)
  subst hcls
  refine .class (.mk ?_ fun p hp => ?_)
  · exact fun c hc => (hclasses₁ c hc).last (.refl L) hall
  · obtain ⟨hpscope, hpfn⟩ := (hclosures p hp).resolve_left List.not_mem_nil
    refine ⟨id, declareIn name.lexeme scopes, ?_, hs.orderly.declareIn hname, hmethods.method hpfn⟩
    rw [hpscope]
    refine ⟨(hall.origin? _ hscope.lt_size).trans horigin, ?_, m₄.scope, ?_, hdeclared⟩
    · intro x hx
      rw [List.mem_singleton.1 hx]
      exact (hl₃.environments.trans (hl₄.environments.trans hgrows)).binds _ _ hsuper
    · rw [hall.parent? _ hscope.lt_size, hparent, hcurrent]

/-- The other branch of a conditional declares nothing outside of blocks. -/
theorem Stmt.after_otherwise (scopes : List Region) :
    ∀ s : Stmt, ((∃ b, s = .block b) ∨ ∃ id keyword condition body otherwise,
      s = .ifElse id keyword condition body otherwise) →
      (∀ n ∈ s.nodes everywhere, n.Proper) → s.after scopes = scopes
  | .block b, _, _ => rfl
  | .ifElse _ _ _ _ none, _, _ => rfl
  | .ifElse _ _ _ _ (some s), _, hn =>
    after_otherwise scopes s (hn _ List.mem_cons_self) fun n h =>
      hn n (List.mem_cons_of_mem _ (List.mem_append_right _ h))
  | .expr .., h, _ | .varDecl .., h, _ | .function .., h, _ | .classDecl .., h, _
  | .whileLoop .., h, _ | .forIn .., h, _ | .ret .., h, _ => by simp at h

/-! ### Executions -/

/-- The current scope stands for the place of an expression, whose uses are resolved. -/
def Machine.Fits (L : Ledger) (m : Machine) (e : Expr) : Prop :=
  ∃ scopes, m.Stands scopes ∧ L.Settled (e.uses scopes) (e.nodes everywhere)

/-- The current scope stands for the place of statements, whose uses are resolved. -/
structure Machine.Leads (L : Ledger) (m : Machine) (scopes : List Region) (body : List Stmt) :
    Prop where
  /-- The current scope stands for the place. -/
  stands : m.Stands scopes
  /-- The uses are resolved. -/
  settled : L.Settled (Stmt.usesOf scopes body) (Stmt.nodesOf everywhere body)

namespace Machine.Leads

variable {m' : Machine} {scopes : List Region} {s : Stmt} {rest : List Stmt}

/-- Code still fits on a later machine. -/
theorem later (hl : m.Later m') (h : m.Leads L scopes rest) : m'.Leads L scopes rest :=
  ⟨hl.stands h.stands, h.settled⟩

/-- The first statement is resolved. -/
theorem first (h : m.Leads L scopes (s :: rest)) :
    L.Settled (s.uses scopes) (s.nodes everywhere) :=
  (Ledger.Settled.append.1 h.settled).1

/-- So are the others, in the scopes behind it. -/
theorem others (h : m.Leads L scopes (s :: rest)) :
    L.Settled (Stmt.usesOf (s.after scopes) rest) (Stmt.nodesOf everywhere rest) :=
  (Ledger.Settled.append.1 h.settled).2

/-- A single statement leads nowhere else. -/
theorem single (hs : m.Stands scopes) (h : L.Settled (s.uses scopes) (s.nodes everywhere)) :
    m.Leads L scopes [s] :=
  ⟨hs, Ledger.Settled.append.2 ⟨h, nofun, nofun⟩⟩

/-- The name of a variable or class is pending around the expressions of its declaration. -/
theorem operand (h : m.Leads L scopes (s :: rest)) {e : Expr} (he : e ∈ s.operands) :
    m.Fits L e := by
  refine ⟨s.operandScopes scopes, ?_,
    h.first.mono (Stmt.uses_operand he scopes) (Stmt.nodes_operand he)⟩
  cases s with
  | varDecl id name initial =>
    have hname : name.IsName := by
      cases initial <;> exact h.first.proper
    exact ⟨h.stands.chain.pendIn _, h.stands.orderly.pendIn hname⟩
  | classDecl id name supers methods =>
    exact ⟨h.stands.chain.pendIn _, h.stands.orderly.pendIn h.first.proper⟩
  | _ => exact h.stands

/-- Only declarations change what the scope stands for. -/
theorem past (h : m.Leads L scopes (s :: rest)) (hd : ¬s.Declares) :
    m.Leads L (s.after scopes) rest := by
  refine ⟨?_, h.others⟩
  cases s with
  | varDecl | function | classDecl => exact absurd trivial hd
  | ifElse id keyword test body otherwise =>
    have hafter : Stmt.after scopes (.ifElse id keyword test body otherwise) = scopes :=
      Stmt.after_otherwise scopes _ (.inr ⟨_, _, _, _, _, rfl⟩) h.first.nodes
    rw [hafter]
    exact h.stands
  | _ => exact h.stands

end Machine.Leads

/-- A new scope for a block or a round of a loop lies inside the current one. -/
theorem stands_newScope {m' : Machine} {scopes : List Region} {origin : Origin}
    (hs : m.Stands scopes)
    (he : m'.store.environments = m.store.environments.push origin (some m.scope)) :
    m'.store.environments.Chain m.store.environments.table.size (⟨origin, [], []⟩ :: scopes) :=
  he ▸ hs.chain.push origin

/-- Code runs in scopes that stand for its place in the syntax. -/
def Regime.soundCode (L : Ledger) : (Regime.sound L).Code where
  -- A place is the scopes around the code, as the resolver has them there.
  Place := List Region
  after := Stmt.after
  Fits := Machine.Fits L
  Leads := Machine.Leads L
  Matches params slots := slots.length = params.length
  Binds m fn scope slots := ∃ outer scopes, m.Binding L fn scope slots outer scopes
  fits hl _ he :=
    have ⟨scopes, hs, hsettled⟩ := he
    ⟨scopes, hl.stands hs, hsettled⟩
  leads hl _ hs := hs.later hl
  binds hl _ hb :=
    have ⟨outer, scopes, hb⟩ := hb
    ⟨outer, scopes, hb.later hl⟩
  evaluatesIn _ hm := ⟨hm.store, hm.distances⟩
  executesIn _ hm := ⟨hm.store, hm.distances⟩
  leaveScope _ hm' hl := ⟨⟨rfl, hl.distances, hl.environments⟩, ⟨hm'.store, hm'.distances⟩⟩
  holdsScope hv := hv
  object place hc := by
    cases hc with
    | «class» hc => exact .instance place hc
  receiver _ := .read (fun _ => rfl) fun hm v hv => by
    obtain ⟨j, -, hj⟩ := Option.bind_eq_some_iff.1 hv
    exact hm.store.bindings j "self" v hj
  operand he hmem :=
    have ⟨scopes, hs, hsettled⟩ := he
    ⟨scopes, hs, hsettled.mono (Expr.uses_operand hmem scopes) (Expr.nodes_operand hmem)⟩
  -- Whatever a lookup finds was bound on the store, and all that is bound there is known.
  lookUp _ := yields_lookUpVariable _ (fun _ _ _ => rfl) (fun _ => rfl)
    fun hm i v hv => hm.store.bindings i _ v hv
  lookUpSelf _ := yields_lookUpVariable _ (fun _ _ _ => rfl) (fun _ => rfl)
    fun hm i v hv => hm.store.bindings i _ v hv
  assign he hv := by
    obtain ⟨scopes, -, hsettled⟩ := he
    exact (Exec.tracks_iff.1 (tracks_assignVariable hsettled.proper.ne_super _ hv)).mono
      fun _ _ _ _ _ => trivial
  super _ := yields_evaluateSuper (Regime.sound_bindsSupers L) _ _ (fun _ _ _ _ _ _ => rfl)
    fun hm => hm.store.bindings
  lambda he :=
    have ⟨_, hs, hsettled⟩ := he
    Exec.tracks_iff.1 (gives_newClosure hs hsettled)
  matched hlen := hlen
  -- The scope of a call starts in step with the scopes around the function.
  call _ hfn hlen := by
    cases hfn with
    | closure hfn =>
      obtain ⟨outer, scopes, hfn⟩ := hfn
      refine (Exec.tracks_iff.1 (Exec.tracks_newScope _ _)).mono ?_
      rintro _ m' hl - ⟨rfl, he⟩
      exact ⟨outer, scopes, .start hfn hlen hl he⟩
  default hb he :=
    have ⟨outer, _, hb⟩ := hb
    ⟨outer, hb.default he⟩
  bindParam hb hv :=
    have ⟨outer, scopes, hb⟩ := hb
    (Exec.tracks_iff.1 (hb.bind hv)).mono fun _ _ _ _ hb' => ⟨outer, scopes, hb'⟩
  body hb :=
    have ⟨_, _, hb⟩ := hb
    ⟨_, hb.stands, hb.sound.settled.lambda.2.1⟩
  operandOf hs he := hs.operand he
  branch hs he := .single hs.stands
    (hs.first.mono (Stmt.uses_branch he _) (Stmt.nodes_branch he))
  past hs hd := hs.past hd
  -- A declaration leaves the scopes that the resolver has behind it.
  varDecl {_ _ _ name initial _ _} hs hv := by
    have hname : name.IsName := by
      have hproper := hs.first
      cases initial <;> exact hproper.proper
    exact (Exec.tracks_iff.1 (tracks_defineHere hs.stands hname
      (hv.grows (Environments.grows_define ..)))).mono fun _ _ _ _ hs' => ⟨hs', hs.others⟩
  function {_ _ _ fn _} hs := by
    obtain ⟨name, hfn, hname⟩ := hs.first.proper
    have htoken : fn.token = name := by simp [Lambda.token, hfn]
    refine (Exec.tracks_iff.1 (tracks_function hs.stands hfn hname (htoken ▸ hs.first.below))).mono
      fun _ _ _ _ hs' => ⟨?_, hs.others⟩
    unfold Stmt.after
    rw [htoken]
    exact hs'
  classDecl hs hclasses := by
    obtain ⟨-, hmethods⟩ := Ledger.Settled.append.1 hs.first.below
    refine (Exec.tracks_iff.1 (tracks_declareClass hs.stands hs.first.proper hmethods
      fun c hc => ?_)).mono fun _ _ _ _ hs' => ⟨hs', hs.others⟩
    cases hclasses c hc with
    | «class» hc => exact hc
  block {_ _ b _} hs := by
    obtain ⟨id, brace, body⟩ := b
    refine (Exec.tracks_iff.1 (Exec.tracks_newScope _ _)).mono ?_
    rintro _ m' - - ⟨rfl, he⟩
    exact ⟨_, ⟨stands_newScope hs.stands he, hs.stands.orderly.block id⟩, hs.first.below⟩
  -- Every round of a loop has a scope of its own, with the element in it.
  round {_ _ id _ name _ _ _} hs := by
    obtain ⟨-, hbody⟩ := Ledger.Settled.append.1 hs.first.below
    have hname : name.IsName := hs.first.proper
    refine (Exec.tracks_iff.1 (Exec.tracks_newScope _ _)).mono ?_
    rintro _ m₁ - - ⟨rfl, he⟩ v hv
    have hchain := stands_newScope hs.stands he
    refine (Exec.tracks_iff.1 (Exec.tracks_define hchain.lt_size hv fun e =>
      absurd e hname.ne_super)).mono fun _ m₂ hl₂ _ hbound => ?_
    exact ⟨_, .single ⟨(hchain.grows hl₂.environments).declareIn hbound,
      hs.stands.orderly.loop id hname⟩ hbody⟩

/-- In this regime, the known results are the sound ones. -/
theorem Completion.known_sound {c : Completion} :
    c.Known (.sound L) m ↔ c.Sound L m.store.environments := by
  cases c <;> exact .rfl

namespace Engine

variable {eng eng' : Engine} {scopes : List Region}

/-- Engines that agree on sound machines run all code alike. -/
theorem Agree.runsBy (h : Agree L eng eng') : RunsBy (Regime.soundCode L) eng eng' where
  toCallsBy := h.callsBy
  fuel := h.fuel
  evaluate e he :=
    have ⟨_, hs, hsettled⟩ := he
    Exec.tracks_iff.1 (h.evaluate e hs hsettled)
  execute s _ hs := (Exec.tracks_iff.1 (h.execute s hs.stands hs.first)).mono
    fun c _ _ _ hc => by
      cases c with
      | normal => exact ⟨hc.2 rfl, hs.others⟩
      | returning v => exact hc.1

/-- An assignment: the value reaches the scope that the distance of the name leads to. -/
theorem tracks_assign (h : Agree L eng eng') {id : NodeId} {name : Token} {value : Expr}
    (hs : m.Stands scopes) (hv : L.Settled (value.uses scopes) (value.nodes everywhere))
    (hname : name.IsName) :
    Tracks L m (eng.evaluateWith (.assign id name value))
      (eng'.evaluateWith (.assign id name value)) fun v m' =>
      m'.Holds L v ∧ ∀ d j, m.distances[id]? = some d →
        m.store.environments.ancestor? m.scope d = some j →
        (m'.store.environments.bindings j)[name.lexeme]? = some v := by
  refine (h.evaluate value hs hv).bind fun v m₁ hl₁ _ hv => ?_
  refine (tracks_assignVariable hname.ne_super id hv).bind fun _ m₂ hl₂ _ hwritten => ?_
  refine .pure fun _ => ⟨hl₂.holds hv, fun d j hd hj => ?_⟩
  refine hwritten d j (hl₁.distances ▸ hd) ?_
  rw [hl₁.scope]
  exact hl₁.environments.ancestor? hj

/-- One level of evaluation gives sound values, the same on both engines. -/
theorem gives_evaluateWith (h : Agree L eng eng') (e : Expr) (hs : m.Stands scopes)
    (he : L.Settled (e.uses scopes) (e.nodes everywhere)) :
    Gives L m (eng.evaluateWith e) (eng'.evaluateWith e) :=
  Exec.tracks_iff.2 (yields_evaluateWith h.runsBy e ⟨scopes, hs, he⟩)

/-- One level of execution keeps the machine sound, and the scope stands for the place behind the
statement. -/
theorem tracks_executeWith (h : Agree L eng eng') (s : Stmt) (hs : m.Stands scopes)
    (hst : L.Settled (s.uses scopes) (s.nodes everywhere)) :
    Tracks L m (eng.executeWith s) (eng'.executeWith s) fun c m' =>
      c.Sound L m'.store.environments ∧ (c = .normal → m'.Stands (s.after scopes)) := by
  have hleads : m.Leads L scopes [s] := .single hs hst
  refine Exec.tracks_iff.2 ((obeys_executeWith h.runsBy s [] hleads).mono fun c m' _ _ hc =>
    ⟨Completion.known_sound.1 hc.known, ?_⟩)
  rintro rfl
  exact hc.stands

/-- One level of a call gives a sound value. -/
theorem gives_invokeWith (h : Agree L eng eng') (site : Token) {callee : Value}
    {positional : List Value} {named : List (String × Value)} (hc : m.Holds L callee)
    (hp : ∀ v ∈ positional, m.Holds L v) (hn : NamedSound L m named) :
    Gives L m (eng.invokeWith site callee positional named)
      (eng'.invokeWith site callee positional named) := by
  refine Exec.tracks_iff.2 (yields_invokeWith (C := Regime.soundCode L) h.callsBy ?_ site hc hp hn)
  intro m fn site slots hfn hlen hslots
  refine yields_callClosure site fun _ => Exec.tracks_iff.1 (.inFrame ?_ fun _ _ hv => hv)
  exact Exec.tracks_iff.2 (yields_callBody h.runsBy rfl hfn hlen hslots)

end Engine

end ClassScript
