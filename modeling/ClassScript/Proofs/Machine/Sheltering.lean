import ClassScript.Proofs.Machine.Code
import ClassScript.Proofs.Machine.Founding
import ClassScript.Proofs.Machine.Sheltered

/-!
# Sheltered code does not see where the scope lies

One lemma for each step that scopes, names, functions or classes matter to: on a sheltered machine
and for code that looks no farther than the scope, the step does the same wherever the scope lies,
and what it makes is sheltered again. Names are looked up on the near side of the scope or in the
outermost one. A new function keeps the scope of the code that makes it, so its uses are among those
of that code, and a method looks one scope farther as soon as it has a receiver. With these,
executions shelter as they do anything else in a regime.
-/

namespace ClassScript

open Scope
open Exec (Obeys Yields Abides)

variable {move : Relocation} {distances : Distances} {m m' : Machine}

/-! ### Syntax -/

/-- A declaration opens no scope. -/
theorem Scope.length_declareIn (name : String) (scopes : List Region) :
    (declareIn name scopes).length = scopes.length := by
  cases scopes <;> rfl

/-- Neither does what is pending. -/
theorem Scope.length_pendIn (name : String) (scopes : List Region) :
    (pendIn name scopes).length = scopes.length := by
  cases scopes <;> rfl

/-- A statement makes no scope around the next one. -/
theorem Stmt.length_after (scopes : List Region) (s : Stmt) :
    (s.after scopes).length = scopes.length := by
  rcases s.after_cases scopes with h | ⟨name, h⟩
  · rw [h]
  · rw [h, length_declareIn]

/-- Nor around its own expressions. -/
theorem Stmt.length_operandScopes (scopes : List Region) (s : Stmt) :
    (s.operandScopes scopes).length = scopes.length := by
  cases s with
  | varDecl id name initial => exact length_pendIn ..
  | classDecl id name supers methods => exact length_pendIn ..
  | _ => rfl

namespace Scope.Near

variable {outer scopes : List Region}

/-- Fewer uses are near as well. -/
theorem subset {us us' : List Use} (h : Near distances us) (hs : us' ⊆ us) :
    Near distances us' :=
  fun u hu => h u (hs hu)

/-- The default of a parameter is part of the function. -/
theorem default {params : List Param} (h : Near distances (Param.usesOf outer params))
    {p : Param} (hp : p ∈ params) {e : Expr} (he : p.defaultValue = some e) :
    Near distances (e.uses outer) := by
  induction params with
  | nil => cases hp
  | cons q rest ih =>
    obtain ⟨type, name, value, variadic⟩ := q
    cases value with
    | none =>
      -- A parameter without a default has no uses.
      rcases List.mem_cons.1 hp with rfl | hp
      · cases he
      · exact ih h hp
    | some e' =>
      obtain ⟨hfirst, hrest⟩ := append.1 h
      rcases List.mem_cons.1 hp with rfl | hp
      · cases he
        exact hfirst
      · exact ih hrest hp

/-- The parts of a function: its defaults and its body. -/
theorem lambda {fn : Lambda} (h : Near distances (fn.uses outer scopes)) :
    Near distances (Param.usesOf outer fn.params) ∧
      Near distances (Stmt.usesOf (.call fn.id fn.params :: scopes) fn.body) := by
  obtain ⟨id, keyword, name, params, body⟩ := fn
  exact append.1 h

end Scope.Near

/-! ### Places on machines -/

/-- If code looks no farther than a scope, then both of its parts do so. -/
theorem Environments.Shelters.parts {es : Environments} {r i : ScopeId}
    {us us' : List Region → List Use}
    (h : es.Shelters r i fun scopes => Near distances (us scopes ++ us' scopes)) :
    (es.Shelters r i fun scopes => Near distances (us scopes)) ∧
      es.Shelters r i fun scopes => Near distances (us' scopes) :=
  ⟨h.imp fun _ hn => (Near.append.1 hn).1, h.imp fun _ hn => (Near.append.1 hn).2⟩

/-- The current scope was made, and something holds of the scopes on the way to the one that lies
elsewhere, if it is inside. -/
abbrev Machine.Shelters (m : Machine) (move : Relocation) (P : List Region → Prop) : Prop :=
  m.store.environments.Shelters move.scope m.scope P

/-- What holds around the current scope still holds on a later machine. -/
theorem Machine.Shelters.later {P : List Region → Prop} (hl : m.Later m')
    (h : m.Shelters move P) : m'.Shelters move P := by
  unfold Shelters
  rw [hl.scope]
  exact h.grows hl.environments

/-- What follows a statement looks no farther than both together. -/
theorem Machine.Shelters.past {s : Stmt} {rest : List Stmt}
    (h : m.Shelters move fun scopes => Near distances (Stmt.usesOf scopes (s :: rest))) :
    m.Shelters move fun scopes => Near distances (Stmt.usesOf scopes rest) :=
  h.mono fun scopes hn => ⟨s.after scopes, s.length_after scopes, (Near.append.1 hn).2⟩

/-- A name that is looked up no farther than in the scope that lies elsewhere. -/
def Machine.LooksNear (m : Machine) (move : Relocation) (distances : Distances) (id : NodeId) :
    Prop :=
  ∀ d, distances[id]? = some d → ∀ k, m.store.environments.ancestor? m.scope k = some move.scope →
    d ≤ k

/-- A use that is near is looked up near. -/
theorem Machine.Shelters.looksNear {role : Role} {id : NodeId} {name : String}
    (h : m.Shelters move fun scopes => Near distances [⟨role, id, name, scopes⟩]) :
    m.LooksNear move distances id := by
  intro d hd k hk
  obtain ⟨scopes, rfl, hnear⟩ := h.inside k hk
  exact hnear _ List.mem_cons_self d hd

/-! ### Scopes and names -/

namespace Exec

variable {α : Type} {x y : Exec α} {Q Q' : α → Machine → Prop}

/-- A new scope is not the one that lies elsewhere, and is one farther from it than its parent. -/
theorem shelters_newScope (origin : Origin) {parent : ScopeId} {P T : List Region → Prop}
    (hp : m.store.environments.Shelters move.scope parent P)
    (hP : ∀ scopes, P scopes → ∃ region, T (region :: scopes)) :
    Obeys (.sheltered move distances) m (newScope origin parent) (newScope origin parent)
      fun i m' => i ≠ move.scope ∧ m'.store.environments.Shelters move.scope i T := by
  refine .modifyGet (fun hm => ?_) fun hm => ?_
  · simp only [Regime.seen, Regime.seenStore, Environments.size_relocate,
      Environments.relocate_push _ _ _ _ hm.made]
  · exact ⟨⟨rfl, rfl, Environments.grows_push ..⟩, hm.push origin _, (Nat.ne_of_lt hm.made).symm,
      hp.push hm.made origin hP⟩

/-- A binding of a sheltered value is the same wherever the scope lies. -/
theorem shelters_define (scope : ScopeId) (name : String) {v : Value}
    (hv : v.Sheltered move distances m.store.environments) :
    Abides (.sheltered move distances) m (define scope name v) (define scope name v) := by
  refine .modifyGet (fun _ => ?_) fun hm => ?_
  · simp only [Regime.seen, Regime.seenStore, Environments.relocate_define]
  · exact ⟨⟨rfl, rfl, Environments.grows_define ..⟩, hm.define scope name hv _, trivial⟩

/-- So is one in the current scope. -/
theorem shelters_defineHere (name : String) {v : Value}
    (hv : v.Sheltered move distances m.store.environments) :
    Abides (.sheltered move distances) m (defineHere name v) (defineHere name v) :=
  .getBind (fun _ => rfl) fun _ => shelters_define _ name hv

/-- Calls do not matter. -/
theorem shelters_inFrame {frame : Frame}
    (h : Obeys (.sheltered move distances) { m with
      calls := m.calls.push frame, deepest := max m.deepest (m.calls.depth + 1) } x y Q)
    (hQ : ∀ a m', Q a m' → Q' a { m' with calls := m'.calls.pop }) :
    Obeys (.sheltered move distances) m (inFrame frame x) (inFrame frame y) Q' :=
  h.around ⟨rfl, fun _ => rfl⟩ (fun hm => ⟨hm.fixed, hm.made, hm.bindings, hm.contents⟩)
    (fun _ hm' hl => ⟨⟨hl.scope, hl.distances, hl.environments⟩,
      ⟨hm'.fixed, hm'.made, hm'.bindings, hm'.contents⟩⟩)
    fun a m' _ _ hq => hQ a m' hq

end Exec

/-- A method that gets a receiver keeps a new scope inside that of its class. -/
theorem Closure.shelters_bind {fn : Closure} {receiver : Value}
    (hfn : fn.ShelteredMethod move distances m.store.environments)
    (hr : receiver.Sheltered move distances m.store.environments) :
    Obeys (.sheltered move distances) m (fn.bind receiver) (fn.bind receiver) fun fn' m' =>
      (Value.closure fn').Sheltered move distances m'.store.environments := by
  have horigin : ((m.store.environments.relocate move).table[fn.scope]?).map (·.origin) =
      m.store.environments.table[fn.scope]?.map (·.origin) := by
    rw [Environments.getElem?_table_relocate _ _ hfn.ne]
  refine .readBind (fun _ => by simp only [Regime.seenStore, horigin]) fun _ => ?_
  refine (Exec.shelters_newScope _ hfn.shelters
    (T := fun scopes => ∃ outer, outer.length = scopes.length ∧
      Near distances (fn.declaration.uses outer scopes))
    fun scopes h => h.imp fun region hnear => ⟨region :: scopes, rfl, hnear⟩).bind
    fun scope _ hl _ hscope => ?_
  refine (Exec.shelters_define scope "self" (Value.Sheltered.grows hl.environments hr)).bind
    fun _ _ hl' _ _ => ?_
  exact Exec.abides_freshId.bind fun _ _ hl'' _ _ => .pure fun _ =>
    .closure (hscope.2.grows (hl'.trans hl'').environments)

/-- A sheltered method with its receiver is a sheltered function. -/
theorem Regime.sheltered_binds : (Regime.sheltered move distances).BindsMethods := by
  intro m place cls name fn depth hv hl
  obtain ⟨c, hc, hfn⟩ := Class.method_of_lookup (fun _ hc => hc.supers)
    (Value.All.instance_iff.1 hv) hl
  exact Closure.shelters_bind (hc.methods _ hfn) hv

/-- So is a sheltered method of the superclasses. -/
theorem Regime.sheltered_bindsSupers : (Regime.sheltered move distances).BindsSupers := by
  intro m supers name fn depth receiver hsupers hl hr
  obtain ⟨c, hc, hfn⟩ := Class.method_of_lookupSupers (fun _ hc => hc.supers)
    (Value.All.superclasses_iff.1 hsupers) hl
  exact Closure.shelters_bind (hc.methods _ hfn) hr

/-- A completion whose result is sheltered, if it has one. -/
def Completion.Sheltered (move : Relocation) (distances : Distances) (es : Environments) :
    Completion → Prop
  | .normal => True
  | .returning v => v.Sheltered move distances es

/-- An engine that does the same wherever a scope lies, for code that looks no farther than that
scope. -/
structure Engine.Shelters (move : Relocation) (distances : Distances) (eng : Engine) : Prop extends
    Engine.CallsBy (.sheltered move distances) eng eng where
  /-- Expressions. -/
  evaluate : ∀ {m : Machine} (e : Expr),
    (m.Shelters move fun scopes => Near distances (e.uses scopes)) →
    Yields (.sheltered move distances) m (eng.evaluate e) (eng.evaluate e)
  /-- Statements. -/
  execute : ∀ {m : Machine} (s : Stmt),
    (m.Shelters move fun scopes => Near distances (s.uses scopes)) →
    Obeys (.sheltered move distances) m (eng.execute s) (eng.execute s) fun c m' =>
      c.Sheltered move distances m'.store.environments

/-! ### Names -/

/-- What a name with a distance is looked up as does not depend on where the scope lies. -/
theorem Machine.LooksNear.getAt? (hm : m.Sheltered move distances) {id : NodeId}
    (h : m.LooksNear move distances id) {d d' : Nat} (hd : m.distances[id]? = some d) (hle : d' ≤ d)
    (name : String) :
    (m.store.environments.relocate move).getAt? m.scope d' name =
      m.store.environments.getAt? m.scope d' name :=
  Environments.getAt?_relocate _ _ _ fun k hk => Nat.le_trans hle (h d (hm.fixed ▸ hd) k hk)

/-- A name that is near is looked up alike. -/
theorem shelters_lookUpVariable (token : Token) (name : String) {id : NodeId}
    (h : m.LooksNear move distances id) :
    Yields (.sheltered move distances) m (lookUpVariable token name id)
      (lookUpVariable token name id) := by
  refine yields_lookUpVariable token (fun hm d hd => h.getAt? hm hd (Nat.le_refl d) name)
    (fun hm => ?_) fun hm i v hv => hm.bindings i name v hv
  -- The outermost scope does not move.
  rw [Environments.get?_globalScope, Environments.get?_globalScope, Environments.bindings_relocate]

/-- It is assigned alike. -/
theorem shelters_assignVariable (name : String) {id : NodeId} {v : Value}
    (h : m.LooksNear move distances id) (hv : v.Sheltered move distances m.store.environments) :
    Abides (.sheltered move distances) m (assignVariable name id v) (assignVariable name id v) := by
  have assigned : ∀ i : ScopeId, m.Sheltered move distances →
      m.Later { m with store.environments := m.store.environments.define i name v } ∧
      Machine.Sheltered move distances { m with
        store.environments := m.store.environments.define i name v } ∧ True := fun i hm =>
    ⟨⟨rfl, rfl, Environments.grows_define ..⟩, hm.define i name hv _, trivial⟩
  refine .modifyGet (fun hm => ?_) fun hm => ?_
  · cases hd : m.distances[id]? with
    | some d =>
      -- The scope that gets the value is found on the same way.
      have hsame := Environments.ancestor?_relocate m.store.environments move
        (h d (hm.fixed ▸ hd))
      simp only [Regime.seen, Regime.seenStore, hd, Environments.assignAt, hsame]
      cases m.store.environments.ancestor? m.scope d with
      | none => rfl
      | some j => simp only [Environments.relocate_define]
    | none =>
      -- The outermost scope does not move.
      simp only [Regime.seen, Regime.seenStore, hd, Environments.assign,
        Environments.binder_globalScope, Environments.relocate_define]
  · dsimp only
    split
    · unfold Environments.assignAt
      split
      · exact assigned _ hm
      · exact ⟨.refl m, hm, trivial⟩
    · exact assigned _ hm

/-- A new function keeps the current scope, and its uses are among those of the code around it. -/
theorem shelters_newClosure {fn : Lambda}
    (hs : m.Shelters move fun scopes => ∃ outer, outer.length = scopes.length ∧
      Near distances (fn.uses outer scopes)) :
    Yields (.sheltered move distances) m (newClosure fn) (newClosure fn) :=
  Exec.abides_freshId.bind fun _ _ hl _ _ => .getBind (fun _ => rfl) fun _ =>
    .getBind (fun _ => rfl) fun _ => .pure fun _ => .closure (Machine.Shelters.later hl hs)

/-! ### Classes -/

/-- The methods of a class are made alike. -/
theorem shelters_newMethods {scope : ScopeId} {fns : List Lambda}
    {methods : List (String × Closure)} (hne : scope ≠ move.scope)
    (hs : m.store.environments.Shelters move.scope scope fun scopes => ∃ region,
      Near distances (Lambda.usesOf (region :: scopes) fns))
    (hmethods : ∀ p ∈ methods, p.2.ShelteredMethod move distances m.store.environments) :
    Obeys (.sheltered move distances) m (Engine.newMethods scope fns methods)
      (Engine.newMethods scope fns methods) fun ms m' =>
      ∀ p ∈ ms, p.2.ShelteredMethod move distances m'.store.environments := by
  induction fns generalizing m methods with
  | nil => exact .pure fun _ => hmethods
  | cons fn rest ih =>
    refine Exec.abides_freshId.bind fun id _ hl _ _ => ?_
    have hs' := hs.grows hl.environments
    refine ih (hs'.imp fun _ ⟨region, hn⟩ => ⟨region, (Near.append.1 hn).2⟩) ?_
    refine List.forall_mem_cons.2 ⟨⟨hne, ?_⟩, fun p hp =>
      ⟨(hmethods p hp).ne, (hmethods p hp).shelters.grows hl.environments⟩⟩
    exact hs'.imp fun _ ⟨region, hn⟩ => ⟨region, (Near.append.1 hn).1⟩

/-- The methods of a class keep a new scope, which is one farther than the scope around it. -/
theorem shelters_declareClass {id : NodeId} {name : Token} {methods : List Lambda}
    {classes : List Class}
    (hmethods : m.Shelters move fun scopes => ∃ region r,
      Near distances (Lambda.usesOf (r :: region :: scopes) methods))
    (hclasses : ∀ c ∈ classes, c.Sheltered move distances m.store.environments) :
    Abides (.sheltered move distances) m (declareClass id name methods classes)
      (declareClass id name methods classes) := by
  refine .getBind (fun _ => rfl) fun _ =>
    -- The superclasses get a scope of their own, one farther in.
    (Exec.shelters_newScope _ hmethods
      (T := fun scopes => ∃ r, Near distances (Lambda.usesOf (r :: scopes) methods))
      fun scopes hn => hn).bind fun scope m₁ hl₁ _ hscope => ?_
  have hclasses₁ : ∀ c ∈ classes, c.Sheltered move distances m₁.store.environments :=
    fun c hc => (hclasses c hc).grows hl₁.environments
  refine (Exec.shelters_define scope "super" (.superclasses hclasses₁)).bind
    fun _ m₂ hl₂ _ _ => ?_
  refine (shelters_newMethods hscope.1 (hscope.2.grows hl₂.environments)
    (List.forall_mem_nil _)).bind fun closures m₃ hl₃ _ hclosures => ?_
  refine Exec.abides_freshId.bind fun cid m₄ hl₄ _ _ => ?_
  refine Exec.shelters_defineHere _ (.class (.mk (fun c hc => ?_) fun p hp => ?_))
  · exact (hclasses₁ c hc).grows (hl₂.trans (hl₃.trans hl₄)).environments
  · exact ⟨(hclosures p hp).ne, (hclosures p hp).shelters.grows hl₄.environments⟩

/-! ### Executions -/

/-- The default of a parameter looks no farther than a scope if it is evaluated inside. -/
def Engine.ShelteredDefault (move : Relocation) (distances : Distances) (es : Environments)
    (scope : ScopeId) (p : Param) : Prop :=
  ∀ e, p.defaultValue = some e →
    es.Shelters move.scope scope fun scopes => Near distances (e.uses scopes)

/-- Code looks no farther than a scope if its uses do so from the current one. -/
def Regime.shelteredCode (move : Relocation) (distances : Distances) :
    (Regime.sheltered move distances).Code where
  Place := Unit
  after _ _ := ()
  Fits m e := m.Shelters move fun scopes => Near distances (e.uses scopes)
  Leads m _ body := m.Shelters move fun scopes => Near distances (Stmt.usesOf scopes body)
  Matches _ _ := True
  Binds m fn scope slots :=
    (∀ a ∈ slots,
      Engine.ShelteredDefault move distances m.store.environments fn.scope a.1) ∧
    m.store.environments.Shelters move.scope scope fun scopes =>
      Near distances (Stmt.usesOf scopes fn.declaration.body)
  fits hl _ hs := hs.later hl
  leads hl _ hs := hs.later hl
  binds hl _ hb := ⟨fun a ha e he => (hb.1 a ha e he).grows hl.environments,
    hb.2.grows hl.environments⟩
  evaluatesIn _ hm := ⟨hm.fixed, hm.made, hm.bindings, hm.contents⟩
  executesIn _ hm := ⟨hm.fixed, hm.made, hm.bindings, hm.contents⟩
  leaveScope _ hm' hl := ⟨⟨rfl, hl.distances, hl.environments⟩,
    ⟨hm'.fixed, hm'.made, hm'.bindings, hm'.contents⟩⟩
  holdsScope hv := hv
  object place hc := .instance place (Value.All.class_iff.1 hc)
  receiver _ := .read (fun _ => Environments.getAt?_relocate _ _ _ fun k _ => Nat.zero_le k)
    fun hm _ hv => hm.getAt? hv
  operand hs he := hs.imp fun scopes hn => hn.subset (Expr.uses_operand he scopes)
  lookUp hs := shelters_lookUpVariable _ _ hs.looksNear
  lookUpSelf hs := shelters_lookUpVariable _ _ hs.looksNear
  assign hs hv := shelters_assignVariable _ (Machine.Shelters.looksNear hs.parts.2) hv
  super hs := yields_evaluateSuper Regime.sheltered_bindsSupers _ _
    (fun hm _ hd _ hle name => hs.looksNear.getAt? hm hd hle name) fun hm => hm.bindings
  lambda hs := shelters_newClosure (hs.imp fun scopes hn => ⟨scopes, rfl, hn⟩)
  matched _ := trivial
  call _ hfn _ := by
    have hfn := Value.All.closure_iff.1 hfn
    refine (Exec.shelters_newScope _ hfn (T := fun scopes => Near distances (Stmt.usesOf scopes _))
      fun scopes ⟨_, _, hnear⟩ => ⟨_, hnear.lambda.2⟩).mono fun scope m' hl _ hscope => ?_
    refine ⟨fun a ha e he => Environments.Shelters.grows hl.environments (hfn.mono ?_), hscope.2⟩
    rintro scopes ⟨outer, hlength, hnear⟩
    exact ⟨outer, hlength, hnear.lambda.1.default (List.of_mem_zip ha).1 he⟩
  default hb he := hb.1 _ List.mem_cons_self _ he
  bindParam hb hv := (Exec.shelters_define _ _ hv).mono fun _ _ hl _ _ =>
    ⟨fun a ha e he => (hb.1 a (List.mem_cons_of_mem _ ha) e he).grows hl.environments,
      hb.2.grows hl.environments⟩
  body hb := ⟨(), hb.2⟩
  operandOf hs he := hs.mono fun scopes hn => ⟨_, Stmt.length_operandScopes scopes _,
    (Near.append.1 hn).1.subset (Stmt.uses_operand he scopes)⟩
  branch hs he := hs.imp fun scopes hn => Near.append.2
    ⟨(Near.append.1 hn).1.subset (Stmt.uses_branch he scopes), List.forall_mem_nil _⟩
  past hs _ := hs.past
  varDecl hs hv := (Exec.shelters_defineHere _ hv).mono fun _ _ hl _ _ => hs.past.later hl
  function hs := by
    -- The function has its name in front of its body, but not in front of its defaults.
    refine Obeys.bind (shelters_newClosure (hs.mono fun scopes hn =>
      ⟨_, length_declareIn _ scopes, _, (length_pendIn ..).trans (length_declareIn ..).symm,
        (Near.append.1 hn).1⟩)) fun v _ hl _ hv => ?_
    exact (Exec.shelters_defineHere _ hv).mono fun _ _ hl' _ _ => hs.past.later (hl.trans hl')
  classDecl {m _ _ name _ methods _ _} hs hclasses := by
    have hmethods : m.Shelters move fun scopes => ∃ region r,
        Near distances (Lambda.usesOf (r :: region :: scopes) methods) := hs.mono fun scopes hn =>
      ⟨_, length_declareIn name.lexeme scopes, _, _, (Near.append.1 (Near.append.1 hn).1).2⟩
    exact (shelters_declareClass hmethods fun c hc => Value.All.class_iff.1 (hclasses c hc)).mono
      fun _ _ hl _ _ => hs.past.later hl
  block {_ _ b _} hs := by
    obtain ⟨id, brace, body⟩ := b
    exact (Exec.shelters_newScope _ hs fun scopes hn => ⟨_, (Near.append.1 hn).1⟩).mono
      fun _ _ _ _ hscope => ⟨(), hscope.2⟩
  round {_ _ _ _ _ _ body _} hs := by
    -- A round is the block alone, in the scope of the round.
    refine (Exec.shelters_newScope _ hs
      (T := fun scopes => Near distances (Stmt.usesOf scopes [.block body])) fun scopes hn =>
      ⟨_, Near.append.2 ⟨(Near.append.1 (Near.append.1 hn).1).2, List.forall_mem_nil _⟩⟩).mono
      fun scope m₁ _ _ hscope v hv => ?_
    exact (Exec.shelters_define _ _ hv).mono fun _ _ hl _ _ =>
      ⟨(), hscope.2.grows hl.environments⟩

/-- In this regime, the known results are the sheltered ones. -/
theorem Completion.known_sheltered {c : Completion} :
    c.Known (.sheltered move distances) m ↔ c.Sheltered move distances m.store.environments := by
  cases c <;> exact .rfl

namespace Engine

variable {eng : Engine}

/-- An engine that does the same wherever a scope lies runs all code so. -/
theorem Shelters.runsBy (h : eng.Shelters move distances) :
    RunsBy (Regime.shelteredCode move distances) eng eng where
  toCallsBy := h.toCallsBy
  fuel := rfl
  evaluate e he := h.evaluate e he
  execute s _ hs := (h.execute s (hs.imp fun _ hn => (Near.append.1 hn).1)).mono
    fun _ _ hl _ hc => (Completion.known_sheltered.2 hc).ends
      (C := Regime.shelteredCode move distances) (hs.past.later hl)

/-- One level of evaluation is the same wherever the scope lies. -/
theorem shelters_evaluateWith (h : eng.Shelters move distances) (e : Expr)
    (hs : m.Shelters move fun scopes => Near distances (e.uses scopes)) :
    Yields (.sheltered move distances) m (eng.evaluateWith e) (eng.evaluateWith e) :=
  yields_evaluateWith h.runsBy e hs

/-- So is one level of execution. -/
theorem shelters_executeWith (h : eng.Shelters move distances) (s : Stmt)
    (hs : m.Shelters move fun scopes => Near distances (s.uses scopes)) :
    Obeys (.sheltered move distances) m (eng.executeWith s) (eng.executeWith s) fun c m' =>
      c.Sheltered move distances m'.store.environments :=
  (obeys_executeWith h.runsBy (p := ()) s [] (hs.imp fun _ hn =>
    Near.append.2 ⟨hn, List.forall_mem_nil _⟩)).mono
    fun _ _ _ _ hc => Completion.known_sheltered.1 hc.known

/-- So is one level of a call. -/
theorem shelters_invokeWith (h : eng.Shelters move distances) (site : Token) {callee : Value}
    {positional : List Value} {named : List (String × Value)}
    (hc : callee.Sheltered move distances m.store.environments)
    (hp : ∀ v ∈ positional, v.Sheltered move distances m.store.environments)
    (hn : ∀ p ∈ named, p.2.Sheltered move distances m.store.environments) :
    Yields (.sheltered move distances) m (eng.invokeWith site callee positional named)
      (eng.invokeWith site callee positional named) := by
  refine yields_invokeWith (C := Regime.shelteredCode move distances) h.toCallsBy ?_ site hc hp hn
  exact fun site _ hfn hlen hslots => yields_callClosure site fun _ =>
    Exec.shelters_inFrame (yields_callBody h.runsBy rfl hfn hlen hslots) fun _ _ hv => hv

end Engine

/-! ### Every execution -/

/-- An execution does the same wherever a scope lies, for code that looks no farther than that
scope. -/
theorem shelters_engine (move : Relocation) (distances : Distances) (levels : Nat) :
    (engine levels).Shelters move distances := by
  -- The parts of a step run one level down.
  induction levels with
  | zero =>
    exact ⟨⟨Regime.sheltered_binds, fun {_} _ {_ _ _} _ _ _ => .throw _⟩,
      fun {_} _ _ => .throw _, fun {_} _ _ => .throw _⟩
  | succ levels ih =>
    refine ⟨⟨Regime.sheltered_binds, fun {m} site {callee positional named} hc hp hn => ?_⟩,
      fun e he => ?_, fun s hs => ?_⟩
    · exact Engine.shelters_invokeWith ih site hc hp hn
    · exact Engine.shelters_evaluateWith ih e he
    · exact Engine.shelters_executeWith ih s hs

end ClassScript
