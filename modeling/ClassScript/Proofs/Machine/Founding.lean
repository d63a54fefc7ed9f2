import ClassScript.Proofs.Machine.Code
import ClassScript.Proofs.Machine.Founded

/-!
# Every step keeps a machine founded

One lemma for each step that scopes, names, functions or classes matter to. New scopes are made in
the current scope or in one that a function keeps, and new functions keep the current scope or a new
one, so that a function never keeps a scope that was not made. A class gets its number after its
superclasses were found, so that all of them have smaller ones. The rest of an execution is that of
every regime: `Regime.foundedCode` asks of code only that it runs in a scope that was made.
-/

namespace ClassScript

open Exec (Obeys Yields Abides)

variable {m : Machine}

/-! ### Scopes, names and identities -/

namespace Exec

variable {α : Type} {x y : Exec α} {Q Q' : α → Machine → Prop}

/-- A new identity is greater than all that were given out before. -/
theorem founds_freshId : Obeys .founded m freshId freshId fun id m' =>
    m.world.ids ≤ id ∧ id < m'.world.ids := by
  refine .modifyGet (fun _ => rfl) fun hm => ?_
  have hq : m.Quiet { m with store := { m.store with nextId := m.store.nextId + 1 } } :=
    .of_outside rfl rfl (Nat.le_succ _) rfl rfl rfl
  obtain ⟨hm', hl⟩ := hm.quiet hq { hm.contents with }
  exact ⟨hl, hm', Nat.le_refl _, Nat.lt_succ_self _⟩

/-- A new scope lies in one that was made before. -/
theorem founds_newScope (origin : Scope.Origin) {parent : ScopeId}
    (hp : parent < m.world.scopes) :
    Obeys .founded m (newScope origin parent) (newScope origin parent) fun i m' =>
      i < m'.world.scopes := by
  refine .modifyGet (fun _ => rfl) fun hm => ?_
  obtain ⟨hm', hl⟩ := hm.push origin hp
  exact ⟨hl, hm', Nat.lt_of_lt_of_eq (Nat.lt_succ_self _) (Environments.size_push ..).symm⟩

/-- A binding keeps the machine founded if its value refers to what is older. -/
theorem founds_define (scope : ScopeId) (name : String) {v : Value} (hv : v.Within m.world) :
    Abides .founded m (define scope name v) (define scope name v) := by
  refine .modifyGet (fun _ => rfl) fun hm => ?_
  exact ⟨⟨Nat.le_refl _, (Environments.grows_define ..).size_le⟩, hm.define scope name hv _,
    trivial⟩

/-- So does one in the current scope. -/
theorem founds_defineHere (name : String) {v : Value} (hv : v.Within m.world) :
    Abides .founded m (defineHere name v) (defineHere name v) :=
  .getBind (fun _ => rfl) fun _ => founds_define _ name hv

/-- Calls do not matter. -/
theorem founds_inFrame {frame : Frame}
    (h : Obeys .founded { m with
      calls := m.calls.push frame, deepest := max m.deepest (m.calls.depth + 1) } x y Q)
    (hQ : ∀ a m', Q a m' → Q' a { m' with calls := m'.calls.pop }) :
    Obeys .founded m (inFrame frame x) (inFrame frame y) Q' :=
  h.around ⟨rfl, fun _ => rfl⟩ (fun hm => ⟨hm.scope, hm.rooted, hm.bindings, hm.contents⟩)
    (fun _ hm' hl => ⟨hl, hm'.scope, hm'.rooted, hm'.bindings, hm'.contents⟩)
    fun a m' _ _ hq => hQ a m' hq

end Exec

/-- A method that gets a receiver keeps a new scope. -/
theorem Closure.founds_bind {fn : Closure} {receiver : Value} (hfn : fn.Within m.world)
    (hr : receiver.Within m.world) :
    Obeys .founded m (fn.bind receiver) (fn.bind receiver) fun fn' m' =>
      (Value.closure fn').Within m'.world := by
  refine .readBind (fun _ => rfl) fun _ =>
    (Exec.founds_newScope _ hfn).bind fun scope _ hl _ hscope => ?_
  refine (Exec.founds_define scope "self" (hr.mono hl)).bind fun _ _ hl' _ _ => ?_
  refine Exec.founds_freshId.bind fun _ _ hl'' _ _ => .pure fun _ => .closure ?_
  exact Nat.lt_of_lt_of_le hscope (le_trans hl' hl'').2

/-- A method with its receiver keeps a scope that was just made. -/
theorem Regime.founded_binds : Regime.founded.BindsMethods := by
  intro m place cls name fn depth hv hl
  exact Closure.founds_bind ((Value.All.instance_iff.1 hv).lookup hl) hv

/-- So does a method of the superclasses. -/
theorem Regime.founded_bindsSupers : Regime.founded.BindsSupers := by
  intro m supers name fn depth receiver hsupers hl hr
  exact Closure.founds_bind (Class.Within.lookupSupers (Value.All.superclasses_iff.1 hsupers) hl) hr

/-- A completion whose result refers to what is older, if it has one. -/
def Completion.Within (w : World) : Completion → Prop
  | .normal => True
  | .returning v => v.Within w

/-- Two engines that do the same on founded machines and keep them founded. -/
structure Engine.Founds (eng eng' : Engine) : Prop extends Engine.CallsBy .founded eng eng' where
  /-- Loops have the same bound. -/
  fuel : eng'.fuel = eng.fuel
  /-- Expressions. -/
  evaluate : ∀ {m : Machine} (e : Expr), Yields .founded m (eng.evaluate e) (eng'.evaluate e)
  /-- Statements. -/
  execute : ∀ {m : Machine} (s : Stmt),
    Obeys .founded m (eng.execute s) (eng'.execute s) fun c m' => c.Within m'.world

/-! ### Names -/

/-- An assignment keeps the machine founded. -/
theorem founds_assignVariable (name : String) (id : NodeId) {v : Value}
    (hv : v.Within m.world) :
    Abides .founded m (assignVariable name id v) (assignVariable name id v) := by
  -- Whatever scope gets the value, the machine is founded afterwards.
  have assigned : ∀ i : ScopeId, m.Founded →
      m.world ≤ Machine.world { m with
        store.environments := m.store.environments.define i name v } ∧
      Machine.Founded { m with
        store.environments := m.store.environments.define i name v } ∧ True := fun i hm =>
    ⟨⟨Nat.le_refl _, (Environments.grows_define ..).size_le⟩, hm.define i name hv _, trivial⟩
  refine .modifyGet (fun _ => rfl) fun hm => ?_
  dsimp only
  split
  · next d hd =>
    unfold Environments.assignAt
    split
    · exact assigned _ hm
    · exact ⟨le_refl _, hm, trivial⟩
  · exact assigned _ hm

/-- A new function keeps the current scope. -/
theorem founds_newClosure (fn : Lambda) :
    Yields .founded m (newClosure fn) (newClosure fn) := by
  refine Exec.founds_freshId.bind fun _ _ _ _ _ => .getBind (fun _ => rfl) fun hm => ?_
  exact .getBind (fun _ => rfl) fun _ => .pure fun _ => .closure hm.scope

/-! ### Classes -/

/-- The methods of a class keep the scope that they are made in. -/
theorem founds_newMethods {scope : ScopeId} (hs : scope < m.world.scopes) (fns : List Lambda)
    {methods : List (String × Closure)} (hmethods : ∀ p ∈ methods, p.2.Within m.world) :
    Obeys .founded m (Engine.newMethods scope fns methods) (Engine.newMethods scope fns methods)
      fun ms m' => ∀ p ∈ ms, p.2.Within m'.world := by
  induction fns generalizing m methods with
  | nil => exact .pure fun _ => hmethods
  | cons fn rest ih =>
    refine Exec.founds_freshId.bind fun id _ hl _ _ => ih (Nat.lt_of_lt_of_le hs hl.2) ?_
    exact List.forall_mem_cons.2
      ⟨Nat.lt_of_lt_of_le hs hl.2, fun p hp => (hmethods p hp).mono hl⟩

/-- A class gets its number when its superclasses have theirs. -/
theorem founds_declareClass (id : NodeId) (name : Token) (methods : List Lambda)
    {classes : List Class} (hclasses : ∀ c ∈ classes, c.Within m.world) :
    Abides .founded m (declareClass id name methods classes)
      (declareClass id name methods classes) := by
  refine .getBind (fun _ => rfl) fun hm =>
    (Exec.founds_newScope _ hm.scope).bind fun scope m₁ hl₁ _ hscope => ?_
  have hsupers : ∀ c ∈ classes, c.Within m₁.world := fun c hc => (hclasses c hc).mono hl₁
  refine (Exec.founds_define scope "super" (.superclasses hsupers)).bind fun _ m₂ hl₂ _ _ => ?_
  refine (founds_newMethods (Nat.lt_of_lt_of_le hscope hl₂.2) methods (List.forall_mem_nil _)).bind
    fun closures m₃ hl₃ _ hclosures => ?_
  refine Exec.founds_freshId.bind fun cid m₄ hl₄ _ hcid => ?_
  have hlater := le_trans hl₂ hl₃
  -- The superclasses were there before the identity of the class was given out.
  refine Exec.founds_defineHere _ (.class (.mk hcid.2 ?_ ?_ ?_))
  · exact fun s hs => Nat.lt_of_lt_of_le ((hsupers s hs).mono hlater).id_lt hcid.1
  · exact fun s hs => (hsupers s hs).mono (le_trans hlater hl₄)
  · exact fun p hp => (hclosures p hp).mono hl₄

/-! ### Executions -/

/-- Code runs in scopes that were made. -/
def Regime.foundedCode : Regime.founded.Code where
  -- All that code needs is a scope that was made, so its syntax plays no part.
  Place := Unit
  after _ _ := ()
  Fits m _ := m.scope < m.world.scopes
  Leads m _ _ := m.scope < m.world.scopes
  Matches _ _ := True
  Binds m fn scope _ := fn.scope < m.world.scopes ∧ scope < m.world.scopes
  fits _ hm _ := hm.scope
  leads _ hm _ := hm.scope
  binds hl _ h := ⟨Nat.lt_of_lt_of_le h.1 hl.2, Nat.lt_of_lt_of_le h.2 hl.2⟩
  evaluatesIn hs hm := ⟨hs, hm.rooted, hm.bindings, hm.contents⟩
  executesIn hs hm := ⟨hs, hm.rooted, hm.bindings, hm.contents⟩
  leaveScope hm hm' hl :=
    ⟨hl, Nat.lt_of_lt_of_le hm.scope hl.2, hm'.rooted, hm'.bindings, hm'.contents⟩
  holdsScope hv := hv
  object place hc := .instance place (Value.All.class_iff.1 hc)
  receiver _ := .read (fun _ => rfl) fun hm _ hv => hm.getAt? hv
  operand hs _ := hs
  lookUp _ := yields_lookUpVariable _ (fun _ _ _ => rfl) (fun _ => rfl)
    fun hm i v hv => hm.bindings i _ v hv
  lookUpSelf _ := yields_lookUpVariable _ (fun _ _ _ => rfl) (fun _ => rfl)
    fun hm i v hv => hm.bindings i _ v hv
  assign _ hv := founds_assignVariable _ _ hv
  super _ := yields_evaluateSuper Regime.founded_bindsSupers _ _ (fun _ _ _ _ _ _ => rfl)
    fun hm => hm.bindings
  lambda _ := founds_newClosure _
  matched _ := trivial
  -- The scope of a call lies in that of the function, which was made before.
  call _ hfn _ := (Exec.founds_newScope _ (Value.All.closure_iff.1 hfn)).mono
    fun _ _ hl _ hscope => ⟨Nat.lt_of_lt_of_le (Value.All.closure_iff.1 hfn) hl.2, hscope⟩
  default hb _ := hb.1
  bindParam hb hv := (Exec.founds_define _ _ hv).mono fun _ _ hl _ _ =>
    ⟨Nat.lt_of_lt_of_le hb.1 hl.2, Nat.lt_of_lt_of_le hb.2 hl.2⟩
  body hb := ⟨(), hb.2⟩
  operandOf hs _ := hs
  branch hs _ := hs
  past hs _ := hs
  varDecl _ hv := (Exec.founds_defineHere _ hv).mono fun _ _ _ hm _ => hm.scope
  function _ := (founds_newClosure _).bind fun _ _ _ _ hv =>
    (Exec.founds_defineHere _ hv).mono fun _ _ _ hm _ => hm.scope
  classDecl _ hclasses := (founds_declareClass _ _ _ fun c hc =>
    Value.All.class_iff.1 (hclasses c hc)).mono fun _ _ _ hm _ => hm.scope
  block hs := (Exec.founds_newScope _ hs).mono fun _ _ _ _ hscope => ⟨(), hscope⟩
  round hs := (Exec.founds_newScope _ hs).mono fun _ _ _ _ hscope _ hv =>
    (Exec.founds_define _ _ hv).mono fun _ _ hl _ _ => ⟨(), Nat.lt_of_lt_of_le hscope hl.2⟩

/-- In this regime, the known results are those that refer to what is older. -/
theorem Completion.known_founded {c : Completion} : c.Known .founded m ↔ c.Within m.world := by
  cases c <;> exact .rfl

namespace Engine

variable {eng eng' : Engine}

/-- Engines that keep machines founded run all code alike. -/
theorem Founds.runsBy (h : Founds eng eng') : RunsBy Regime.foundedCode eng eng' where
  toCallsBy := h.toCallsBy
  fuel := h.fuel
  evaluate e _ := h.evaluate e
  execute s _ _ := (h.execute s).mono fun _ _ _ hm hc =>
    (Completion.known_founded.2 hc).ends (C := Regime.foundedCode) hm.scope

/-- One level of evaluation keeps the machine founded. -/
theorem founds_evaluateWith (h : Founds eng eng') (e : Expr) :
    Yields .founded m (eng.evaluateWith e) (eng'.evaluateWith e) :=
  .assume fun hm => yields_evaluateWith h.runsBy e hm.scope

/-- So does one level of execution. -/
theorem founds_executeWith (h : Founds eng eng') (s : Stmt) :
    Obeys .founded m (eng.executeWith s) (eng'.executeWith s) fun c m' => c.Within m'.world :=
  .assume fun hm => (obeys_executeWith h.runsBy (p := ()) s [] hm.scope).mono
    fun _ _ _ _ hc => Completion.known_founded.1 hc.known

/-- So does one level of a call. -/
theorem founds_invokeWith (h : Founds eng eng') (site : Token) {callee : Value}
    {positional : List Value} {named : List (String × Value)} (hc : callee.Within m.world)
    (hp : ∀ v ∈ positional, v.Within m.world) (hn : ∀ p ∈ named, p.2.Within m.world) :
    Yields .founded m (eng.invokeWith site callee positional named)
      (eng'.invokeWith site callee positional named) := by
  refine yields_invokeWith (C := Regime.foundedCode) h.toCallsBy ?_ site hc hp hn
  exact fun site _ hfn hlen hslots => yields_callClosure site fun _ =>
    Exec.founds_inFrame (yields_callBody h.runsBy rfl hfn hlen hslots) fun _ _ hv => hv

end Engine

end ClassScript
