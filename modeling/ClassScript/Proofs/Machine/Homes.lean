import ClassScript.Proofs.Machine.Code
import ClassScript.Proofs.Machine.Natives
import ClassScript.Proofs.Scope.Sites

/-!
# Functions refer to the method around their declaration

A function copies the method it refers to from the call it is made in, and a call refers to the
method that its function refers to. So if every piece of code runs inside a call that refers to the
method around the code, every new function refers to the method around its own code, and whenever it
is called, its code runs inside such a call again. The lemmas say so of the steps that find, make
or declare functions; the rest of an execution is that of every regime, and `Regime.lexicalCode`
says which code may run inside a call.
-/

namespace ClassScript

open Exec (Stays Supplies Runs)

variable {S : List Site} {home : String}

/-- The functions whose code has places in a list, with the method around the code. -/
def Lexical (S : List Site) : Condition := fun fn home =>
  ∃ outer inner, homeOf outer = home ∧ homeOf inner = home ∧ fn.sites outer inner ⊆ S

/-- A completion whose result meets a condition, if it has one. -/
def Completion.Meets (P : Condition) : Completion → Prop
  | .normal => True
  | .returning v => v.Meets P

/-- Two engines that agree on code with places in a list, inside calls that refer to the method
around the code. -/
structure Engine.AgreeAt (S : List Site) (eng eng' : Engine) : Prop
    extends Engine.CallsAlike (Lexical S) eng eng' where
  /-- Loops have the same bound. -/
  fuel : eng'.fuel = eng.fuel
  /-- Expressions. -/
  evaluate : ∀ (e : Expr) (around : Option Enclosing), e.sites around ⊆ S →
    Supplies (Lexical S) (homeOf around) (eng.evaluate e) (eng'.evaluate e)
  /-- Statements. -/
  execute : ∀ (s : Stmt) (around : Option Enclosing), s.sites around ⊆ S →
    Stays (Lexical S) (homeOf around) (eng.execute s) (eng'.execute s)
      (Completion.Meets (Lexical S))

/-! ### Calls -/

/-- The default of a parameter has its places among those of the defaults. -/
theorem Param.sites_default {around : Option Enclosing} {params : List Param} {p : Param}
    (hp : p ∈ params) {e : Expr} (he : p.defaultValue = some e) :
    e.sites around ⊆ Param.sitesOf around params := by
  induction params with
  | nil => cases hp
  | cons q rest ih =>
    obtain ⟨type, name, value, variadic⟩ := q
    cases value with
    | none =>
      -- A parameter without a default has no places.
      rcases List.mem_cons.1 hp with rfl | hp
      · cases he
      · exact ih hp
    | some e' =>
      rcases List.mem_cons.1 hp with rfl | hp
      · cases he
        exact List.subset_append_left ..
      · exact List.Subset.trans (ih hp) (List.subset_append_right ..)

/-- The parts of a function have places in the list of its own. -/
theorem Lambda.sites_parts {outer inner : Option Enclosing} {fn : Lambda}
    (h : fn.sites outer inner ⊆ S) :
    Param.sitesOf outer fn.params ⊆ S ∧ Stmt.sitesOf inner fn.body ⊆ S := by
  obtain ⟨id, keyword, name, params, body⟩ := fn
  exact List.append_subset.1 (List.cons_subset.1 h).2

/-- A method has its places among those of the methods of its class. -/
theorem Lambda.sites_method {owner : NodeId} {fns : List Lambda}
    (h : Lambda.sitesOf owner fns ⊆ S) {fn : Lambda} (hfn : fn ∈ fns) :
    Lexical S fn fn.title := by
  induction fns with
  | nil => cases hfn
  | cons g rest ih =>
    obtain ⟨hfirst, hrest⟩ := List.append_subset.1 h
    rcases List.mem_cons.1 hfn with rfl | hfn
    · exact ⟨_, _, rfl, rfl, hfirst⟩
    · exact ih hrest hfn

/-! ### Names -/

/-- An assignment keeps the condition on the machine. -/
theorem runs_assignVariable {P : Condition} (name : String) (id : NodeId) {v : Value}
    (hv : v.Meets P) : Runs P home (assignVariable name id v) (assignVariable name id v) := by
  refine .modify (fun m hm => ?_) fun m => ?_
  · dsimp only
    split
    · next d hd =>
      unfold Environments.assignAt
      split
      · exact hm.assign _ name hv
      · exact hm
    · exact hm.assign _ name hv
  · split <;> rfl

/-- A new function refers to what the call refers to in which it is made. -/
theorem supplies_newClosure {P : Condition} {fn : Lambda} (hfn : P fn home) :
    Supplies P home (newClosure fn) (newClosure fn) :=
  Exec.runs_freshId.bind fun _ _ => .getBind fun _ _ => Exec.stays_home.bind fun _ hhome =>
    .pure (.closure (hhome ▸ hfn))

/-! ### Classes -/

/-- A method refers to itself. -/
theorem stays_newMethods {P : Condition} (scope : ScopeId) {fns : List Lambda}
    {methods : List (String × Closure)} (hfns : ∀ fn ∈ fns, P fn fn.title)
    (hmethods : ∀ p ∈ methods, p.2.Meets P) :
    Stays P home (Engine.newMethods scope fns methods) (Engine.newMethods scope fns methods)
      fun ms => ∀ p ∈ ms, p.2.Meets P := by
  induction fns generalizing methods with
  | nil => exact .pure hmethods
  | cons fn rest ih =>
    obtain ⟨hfn, hrest⟩ := List.forall_mem_cons.1 hfns
    exact Exec.runs_freshId.bind fun id _ =>
      ih hrest (List.forall_mem_cons.2 ⟨hfn, hmethods⟩)

/-- A class meets it if its methods and its superclasses do. -/
theorem runs_declareClass {P : Condition} (id : NodeId) (name : Token) {methods : List Lambda}
    {classes : List Class} (hmethods : ∀ fn ∈ methods, P fn fn.title)
    (hclasses : ∀ c ∈ classes, c.Meets P) :
    Runs P home (declareClass id name methods classes) (declareClass id name methods classes) := by
  refine .getBind fun _ _ => (Exec.runs_newScope ..).bind fun scope _ => ?_
  refine (Exec.runs_define scope "super" (.superclasses hclasses)).bind fun _ _ => ?_
  refine (stays_newMethods scope hmethods (List.forall_mem_nil _)).bind fun closures hclosures => ?_
  exact Exec.runs_freshId.bind fun cid _ =>
    Exec.runs_defineHere _ (.class (.mk hclasses hclosures))

/-! ### Executions -/

/-- Code runs inside of calls that refer to the method around it. -/
def Regime.lexicalCode (S : List Site) (home : String) :
    (Regime.meets (Lexical S) home).Code where
  -- Code fits if its sites are in the list, with the method around them that the call refers to.
  Place := Unit
  after _ _ := ()
  Fits _ e := ∃ around, homeOf around = home ∧ e.sites around ⊆ S
  Leads _ _ body := ∃ around, homeOf around = home ∧ Stmt.sitesOf around body ⊆ S
  Matches _ _ := True
  Binds _ fn _ slots :=
    fn.Meets (Lexical S) ∧ fn.home = home ∧ ∀ a ∈ slots, a.1 ∈ fn.declaration.params
  fits _ _ he := he
  leads _ _ hs := hs
  binds _ _ hb := hb
  evaluatesIn _ hm := ⟨hm.store, hm.home⟩
  executesIn _ hm := ⟨hm.store, hm.home⟩
  leaveScope _ hm' h := ⟨h, hm'.store, hm'.home⟩
  holdsScope hv := hv
  object place hc := by
    cases hc with
    | «class» hc => exact .instance place hc
  receiver _ := .read (fun _ => rfl) fun hm _ hv => hm.store.getAt? hv
  operand he hmem :=
    have ⟨around, hhome, hsites⟩ := he
    ⟨around, hhome, List.Subset.trans (Expr.sites_operand hmem around) hsites⟩
  lookUp _ := yields_lookUpVariable _ (fun _ _ _ => rfl) (fun _ => rfl)
    fun hm i v hv => hm.store.bindings i _ v hv
  lookUpSelf _ := yields_lookUpVariable _ (fun _ _ _ => rfl) (fun _ => rfl)
    fun hm i v hv => hm.store.bindings i _ v hv
  assign _ hv := Exec.stays_iff.1 (runs_assignVariable _ _ hv) _
  super _ := yields_evaluateSuper (Regime.meets_bindsSupers _ _) _ _ (fun _ _ _ _ _ _ => rfl)
    fun hm => hm.store.bindings
  lambda he :=
    have ⟨around, hhome, hsites⟩ := he
    Exec.stays_iff.1 (supplies_newClosure ⟨around, around, hhome, hhome, hsites⟩) _
  matched _ := trivial
  -- Every slot belongs to a parameter, whose default has its sites among those of the function.
  call hhome hfn _ := .assume fun hm => (Exec.stays_iff.1 (Exec.runs_newScope ..) _).mono
    fun _ _ _ _ _ => by
      cases hfn with
      | closure hfn =>
        exact ⟨hfn, hhome.symm.trans hm.home, fun a ha => (List.of_mem_zip ha).1⟩
  default hb he := by
    obtain ⟨⟨outer, inner, houter, -, hsites⟩, hhome, hparams⟩ := hb
    exact ⟨outer, houter.trans hhome, List.Subset.trans
      (Param.sites_default (hparams _ List.mem_cons_self) he) (Lambda.sites_parts hsites).1⟩
  bindParam hb hv := (Exec.stays_iff.1 (Exec.runs_define _ _ hv) _).mono fun _ _ _ _ _ =>
    ⟨hb.1, hb.2.1, fun a ha => hb.2.2 a (List.mem_cons_of_mem _ ha)⟩
  body hb := by
    obtain ⟨⟨outer, inner, -, hinner, hsites⟩, hhome, -⟩ := hb
    exact ⟨(), inner, hinner.trans hhome, (Lambda.sites_parts hsites).2⟩
  -- The sites of the first statement come first, and those of the statements behind it follow.
  operandOf hs hmem :=
    have ⟨around, hhome, hsites⟩ := hs
    ⟨around, hhome, List.Subset.trans (Stmt.sites_operand hmem around)
      (List.append_subset.1 hsites).1⟩
  branch hs hmem :=
    have ⟨around, hhome, hsites⟩ := hs
    ⟨around, hhome, List.append_subset.2 ⟨List.Subset.trans (Stmt.sites_branch hmem around)
      (List.append_subset.1 hsites).1, List.nil_subset _⟩⟩
  past hs _ :=
    have ⟨around, hhome, hsites⟩ := hs
    ⟨around, hhome, (List.append_subset.1 hsites).2⟩
  varDecl hs hv := (Exec.stays_iff.1 (Exec.runs_defineHere _ hv) _).mono fun _ _ _ _ _ =>
    have ⟨around, hhome, hsites⟩ := hs
    ⟨around, hhome, (List.append_subset.1 hsites).2⟩
  function {_ _ _ fn _} hs := by
    obtain ⟨around, hhome, hsites⟩ := hs
    obtain ⟨hfirst, hrest⟩ := List.append_subset.1 hsites
    have hfn : Lexical S fn home := ⟨around, around, hhome, hhome, (List.cons_subset.1 hfirst).2⟩
    exact (Exec.stays_iff.1 ((supplies_newClosure hfn).bind fun _ hv =>
      Exec.runs_defineHere _ hv) _).mono fun _ _ _ _ _ => ⟨around, hhome, hrest⟩
  classDecl hs hclasses := by
    obtain ⟨around, hhome, hsites⟩ := hs
    obtain ⟨hfirst, hrest⟩ := List.append_subset.1 hsites
    have hmethods := (List.append_subset.1 (List.cons_subset.1 hfirst).2).2
    refine (Exec.stays_iff.1 (runs_declareClass _ _ (fun fn hfn =>
      Lambda.sites_method hmethods hfn) fun c hc => ?_) _).mono
      fun _ _ _ _ _ => ⟨around, hhome, hrest⟩
    cases hclasses c hc with
    | «class» hc => exact hc
  block {_ _ b _} hs := by
    obtain ⟨around, hhome, hsites⟩ := hs
    obtain ⟨id, brace, body⟩ := b
    exact (Exec.stays_iff.1 (Exec.runs_newScope ..) _).mono fun _ _ _ _ _ =>
      ⟨(), around, hhome, (List.cons_subset.1 (List.append_subset.1 hsites).1).2⟩
  round hs := by
    obtain ⟨around, hhome, hsites⟩ := hs
    have hbody := (List.append_subset.1 (List.cons_subset.1 (List.append_subset.1 hsites).1).2).2
    refine (Exec.stays_iff.1 (Exec.runs_newScope ..) _).mono fun _ _ _ _ _ v hv => ?_
    exact (Exec.stays_iff.1 (Exec.runs_define _ _ hv) _).mono fun _ _ _ _ _ =>
      ⟨(), around, hhome, List.append_subset.2 ⟨hbody, List.nil_subset _⟩⟩

/-- In this regime, the known results are those that meet the condition. -/
theorem Completion.known_meets {P : Condition} {m : Machine} {c : Completion} :
    c.Known (.meets P home) m ↔ c.Meets P := by
  cases c <;> exact .rfl

namespace Engine

variable {eng eng' : Engine} {around : Option Enclosing}

/-- Engines that agree on code in its place run all such code alike, inside of every method. -/
theorem AgreeAt.runsBy (h : AgreeAt S eng eng') (home : String) :
    RunsBy (Regime.lexicalCode S home) eng eng' where
  toCallsBy := h.callsBy home
  fuel := h.fuel
  evaluate e he := by
    obtain ⟨around, rfl, hsites⟩ := he
    exact Exec.stays_iff.1 (h.evaluate e around hsites) _
  execute s _ hs := by
    obtain ⟨around, rfl, hsites⟩ := hs
    -- The sites of a row are those of its first statement and those of the rest.
    obtain ⟨hfirst, hrest⟩ := List.append_subset.1 hsites
    exact (Exec.stays_iff.1 (h.execute s around hfirst) _).mono fun _ _ _ _ hc =>
      (Completion.known_meets.2 hc).ends (C := Regime.lexicalCode S (homeOf around))
        ⟨around, rfl, hrest⟩

/-- One level of evaluation keeps functions lexical. -/
theorem supplies_evaluateWith (h : AgreeAt S eng eng') (e : Expr) (he : e.sites around ⊆ S) :
    Supplies (Lexical S) (homeOf around) (eng.evaluateWith e) (eng'.evaluateWith e) :=
  Exec.stays_iff.2 fun _ => yields_evaluateWith (h.runsBy _) e ⟨around, rfl, he⟩

/-- So does one level of execution. -/
theorem stays_executeWith (h : AgreeAt S eng eng') (s : Stmt) (hs : s.sites around ⊆ S) :
    Stays (Lexical S) (homeOf around) (eng.executeWith s) (eng'.executeWith s)
      (Completion.Meets (Lexical S)) := by
  refine Exec.stays_iff.2 fun m => (obeys_executeWith (h.runsBy (homeOf around)) (p := ()) s
    [] ?_).mono fun c _ _ _ hc => Completion.known_meets.1 hc.known
  exact ⟨around, rfl, List.append_subset.2 ⟨hs, List.nil_subset _⟩⟩

/-- A call runs the code of its function in a frame that refers to the method around the code. -/
theorem supplies_invokeWith (h : AgreeAt S eng eng') (site : Token) {callee : Value}
    {positional : List Value} {named : List (String × Value)} (hc : callee.Meets (Lexical S))
    (hp : ∀ v ∈ positional, v.Meets (Lexical S)) (hn : ∀ p ∈ named, p.2.Meets (Lexical S)) :
    Supplies (Lexical S) home (eng.invokeWith site callee positional named)
      (eng'.invokeWith site callee positional named) := by
  refine Exec.stays_iff.2 fun m => yields_invokeWith (C := Regime.lexicalCode S home)
    (h.callsBy home) ?_ site hc hp hn
  intro m fn site slots hfn hlen hslots
  refine yields_callClosure site fun _ => Exec.stays_iff.1 (.inFrame _ ?_) m
  exact Exec.stays_iff.2 fun _ => .assume fun hm =>
    yields_callBody (h.runsBy fn.home) hm.home hfn hlen hslots

end Engine

end ClassScript
