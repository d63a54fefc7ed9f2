import ClassScript.Machine.Run
import ClassScript.Proofs.Machine.Handed
import ClassScript.Proofs.Scope.Parts

/-!
# Code in every regime

Most of what an execution does with code is the same whatever is known meanwhile: operands are
evaluated one after the other, arguments are bound in front of a body, and loops go round.
`Regime.Code` states what a regime has to know of code for this: which code may run where, and what
the steps do that run no code themselves, those of names, new functions and new scopes. An execution
then stays in the regime if the level below does. A regime proves the record; nothing else of an
execution depends on it.
-/

namespace ClassScript

open Exec (Obeys Yields Abides)

/-! ### Steps of code -/

/-- Makes a class when its superclasses are at hand. -/
def declareClass (id : NodeId) (name : Token) (methods : List Lambda) (classes : List Class) :
    Exec Unit := do
  let scope ← Exec.newScope (.supers id) (← get).scope
  Exec.define scope "super" (.superclasses classes)
  let methods ← Engine.newMethods scope methods []
  let cls : Class := { id := ← Exec.freshId, name := name.lexeme, supers := classes, methods }
  Exec.defineHere name.lexeme (.class cls)

/-- The receiver that is bound in a scope, if there is one. -/
def receiverIn (scope : ScopeId) : Exec (Option Value) :=
  Exec.read (·.environments.getAt? scope 0 "self")

namespace Engine

variable (eng : Engine)

/-- Runs the body of a function inside its frame. -/
def callBody (fn : Closure) (slots : List (Slot Value)) : Exec Value := do
  let scope ← Exec.newScope (.call fn.declaration.id) fn.scope
  eng.bindParams fn scope (fn.declaration.params.zip slots)
  let completion ← eng.executeIn scope fn.declaration.body
  if fn.isInitializer then
    match (← receiverIn fn.scope) with
    | some self => return self
    | none => Exec.fault
  else
    match completion with
    | .returning v => return v
    | .normal => return .nil

/-- A call runs the body in a frame, unless there are too many calls. -/
theorem callClosure_eq (fn : Closure) (site : Token) (slots : List (Slot Value)) :
    eng.callClosure fn site slots = (do
      if (← get).maxDepth ≤ (← get).calls.depth then Exec.raiseAt site .stackOverflow
      else Exec.inFrame ⟨fn.home⟩ (eng.callBody fn slots)) :=
  rfl

/-- The superclasses of a class are evaluated before it is made. -/
theorem executeClass_eq (id : NodeId) (name : Token) (supers : List NameUse)
    (methods : List Lambda) :
    eng.executeClass id name supers methods =
      (do declareClass id name methods (← eng.evaluateSupers supers)) :=
  rfl

end Engine

/-! ### What a regime has to know -/

/-- What a regime knows of code: which code may run on which machine, and what the steps of code do
there that run no code themselves. -/
structure Regime.Code (R : Regime) where
  /-- Where statements stand in the syntax, as far as it matters. -/
  Place : Type
  /-- The place behind a statement. -/
  after : Place → Stmt → Place
  /-- An expression may be evaluated on a machine. -/
  Fits : Machine → Expr → Prop
  /-- Statements may be executed on a machine, one behind the other from a place on. -/
  Leads : Machine → Place → List Stmt → Prop
  /-- Arguments match parameters, as far as it matters. -/
  Matches : List Param → List (Slot Value) → Prop
  /-- These parameters of a function may be bound in a scope, in front of its body. -/
  Binds : Machine → Closure → ScopeId → List (Param × Slot Value) → Prop
  /-- An expression that may be evaluated stays one. -/
  fits : ∀ {m m' e}, R.Later m m' → R.Inv m' → Fits m e → Fits m' e
  /-- Statements that may be executed stay so. -/
  leads : ∀ {m m' p body}, R.Later m m' → R.Inv m' → Leads m p body → Leads m' p body
  /-- Parameters that may be bound stay so. -/
  binds : ∀ {m m' fn scope slots}, R.Later m m' → R.Inv m' → Binds m fn scope slots →
    Binds m' fn scope slots
  /-- The scope may be one where an expression may be evaluated. -/
  evaluatesIn : ∀ {m scope e}, Fits { m with scope } e → R.Inv m → R.Inv { m with scope }
  /-- The scope may be one where statements may be executed. -/
  executesIn : ∀ {m scope p body}, Leads { m with scope } p body → R.Inv m →
    R.Inv { m with scope }
  /-- A scope that is put back was no change. -/
  leaveScope : ∀ {m m' scope}, R.Inv m → R.Inv m' → R.Later { m with scope } m' →
    R.Later m { m' with scope := m.scope } ∧ R.Inv { m' with scope := m.scope }
  /-- The current scope does not matter for values. -/
  holdsScope : ∀ {m scope v}, R.Holds m v → R.Holds { m with scope } v
  /-- An object is known if its class is. -/
  object : ∀ {m cls} (place : Nat), R.Holds m (.class cls) → R.Holds m (.instance place cls)
  /-- The receiver of a method is known. -/
  receiver : ∀ {m} (scope : ScopeId), Obeys R m (receiverIn scope) (receiverIn scope)
    fun found m' => ∀ v ∈ found, R.Holds m' v
  /-- The operands of an expression may be evaluated where the expression may. -/
  operand : ∀ {m e e'}, Fits m e → e' ∈ e.operands → Fits m e'
  /-- A variable is known. -/
  lookUp : ∀ {m use}, Fits m (.var use) →
    Yields R m (lookUpVariable use.name use.name.lexeme use.id)
      (lookUpVariable use.name use.name.lexeme use.id)
  /-- So is a receiver. -/
  lookUpSelf : ∀ {m id keyword}, Fits m (.self id keyword) →
    Yields R m (lookUpVariable keyword "self" id) (lookUpVariable keyword "self" id)
  /-- A variable may get a value that is known. -/
  assign : ∀ {m id name value v}, Fits m (.assign id name value) → R.Holds m v →
    Abides R m (assignVariable name.lexeme id v) (assignVariable name.lexeme id v)
  /-- A method of the superclasses is known. -/
  super : ∀ {m id keyword method}, Fits m (.super id keyword method) →
    Yields R m (evaluateSuper id keyword method) (evaluateSuper id keyword method)
  /-- A new function is known. -/
  lambda : ∀ {m fn}, Fits m (.lambda fn) → Yields R m (newClosure fn) (newClosure fn)
  /-- Arguments match if there is one for every parameter. -/
  matched : ∀ {params slots}, slots.length = params.length → Matches params slots
  /-- A call of a function that is known has a scope in which its parameters may be bound. -/
  call : ∀ {m fn slots}, m.home = fn.home → R.Holds m (.closure fn) →
    Matches fn.declaration.params slots →
    Obeys R m (Exec.newScope (.call fn.declaration.id) fn.scope)
      (Exec.newScope (.call fn.declaration.id) fn.scope)
      fun scope m' => Binds m' fn scope (fn.declaration.params.zip slots)
  /-- The default of a parameter may be evaluated in the scope that the function keeps. -/
  default : ∀ {m fn scope p slot rest e}, Binds m fn scope ((p, slot) :: rest) →
    p.defaultValue = some e → Fits { m with scope := fn.scope } e
  /-- The other parameters may be bound behind one. -/
  bindParam : ∀ {m fn scope p slot rest v}, Binds m fn scope ((p, slot) :: rest) → R.Holds m v →
    Obeys R m (Exec.define scope p.name.lexeme v) (Exec.define scope p.name.lexeme v)
      fun _ m' => Binds m' fn scope rest
  /-- The body may be executed behind all parameters. -/
  body : ∀ {m fn scope}, Binds m fn scope [] →
    ∃ p, Leads { m with scope } p fn.declaration.body
  /-- The operands of a statement may be evaluated where the statement may be executed. -/
  operandOf : ∀ {m p s rest e}, Leads m p (s :: rest) → e ∈ s.operands → Fits m e
  /-- So may its branches be executed. -/
  branch : ∀ {m p s rest s'}, Leads m p (s :: rest) → s' ∈ s.branches → Leads m p [s']
  /-- Without a declaration, what follows a statement may be executed at once. -/
  past : ∀ {m p s rest}, Leads m p (s :: rest) → ¬s.Declares → Leads m (after p s) rest
  /-- What follows a variable may be executed when the variable has a value. -/
  varDecl : ∀ {m p id name initial rest v}, Leads m p (.varDecl id name initial :: rest) →
    R.Holds m v →
    Obeys R m (Exec.defineHere name.lexeme v) (Exec.defineHere name.lexeme v)
      fun _ m' => Leads m' (after p (.varDecl id name initial)) rest
  /-- What follows a function may be executed when the function is declared. -/
  function : ∀ {m p id fn rest}, Leads m p (.function id fn :: rest) →
    Obeys R m (do Exec.defineHere fn.title (← newClosure fn))
      (do Exec.defineHere fn.title (← newClosure fn))
      fun _ m' => Leads m' (after p (.function id fn)) rest
  /-- What follows a class may be executed when the class is declared. -/
  classDecl : ∀ {m p id name supers methods rest classes},
    Leads m p (.classDecl id name supers methods :: rest) →
    (∀ c ∈ classes, R.Holds m (.class c)) →
    Obeys R m (declareClass id name methods classes) (declareClass id name methods classes)
      fun _ m' => Leads m' (after p (.classDecl id name supers methods)) rest
  /-- A block has a scope in which its statements may be executed. -/
  block : ∀ {m p b rest}, Leads m p (.block b :: rest) →
    Obeys R m (Exec.newScope (.block b.id) m.scope) (Exec.newScope (.block b.id) m.scope)
      fun scope m' => ∃ q, Leads { m' with scope } q b.body
  /-- A round of a loop has a scope in which the body may be executed when the element is bound. -/
  round : ∀ {m p id keyword name iterable body rest},
    Leads m p (.forIn id keyword name iterable body :: rest) →
    Obeys R m (Exec.newScope (.loop id) m.scope) (Exec.newScope (.loop id) m.scope)
      fun scope m' => ∀ v, R.Holds m' v →
        Obeys R m' (Exec.define scope name.lexeme v) (Exec.define scope name.lexeme v)
          fun _ m'' => ∃ q, Leads { m'' with scope } q [.block body]

/-! ### Names -/

section Names

variable {R : Regime} {m : Machine} {id : NodeId}

/-- What a variable stands for is known if scopes are read alike and bind what is known. -/
theorem yields_lookUpVariable (token : Token) {name : String}
    (hlocal : R.Inv m → ∀ d, m.distances[id]? = some d →
      (R.view m.store.environments).getAt? m.scope d name =
        m.store.environments.getAt? m.scope d name)
    (hglobal : R.Inv m → (R.view m.store.environments).get? globalScope name =
      m.store.environments.get? globalScope name)
    (hbound : R.Inv m → ∀ (i : ScopeId) (v : Value),
      (m.store.environments.bindings i)[name]? = some v → R.Holds m v) :
    Yields R m (lookUpVariable token name id) (lookUpVariable token name id) := by
  refine .getBind (fun hm => ?_) fun hm => ?_
  · cases hd : m.distances[id]? with
    | some d => simp only [Regime.seen, Regime.seenStore, hd, hlocal hm d hd]
    | none => simp only [Regime.seen, Regime.seenStore, hd, hglobal hm]
  · dsimp only
    split
    · next v hv =>
      -- With a distance or without one, some scope binds the value.
      have hsome : ∃ i, (m.store.environments.bindings i)[name]? = some v := by
        split at hv
        · exact Environments.bindings_of_getAt? hv
        · exact Environments.bindings_of_get? hv
      obtain ⟨i, hi⟩ := hsome
      exact .pure fun _ => hbound hm i v hi
    · exact .raiseAt ..

/-- A method of the superclasses is known if scopes are read alike and bind what is known, and if
methods of superclasses are known with their receiver. -/
theorem yields_evaluateSuper (hR : R.BindsSupers) (keyword : Token) (method : Option Token)
    (hlocal : R.Inv m → ∀ d, m.distances[id]? = some d → ∀ i ≤ d, ∀ name,
      (R.view m.store.environments).getAt? m.scope i name =
        m.store.environments.getAt? m.scope i name)
    (hbound : R.Inv m → ∀ (i : ScopeId) (name : String) (v : Value),
      (m.store.environments.bindings i)[name]? = some v → R.Holds m v) :
    Yields R m (evaluateSuper id keyword method) (evaluateSuper id keyword method) := by
  have hknown : R.Inv m → ∀ {i : ScopeId} {d : Nat} {name : String} {v : Value},
      m.store.environments.getAt? i d name = some v → R.Holds m v := fun hm _ _ name v hv =>
    have ⟨i, hi⟩ := Environments.bindings_of_getAt? hv
    hbound hm i name v hi
  refine .getBind (fun hm => ?_) fun hm => ?_
  · cases hd : m.distances[id]? with
    | none => simp only [Regime.seen, hd]
    | some d =>
      -- The receiver is looked up one scope nearer than the superclasses.
      simp only [Regime.seen, Regime.seenStore, hd, hlocal hm d hd d (Nat.le_refl d),
        hlocal hm d hd (d - 1) (Nat.sub_le d 1)]
  · split
    · exact .raiseAt ..
    · split
      · next supers hsupers =>
        refine .getBind (fun _ => rfl) fun _ => ?_
        split
        · exact .raiseAt ..
        · split
          · exact .fault
          · next self hself =>
            -- A method of the superclasses, or one that objects of native classes have.
            split
            · next fn depth hfn =>
              exact (hR (hknown hm hsupers) hfn (hknown hm hself)).bind
                fun _ _ _ _ hfn' => .pure fun _ => hfn'
            · exact .raiseAt ..
            · split
              · exact NativeMethod.yields_bind (hknown hm hself)
              · exact .raiseAt ..
      · exact .raiseAt ..

end Names

variable {R : Regime} {C : R.Code} {m : Machine}

/-- What is known behind a statement: what may be executed next, or the result. -/
def Regime.Code.Ends (C : R.Code) (p : C.Place) (rest : List Stmt) (m : Machine) :
    Completion → Prop
  | .normal => C.Leads m p rest
  | .returning v => R.Holds m v

/-- What is known behind statements, if nothing is to follow them. -/
def Completion.Known (R : Regime) (m : Machine) : Completion → Prop
  | .normal => True
  | .returning v => R.Holds m v

/-- What is known behind a statement is known of its result. -/
theorem Regime.Code.Ends.known {p : C.Place} {rest : List Stmt} {c : Completion}
    (h : C.Ends p rest m c) : c.Known R m := by
  cases c with
  | normal => trivial
  | returning v => exact h

/-- What is known of the result of a statement, where something else may be executed next. -/
theorem Completion.Known.ends {p : C.Place} {rest : List Stmt} {c : Completion} (h : c.Known R m)
    (hrest : C.Leads m p rest) : C.Ends p rest m c := by
  cases c with
  | normal => exact hrest
  | returning v => exact h

/-- The current scope does not matter for results. -/
theorem Regime.Code.known_scope (C : R.Code) {scope : ScopeId} {c : Completion}
    (h : c.Known R m) : c.Known R { m with scope } := by
  cases c with
  | normal => trivial
  | returning v => exact C.holdsScope h

/-- A step in another scope. -/
theorem Regime.Code.obeys_inScope {α : Type} {x y : Exec α} {Q Q' : α → Machine → Prop}
    (C : R.Code) {scope : ScopeId} (hs : R.Inv m → R.Inv { m with scope })
    (h : Obeys R { m with scope } x y Q)
    (hQ : ∀ a m', Q a m' → Q' a { m' with scope := m.scope }) :
    Obeys R m (Exec.inScope scope x) (Exec.inScope scope y) Q' :=
  h.around ⟨rfl, fun _ => rfl⟩ hs C.leaveScope fun a m' _ _ hq => hQ a m' hq

/-- Two engines that run the code of a regime alike. -/
structure Engine.RunsBy (C : R.Code) (eng eng' : Engine) : Prop extends
    Engine.CallsBy R eng eng' where
  /-- Loops have the same bound. -/
  fuel : eng'.fuel = eng.fuel
  /-- Expressions. -/
  evaluate : ∀ {m : Machine} (e : Expr), C.Fits m e →
    Yields R m (eng.evaluate e) (eng'.evaluate e)
  /-- Statements. -/
  execute : ∀ {m : Machine} {p : C.Place} (s : Stmt) {rest : List Stmt},
    C.Leads m p (s :: rest) →
    Obeys R m (eng.execute s) (eng'.execute s) fun c m' => C.Ends (C.after p s) rest m' c

namespace Engine

variable {eng eng' : Engine} {p : C.Place}

/-! ### Calls -/

/-- Statements in a row obey a regime. -/
theorem obeys_executeAll (h : RunsBy C eng eng') {body : List Stmt} (hs : C.Leads m p body) :
    Obeys R m (eng.executeAll body) (eng'.executeAll body) fun c m' => c.Known R m' := by
  induction body generalizing m p with
  | nil => exact .pure fun _ => trivial
  | cons s rest ih =>
    refine (h.execute s hs).bind fun c m' _ _ hc => ?_
    cases c with
    | normal => exact ih hc
    | returning v => exact .pure fun _ => hc

/-- So do statements in a scope of their own. -/
theorem obeys_executeIn (h : RunsBy C eng eng') {scope : ScopeId} {body : List Stmt}
    (hs : ∃ p, C.Leads { m with scope } p body) :
    Obeys R m (eng.executeIn scope body) (eng'.executeIn scope body) fun c m' => c.Known R m' :=
  have ⟨_, hs⟩ := hs
  C.obeys_inScope (C.executesIn hs) (obeys_executeAll h hs) fun _ _ => C.known_scope

/-- An argument, given or from a default, is known. -/
theorem yields_argument (h : RunsBy C eng eng') {scope : ScopeId} {p : Param} {slot : Slot Value}
    (hp : ∀ e, p.defaultValue = some e → C.Fits { m with scope } e)
    (hslot : slot.All (R.Holds m)) :
    Yields R m (eng.argument scope p slot) (eng'.argument scope p slot) := by
  unfold argument
  split
  · exact .pure fun _ => hslot
  · exact Exec.abides_freshId.bind fun _ _ hl _ _ => .pure fun _ =>
      R.varargs.2 fun v hv => R.holds hl (hslot v hv)
  · split
    · next e he =>
      exact C.obeys_inScope (C.evaluatesIn (hp e he)) (h.evaluate e (hp e he)) fun _ _ hv =>
        C.holdsScope hv
    · exact .fault

/-- Every parameter is bound behind its argument. -/
theorem obeys_bindParams (h : RunsBy C eng eng') {fn : Closure} {scope : ScopeId}
    {slots : List (Param × Slot Value)} (hb : C.Binds m fn scope slots)
    (hslots : ∀ a ∈ slots, a.2.All (R.Holds m)) :
    Obeys R m (eng.bindParams fn scope slots) (eng'.bindParams fn scope slots) fun _ m' =>
      C.Binds m' fn scope [] := by
  induction slots generalizing m with
  | nil => exact .pure fun _ => hb
  | cons a rest ih =>
    obtain ⟨p, slot⟩ := a
    obtain ⟨hfirst, hrest⟩ := List.forall_mem_cons.1 hslots
    refine (yields_argument h (fun _ => C.default hb) hfirst).bind fun v m₁ hl₁ hm₁ hv => ?_
    refine (C.bindParam (C.binds hl₁ hm₁ hb) hv).bind fun _ m₂ hl₂ _ hb₂ => ?_
    exact ih hb₂ fun b hmem => (hrest b hmem).mono fun _ => R.holds (R.trans hl₁ hl₂)

/-- Inside its frame, a function binds its parameters in a new scope and runs its body there. -/
theorem yields_callBody (h : RunsBy C eng eng') {fn : Closure} {slots : List (Slot Value)}
    (hhome : m.home = fn.home) (hfn : R.Holds m (.closure fn))
    (hmatch : C.Matches fn.declaration.params slots)
    (hslots : ∀ s ∈ slots, s.All (R.Holds m)) :
    Yields R m (eng.callBody fn slots) (eng'.callBody fn slots) := by
  -- The scope of the call, then the parameters in it, then the body.
  refine (C.call hhome hfn hmatch).bind fun scope m₁ hl₁ _ hb => ?_
  have hargs : ∀ a ∈ fn.declaration.params.zip slots, a.2.All (R.Holds m₁) := fun a ha =>
    (hslots _ (List.of_mem_zip ha).2).mono fun _ => R.holds hl₁
  refine (obeys_bindParams h hb hargs).bind fun _ m₂ _ _ hb₂ => ?_
  refine (obeys_executeIn h (C.body hb₂)).bind fun c m₃ _ _ hc => ?_
  split
  · -- An initializer answers its receiver, and another function what its body returns.
    refine (C.receiver fn.scope).bind fun found _ _ _ hfound => ?_
    split
    · exact .pure fun _ => hfound _ rfl
    · exact .fault
  · cases c with
    | returning v => exact .pure fun _ => hc
    | normal => exact .flat trivial

/-- A call that there is no room for is refused. -/
theorem yields_callClosure {fn : Closure} (site : Token) {slots : List (Slot Value)}
    (hbody : (m.calls.depth : Int) < m.maxDepth →
      Yields R m (Exec.inFrame ⟨fn.home⟩ (eng.callBody fn slots))
        (Exec.inFrame ⟨fn.home⟩ (eng'.callBody fn slots))) :
    Yields R m (eng.callClosure fn site slots) (eng'.callClosure fn site slots) := by
  rw [callClosure_eq, callClosure_eq]
  refine .getBind (fun _ => rfl) fun _ => .getBind (fun _ => rfl) fun _ => ?_
  split
  · exact .raiseAt ..
  · next full => exact hbody (Int.lt_of_not_ge full)

end Engine

/-- A method is the same function with a receiver as without. -/
theorem Closure.declaration_bind {fn fn' : Closure} {receiver : Value} {m m' : Machine}
    (h : fn.bind receiver m = .ok fn' m') : fn'.declaration = fn.declaration := by
  cases h
  rfl

/-- The parameters of a class are those of the initializer that its lookup finds. -/
theorem Class.params_of_lookup {cls : Class} {init : Closure} {depth : Nat}
    (h : cls.lookup "init" = .found init depth) : cls.params = init.declaration.params := by
  unfold Class.params Class.initializer?
  rw [h]
  rfl

namespace Engine

variable {eng eng' : Engine}

/-- Two engines that call functions alike, whatever it is that the functions are called for. -/
def CallsFunctions (C : R.Code) (eng eng' : Engine) : Prop :=
  ∀ {m : Machine} {fn : Closure} (site : Token) {slots : List (Slot Value)},
    R.Holds m (.closure fn) → C.Matches fn.declaration.params slots →
    (∀ s ∈ slots, s.All (R.Holds m)) →
    Yields R m (eng.callClosure fn site slots) (eng'.callClosure fn site slots)

/-- An object is made and initialized within a regime. -/
theorem yields_instantiate (hR : R.BindsMethods) (h : CallsFunctions C eng eng')
    {cls : Class} (site : Token) {slots : List (Slot Value)} (hcls : R.Holds m (.class cls))
    (hmatch : C.Matches cls.params slots) (hslots : ∀ s ∈ slots, s.All (R.Holds m)) :
    Yields R m (eng.instantiate cls site slots) (eng'.instantiate cls site slots) := by
  refine (Obeys.allocate rfl (.of_outside rfl rfl (Nat.le_refl _) rfl rfl rfl)
    fun hm => (R.contents hm).newFields).bind fun place m₁ hl₁ _ _ => ?_
  -- The object exists from here on, and stays known while its initializer runs.
  have hself : R.Holds m₁ (.instance place cls) := C.object place (R.holds hl₁ hcls)
  dsimp only
  split
  · exact .pure fun _ => hself
  · exact .raise _
  · -- The initializer is the method `init` with the object as its receiver.
    next init depth hinit =>
    have hbind := (hR hself hinit).also fun _ _ => Closure.declaration_bind
    refine hbind.bind fun fn m₂ hl₂ _ hfn => ?_
    rw [Class.params_of_lookup hinit, ← hfn.2] at hmatch
    refine (h site hfn.1 hmatch fun s hs =>
      (hslots s hs).mono fun _ => R.holds (R.trans hl₁ hl₂)).bind fun _ _ hl₃ _ _ => ?_
    exact .pure fun _ => R.holds (R.trans hl₂ hl₃) hself

/-- A call with its slots laid out stays within a regime. -/
theorem yields_apply (hcalls : CallsBy R eng eng') (h : CallsFunctions C eng eng')
    {callee : Value} (site : Token) {slots : List (Slot Value)} (hc : R.Holds m callee)
    (hmatch : ∀ params ∈ callee.params?, C.Matches params slots)
    (hslots : ∀ s ∈ slots, s.All (R.Holds m)) :
    Yields R m (eng.apply callee site slots) (eng'.apply callee site slots) := by
  have hargs := obeys_nativeArguments hslots
  unfold apply
  -- One case for each kind of value that can be called.
  split
  · exact h site hc (hmatch _ rfl) hslots
  · exact yields_instantiate hcalls.binds h site hc (hmatch _ rfl) hslots
  · split
    · exact .raise _
    · exact hargs.bind fun _ _ _ _ hvs => yields_construct _ hvs
  · exact hargs.bind fun _ _ _ _ hvs => yields_runFunction hcalls _ hvs
  · exact hargs.bind fun _ _ hl _ hvs =>
      yields_run hcalls _ (R.holds hl (R.boundMethod.1 hc)) hvs
  · exact .fault

/-- So does a call with arguments that are still to be laid out. -/
theorem yields_invokeWith (hcalls : CallsBy R eng eng')
    (h : CallsFunctions C eng eng') (site : Token) {callee : Value} {positional : List Value}
    {named : List (String × Value)} (hc : R.Holds m callee) (hp : ∀ v ∈ positional, R.Holds m v)
    (hn : ∀ p ∈ named, R.Holds m p.2) :
    Yields R m (eng.invokeWith site callee positional named)
      (eng'.invokeWith site callee positional named) := by
  unfold invokeWith
  split
  · -- What is called has no parameters, so it is not callable.
    exact .raiseAt ..
  · next params hparams =>
    split
    · exact .raiseAt ..
    · next slots hslots =>
      -- Laying the arguments out adds nothing to them, so the slots hold known values.
      obtain ⟨hlen, hall⟩ := Slot.ofCall_ok hp hn hslots
      refine .located _ (.atSite ?_ fun _ _ => R.holdsSite)
      refine yields_apply hcalls h site (R.holdsSite hc) ?_ fun s hs =>
        (hall s hs).mono fun _ => R.holdsSite
      intro params' hparams'
      have hsame : params = params' := Option.some.inj (hparams.symm.trans hparams')
      exact C.matched (hlen.trans (congrArg List.length hsame))

/-! ### Expressions -/

/-- Expressions in a row have known values. -/
theorem obeys_evaluateAll (h : RunsBy C eng eng') {es : List Expr} (he : ∀ e ∈ es, C.Fits m e) :
    Obeys R m (eng.evaluateAll es) (eng'.evaluateAll es) fun vs m' => ∀ v ∈ vs, R.Holds m' v := by
  induction es generalizing m with
  | nil => exact .pure fun _ => List.forall_mem_nil _
  | cons e rest ih =>
    obtain ⟨hfirst, hrest⟩ := List.forall_mem_cons.1 he
    refine (h.evaluate e hfirst).bind fun v m₁ hl₁ hm₁ hv => ?_
    exact (ih fun e' he' => C.fits hl₁ hm₁ (hrest e' he')).bind fun vs _ hl₂ _ hvs =>
      .pure fun _ => List.forall_mem_cons.2 ⟨R.holds hl₂ hv, hvs⟩

/-- So have named arguments. -/
theorem obeys_evaluateNamed (h : RunsBy C eng eng') {args : List NamedArg}
    (ha : ∀ a ∈ args, C.Fits m a.value) :
    Obeys R m (eng.evaluateNamed args) (eng'.evaluateNamed args) fun vs m' =>
      ∀ p ∈ vs, R.Holds m' p.2 := by
  induction args generalizing m with
  | nil => exact .pure fun _ => List.forall_mem_nil _
  | cons a rest ih =>
    obtain ⟨hfirst, hrest⟩ := List.forall_mem_cons.1 ha
    refine (h.evaluate a.value hfirst).bind fun v m₁ hl₁ hm₁ hv => ?_
    exact (ih fun b hb => C.fits hl₁ hm₁ (hrest b hb)).bind fun vs _ hl₂ _ hvs =>
      .pure fun _ => List.forall_mem_cons.2 ⟨R.holds hl₂ hv, hvs⟩

/-- An expression that may be evaluated has a value that is known. -/
theorem yields_evaluateWith (h : RunsBy C eng eng') (e : Expr) (he : C.Fits m e) :
    Yields R m (eng.evaluateWith e) (eng'.evaluateWith e) := by
  have hcalls := h.toCallsBy
  have parts : ∀ e' ∈ e.operands, C.Fits m e' := fun e' => C.operand he
  cases e with
  | literal id token value => exact .flat (by cases value <;> trivial)
  | group id paren inner => exact h.evaluate inner (parts _ List.mem_cons_self)
  | list id bracket elements =>
    exact (obeys_evaluateAll h parts).bind fun _ _ _ _ hvs => Exec.yields_newList hvs
  | var use => exact C.lookUp he
  | self id keyword => exact C.lookUpSelf he
  | assign id name value =>
    -- The value is known before the assignment and still known behind it.
    refine (h.evaluate value (parts _ List.mem_cons_self)).bind fun v m₁ hl₁ hm₁ hv => ?_
    exact (C.assign (C.fits hl₁ hm₁ he) hv).bind fun _ _ hl₂ _ _ => .pure fun _ => R.holds hl₂ hv
  | super id keyword method => exact C.super he
  | unary id op right =>
    exact (h.evaluate right (parts _ List.mem_cons_self)).bind fun _ _ _ _ hv =>
      yields_send hcalls op _ hv (List.forall_mem_nil _)
  | binary id left op right =>
    -- What is known of the left operand has to last while the right one is evaluated.
    obtain ⟨hleft, hright⟩ := List.forall_mem_cons.1 parts
    rw [List.forall_mem_singleton] at hright
    refine (h.evaluate left hleft).bind fun l m₁ hl₁ hm₁ hl => ?_
    refine (h.evaluate right (C.fits hl₁ hm₁ hright)).bind fun r m₂ hl₂ _ hr => ?_
    exact yields_operate hcalls op (R.holds hl₂ hl) hr
  | logical id left op right =>
    -- The right operand is evaluated only if the left one does not decide.
    obtain ⟨hleft, hright⟩ := List.forall_mem_cons.1 parts
    rw [List.forall_mem_singleton] at hright
    refine (h.evaluate left hleft).bind fun l m₁ hl₁ _ hl => ?_
    refine (abides_condition hcalls op hl).bind fun t m₂ hl₂ hm₂ _ => ?_
    split
    · exact .pure fun _ => R.holds hl₂ hl
    · exact h.evaluate right (C.fits (R.trans hl₁ hl₂) hm₂ hright)
  | call id callee paren args named =>
    -- Callee, positional and named arguments are evaluated in this order, each on a later machine.
    obtain ⟨hcallee, hothers⟩ := List.forall_mem_cons.1 parts
    obtain ⟨hargs, hnamed⟩ := List.forall_mem_append.1 hothers
    refine (h.evaluate callee hcallee).bind fun fn m₁ hl₁ hm₁ hfn => ?_
    refine (obeys_evaluateAll h fun e he => C.fits hl₁ hm₁ (hargs e he)).bind
      fun vs m₂ hl₂ hm₂ hvs => ?_
    refine (obeys_evaluateNamed h fun a ha => C.fits (R.trans hl₁ hl₂) hm₂
      (hnamed _ (List.mem_map_of_mem ha))).bind fun ns m₃ hl₃ _ hns => ?_
    exact h.invoke paren (R.holds (R.trans hl₂ hl₃) hfn) (fun v hv => R.holds hl₃ (hvs v hv)) hns
  | get id object name =>
    exact (h.evaluate object (parts _ List.mem_cons_self)).bind fun _ _ _ _ hv =>
      yields_member h.binds name hv _
  | set id object name value =>
    -- Only objects have fields that can be set; the value goes to the place of the object.
    obtain ⟨hobject, hvalue⟩ := List.forall_mem_cons.1 parts
    rw [List.forall_mem_singleton] at hvalue
    refine (h.evaluate object hobject).bind fun o m₁ hl₁ hm₁ _ => ?_
    split
    · next place _ _ =>
      exact (h.evaluate value (C.fits hl₁ hm₁ hvalue)).bind fun v _ _ _ hv =>
        Exec.yields_change hv rfl (.of_outside rfl rfl (Nat.le_refl _) rfl rfl rfl) fun hm =>
          (R.contents hm).setField place name.lexeme hv
    · exact .raiseAt ..
  | lambda fn => exact C.lambda he

/-! ### Statements -/

/-- The superclasses of a class are known. -/
theorem obeys_evaluateSupers (h : RunsBy C eng eng') {uses : List NameUse}
    (hu : ∀ use ∈ uses, C.Fits m (.var use)) :
    Obeys R m (eng.evaluateSupers uses) (eng'.evaluateSupers uses) fun cs m' =>
      ∀ c ∈ cs, R.Holds m' (.class c) := by
  induction uses generalizing m with
  | nil => exact .pure fun _ => List.forall_mem_nil _
  | cons use rest ih =>
    obtain ⟨hfirst, hrest⟩ := List.forall_mem_cons.1 hu
    refine (h.evaluate (.var use) hfirst).bind fun v m₁ hl₁ hm₁ hv => ?_
    split
    · exact (ih fun u hu => C.fits hl₁ hm₁ (hrest u hu)).bind fun cs _ hl₂ _ hcs =>
        .pure fun _ => List.forall_mem_cons.2 ⟨R.holds hl₂ hv, hcs⟩
    · exact .raiseAt ..

/-- A loop with a condition obeys a regime. -/
theorem obeys_loopWhile (h : RunsBy C eng eng') (keyword : Token) {test : Expr} {body : Block}
    {p : C.Place} (ht : C.Fits m test) (hb : C.Leads m p [.block body]) (fuel : Nat) :
    Obeys R m (eng.loopWhile keyword test body fuel) (eng'.loopWhile keyword test body fuel)
      fun c m' => c.Known R m' := by
  -- On the fuel; one turn is the condition and, if it holds, the body.
  induction fuel generalizing m with
  | zero => exact .throw _
  | succ fuel ih =>
    refine (h.evaluate test ht).bind fun v m₁ hl₁ _ hv => ?_
    refine (abides_condition h.toCallsBy keyword hv).bind fun t m₂ hl₂ hm₂ _ => ?_
    have hlater := R.trans hl₁ hl₂
    cases t
    · exact .pure fun _ => trivial
    · refine (h.execute (.block body) (C.leads hlater hm₂ hb)).bind fun c m₃ hl₃ hm₃ hc => ?_
      have hlater₃ := R.trans hlater hl₃
      -- A body that returns ends the loop as well.
      cases c with
      | normal => exact ih (C.fits hlater₃ hm₃ ht) (C.leads hlater₃ hm₃ hb)
      | returning v => exact .pure fun _ => hc

/-- Every round of a loop over elements has a scope of its own. -/
theorem obeys_loopFor (h : RunsBy C eng eng') {id : NodeId} {keyword name : Token}
    {iterable : Expr} {iterator : Value} {body : Block} {p : C.Place} {rest : List Stmt}
    (hs : C.Leads m p (.forIn id keyword name iterable body :: rest))
    (hi : R.Holds m iterator) (fuel : Nat) :
    Obeys R m (eng.loopFor id keyword name iterator body fuel)
      (eng'.loopFor id keyword name iterator body fuel) fun c m' => c.Known R m' := by
  have hcalls := h.toCallsBy
  -- On the number of rounds; the iterator stays known from round to round.
  induction fuel generalizing m with
  | zero => exact .throw _
  | succ fuel ih =>
    refine (yields_send hcalls keyword _ hi (List.forall_mem_nil _)).bind fun r m₁ hl₁ _ hr => ?_
    refine (yields_member h.binds keyword hr _).bind fun e m₂ hl₂ _ he => ?_
    refine (abides_condition hcalls keyword he).bind fun t m₃ hl₃ _ _ => ?_
    cases t
    · -- The reply carries an element: it is bound in the scope of this round, and the body runs
      -- there.
      have hr₃ := R.holds (R.trans hl₂ hl₃) hr
      refine (yields_member h.binds keyword hr₃ _).bind fun v m₄ hl₄ hm₄ hv => ?_
      have hlater₄ := R.trans hl₁ (R.trans hl₂ (R.trans hl₃ hl₄))
      refine .getBind (fun _ => rfl) fun _ =>
        (C.round (C.leads hlater₄ hm₄ hs)).bind fun scope m₅ hl₅ _ hround => ?_
      refine (hround v (R.holds hl₅ hv)).bind fun _ m₆ hl₆ _ hbody => ?_
      refine (obeys_executeIn h hbody).bind fun c m₇ hl₇ hm₇ hc => ?_
      cases c with
      | normal =>
        have hlater₇ := R.trans hlater₄ (R.trans hl₅ (R.trans hl₆ hl₇))
        exact ih (C.leads hlater₇ hm₇ hs) (R.holds hlater₇ hi)
      | returning v => exact .pure fun _ => hc
    · -- The iterator is at its end.
      exact .pure fun _ => trivial

/-- Behind a statement that may be executed, the next ones may be. -/
theorem obeys_executeWith (h : RunsBy C eng eng') {p : C.Place} (s : Stmt) (rest : List Stmt)
    (hs : C.Leads m p (s :: rest)) :
    Obeys R m (eng.executeWith s) (eng'.executeWith s) fun c m' =>
      C.Ends (C.after p s) rest m' c := by
  have hcalls := h.toCallsBy
  have parts : ∀ e ∈ s.operands, C.Fits m e := fun e => C.operandOf hs
  have branches : ∀ s' ∈ s.branches, C.Leads m p [s'] := fun s' => C.branch hs
  -- Without a declaration, the machine behind the statement is only later.
  have past : ¬s.Declares → ∀ {m'}, R.Later m m' → R.Inv m' → C.Leads m' (C.after p s) rest :=
    fun hd _ hl hm' => C.leads hl hm' (C.past hs hd)
  cases s with
  | expr id value =>
    exact (h.evaluate value (parts _ List.mem_cons_self)).bind fun _ _ hl hm' _ =>
      .pure fun _ => past not_false hl hm'
  | varDecl id name initial =>
    have declared : ∀ v m', R.Later m m' → R.Inv m' → R.Holds m' v →
        Obeys R m' (do Exec.defineHere name.lexeme v; return Completion.normal)
          (do Exec.defineHere name.lexeme v; return Completion.normal) fun c m'' =>
          C.Ends (C.after p (.varDecl id name initial)) rest m'' c := fun v m' hl hm' hv =>
      (C.varDecl (C.leads hl hm' hs) hv).bind fun _ _ _ _ hrest => .pure fun _ => hrest
    cases initial with
    | none => exact (Obeys.flat (v := .nil) trivial).bind declared
    | some e => exact (h.evaluate e (parts e (Option.mem_toList.2 rfl))).bind declared
  | function id fn =>
    exact (C.function hs).bind fun _ _ _ _ hrest => .pure fun _ => hrest
  | classDecl id name supers methods =>
    have hsupers : ∀ use ∈ supers, C.Fits m (.var use) := fun use huse =>
      parts _ (List.mem_map_of_mem huse)
    have declared : Obeys R m (eng.executeClass id name supers methods)
        (eng'.executeClass id name supers methods) fun _ m' =>
        C.Leads m' (C.after p (.classDecl id name supers methods)) rest := by
      rw [executeClass_eq, executeClass_eq]
      exact (obeys_evaluateSupers h hsupers).bind fun classes m₁ hl₁ hm₁ hclasses =>
        C.classDecl (C.leads hl₁ hm₁ hs) hclasses
    exact declared.bind fun _ _ _ _ hrest => .pure fun _ => hrest
  | block b =>
    exact .getBind (fun _ => rfl) fun _ => (C.block hs).bind fun scope m₁ hl₁ _ hbody =>
      (obeys_executeIn h hbody).mono fun c m₂ hl₂ hm₂ hc =>
        hc.ends (past not_false (R.trans hl₁ hl₂) hm₂)
  | ifElse id keyword test body otherwise =>
    refine (h.evaluate test (parts _ List.mem_cons_self)).bind fun v m₁ hl₁ _ hv => ?_
    refine (abides_condition hcalls keyword hv).bind fun t m₂ hl₂ hm₂ _ => ?_
    have hlater := R.trans hl₁ hl₂
    -- A branch is executed on its own: what it declares is not seen behind the statement.
    have branch : ∀ s' ∈ Stmt.branches (.ifElse id keyword test body otherwise),
        Obeys R m₂ (eng.execute s') (eng'.execute s') fun c m' =>
          C.Ends (C.after p (.ifElse id keyword test body otherwise)) rest m' c := fun s' hs' =>
      (h.execute s' (C.leads hlater hm₂ (branches s' hs'))).mono fun c m₃ hl₃ hm₃ hc =>
        hc.known.ends (past not_false (R.trans hlater hl₃) hm₃)
    cases t
    · cases otherwise with
      | none => exact .pure fun _ => past not_false hlater hm₂
      | some s' => exact branch s' (List.mem_cons_of_mem _ List.mem_cons_self)
    · exact branch _ List.mem_cons_self
  | whileLoop id keyword test body =>
    unfold executeWith
    rw [h.fuel]
    exact (obeys_loopWhile h keyword (parts _ List.mem_cons_self)
      (branches _ List.mem_cons_self) _).mono fun c m' hl hm' hc =>
      hc.ends (past not_false hl hm')
  | forIn id keyword name iterable body =>
    unfold executeWith
    rw [h.fuel]
    refine (h.evaluate iterable (parts _ List.mem_cons_self)).bind fun v m₁ hl₁ _ hv => ?_
    refine (Obeys.orRaise _ (yields_member h.binds keyword hv _)).bind fun it m₂ hl₂ _ hit => ?_
    refine (h.invoke keyword hit (List.forall_mem_nil _) (List.forall_mem_nil _)).bind
      fun iterator m₃ hl₃ hm₃ hiterator => ?_
    have hlater := R.trans hl₁ (R.trans hl₂ hl₃)
    exact (obeys_loopFor h (C.leads hlater hm₃ hs) hiterator _).mono fun c m' hl hm' hc =>
      hc.ends (past not_false (R.trans hlater hl) hm')
  | ret id keyword value =>
    cases value with
    | none => exact .pure fun _ => R.flat trivial
    | some e =>
      exact (h.evaluate e (parts e (Option.mem_toList.2 rfl))).bind fun _ _ _ _ hv =>
        .pure fun _ => hv

end Engine

end ClassScript
