import Mathlib.Data.List.Nodup
import ClassScript.Parse.Grammar
import ClassScript.Proofs.Typing.Observes
import ClassScript.Session

/-!
# The bodies of methods and the declarations they are checked with

A class first declares its methods and then checks their bodies. A body is checked with the
signature that the class has for the name of its method, so of several methods with one name the
last one declares the types for the bodies of all of them. The check of a class is equal to one that
looks nothing up: it pairs each body with that declaration. No body changes what was declared, since
a check keeps the parameters of all functions and the methods of all classes that there are.
-/

namespace ClassScript.Typing

/-! ### What a check keeps -/

/-- The functions of one table keep their places, names and types of parameters in another one. -/
def KeepsSignatures (sigs sigs' : Array Signature) : Prop :=
  ∀ (f : SignatureId) sig, sigs[f]? = some sig →
    ∃ sig', sigs'[f]? = some sig' ∧ sig'.name = sig.name ∧ sig'.paramTypes = sig.paramTypes

namespace KeepsSignatures

variable {sigs sigs' sigs'' : Array Signature}

/-- A table keeps its own functions. -/
theorem refl (sigs : Array Signature) : KeepsSignatures sigs sigs :=
  fun _ sig h => ⟨sig, h, rfl, rfl⟩

/-- What is kept twice is kept. -/
theorem trans (h : KeepsSignatures sigs sigs') (h' : KeepsSignatures sigs' sigs'') :
    KeepsSignatures sigs sigs'' := by
  intro f sig hf
  obtain ⟨sig', hf', hname, htypes⟩ := h f sig hf
  obtain ⟨sig'', hf'', hname', htypes'⟩ := h' f sig' hf'
  exact ⟨sig'', hf'', hname'.trans hname, htypes'.trans htypes⟩

/-- A table with one function more keeps the others. -/
theorem push (sigs : Array Signature) (sig : Signature) : KeepsSignatures sigs (sigs.push sig) := by
  intro f old hf
  obtain ⟨hlt, hold⟩ := Array.getElem?_eq_some_iff.1 hf
  exact ⟨old, by rw [Array.getElem?_push_lt hlt, hold], rfl, rfl⟩

/-- A table keeps its functions if one of them changes in other respects. -/
theorem modify (sigs : Array Signature) (g : SignatureId) {u : Signature → Signature}
    (hu : ∀ sig, (u sig).name = sig.name ∧ (u sig).paramTypes = sig.paramTypes) :
    KeepsSignatures sigs (sigs.modify g u) := by
  intro f sig hf
  rw [Array.getElem?_modify, hf]
  split
  · exact ⟨u sig, rfl, hu sig⟩
  · exact ⟨sig, rfl, rfl, rfl⟩

end KeepsSignatures

/-- The classes of one table keep their places and methods in another one. -/
structure KeepsMembers (bodies bodies' : Array ClassBody) : Prop where
  /-- No place is lost. -/
  size : bodies.size ≤ bodies'.size
  /-- The methods are the same. -/
  members : ∀ i < bodies.size, bodies'[i]?.map ClassBody.members = bodies[i]?.map ClassBody.members

namespace KeepsMembers

variable {bodies bodies' : Array ClassBody}

/-- A table keeps its own classes. -/
theorem refl (bodies : Array ClassBody) : KeepsMembers bodies bodies :=
  ⟨Nat.le_refl _, fun _ _ => rfl⟩

/-- A table with one class more keeps the others. -/
theorem push (h : KeepsMembers bodies bodies') (b : ClassBody) :
    KeepsMembers bodies (bodies'.push b) where
  size := by
    rw [Array.size_push]
    exact Nat.le_succ_of_le h.size
  members i hi := by
    rw [Array.getElem?_push, if_neg (Nat.ne_of_lt (Nat.lt_of_lt_of_le hi h.size))]
    exact h.members i hi

/-- Another class gets methods, or a class gets fields. -/
theorem modify (h : KeepsMembers bodies bodies') (j : Nat) {u : ClassBody → ClassBody}
    (hu : bodies.size ≤ j ∨ ∀ b, (u b).members = b.members) :
    KeepsMembers bodies (bodies'.modify j u) where
  size := by
    rw [Array.size_modify]
    exact h.size
  members i hi := by
    rw [Array.getElem?_modify]
    -- The changed class is a new one, or its methods are left as they are.
    split
    · next hji =>
      subst hji
      rw [Option.map_map, ← h.members j hi]
      refine congrArg (bodies'[j]?.map ·) (funext fun b => ?_)
      exact hu.resolve_left (Nat.not_le.2 hi) b
    · exact h.members i hi

end KeepsMembers

/-- In a later state the functions and classes of an earlier one are what they were, up to what a
check finds out about results and fields. -/
structure Checker.Retains (s s' : Checker) : Prop where
  /-- The functions. -/
  signatures : KeepsSignatures s.signatures s'.signatures
  /-- The classes. -/
  bodies : KeepsMembers s.bodies s'.bodies

/-- All that is asked of the later states is that they keep what a state has. -/
def Law.keeping (s : Checker) : Law where
  classes _ := True
  fresh c := s.bodies.size ≤ c.id
  tables sigs bodies := KeepsSignatures s.signatures sigs ∧ KeepsMembers s.bodies bodies
  native _ := trivial
  sign h _ _ := ⟨h.1.trans (.push _ _), h.2⟩
  mark h f := ⟨h.1.trans (.modify _ f fun _ => ⟨rfl, rfl⟩), h.2⟩
  settle h f _ := ⟨h.1.trans (.modify _ f fun _ => ⟨rfl, rfl⟩), h.2⟩
  member h _ hc _ _ := ⟨h.1, h.2.modify _ (.inl hc)⟩
  field h _ _ _ _ _ := ⟨h.1, h.2.modify _ (.inr fun _ => rfl)⟩

/-- A class that is made has a new place. -/
def Laws.keeping (s : Checker) : Laws where
  Stage := Unit
  order := {
    le := fun _ _ => True
    lt := fun _ _ => False
    le_refl := fun _ => trivial
    le_trans := fun _ _ _ _ _ => trivial
    lt_iff_le_not_ge := fun _ _ => iff_of_false id fun h => h.2 trivial }
  law _ := .keeping s
  classes_mono _ _ h := h
  fresh_mono _ _ h := h
  make h _ _ _ := ⟨(), trivial, ⟨trivial, h.2.size⟩, h.1, h.2.push {}⟩

/-- A state retains what it has. -/
theorem Checker.Retains.refl (s : Checker) : s.Retains s := ⟨.refl _, .refl _⟩

/-- Nothing is asked of the class types in a state. -/
theorem only_true (s : Checker) : s.Only fun _ => True := by
  have htype : ∀ t : Ty, t.Only fun _ => True := fun t => by cases t <;> trivial
  exact ⟨fun _ _ _ => ⟨fun t _ => htype t, fun t _ => htype t, fun p _ => htype p.2⟩,
    fun _ _ _ _ t _ => htype t, fun _ t _ => htype t, fun _ t _ => htype t,
    fun _ _ _ _ t _ => htype t, fun _ _ => ⟨fun p _ => htype p.1, fun _ _ => trivial⟩⟩

/-- To retain what a state has is a law. -/
theorem Checker.Retains.holds {s s' : Checker} (h : s.Retains s') : (Law.keeping s).Holds s' :=
  ⟨only_true s', h.signatures, h.bodies⟩

namespace Check

variable {α : Type} {s s' : Checker}

/-- A step that keeps laws keeps what a state had when it starts in a later one. -/
theorem Observes.retains {A : Unit → α → Prop} {x : Check α}
    (hx : Observes (Laws.keeping s) () A x) (h : s.Retains s') : s.Retains (x.final s') := by
  obtain ⟨_, -, hfinal, -⟩ := hx.run () (le_refl _) s' h.holds
  exact ⟨hfinal.tables.1, hfinal.tables.2⟩

/-! ### Scopes of bodies -/

/-- What a parameter means inside the body, by its declared type. -/
def binding (p : Param) (t : Ty) : String × Option Ty :=
  (p.name.lexeme, some (if p.variadic then builtin .varargs else t))

/-- The first parameter takes its type, and a variadic one takes that of a list. -/
theorem paramVars_cons (p : Param) (params : List Param) (types : List Ty) :
    paramVars (p :: params) types =
      (if p.variadic then some (builtin .varargs) else types.head?).bind fun t =>
        (paramVars params types.tail).map ((p.name.lexeme, some t) :: ·) := by
  conv => lhs; unfold paramVars
  cases p.variadic with
  | true => cases paramVars params types.tail <;> rfl
  | false =>
    cases types with
    | nil => rfl
    | cons t ts => cases h : paramVars params ts <;> simp [h]

/-- With as many types as parameters every parameter has a meaning. -/
theorem paramVars_of_length {params : List Param} {types : List Ty}
    (h : types.length = params.length) :
    paramVars params types = some (List.zipWith binding params types) := by
  induction params generalizing types with
  | nil =>
    rw [List.zipWith_nil_left]
    rfl
  | cons p rest ih =>
    obtain ⟨t, ts, rfl⟩ := List.exists_cons_of_length_eq_add_one h
    rw [paramVars_cons, List.tail_cons, ih (Nat.succ.inj h), List.zipWith_cons_cons]
    unfold binding
    cases p.variadic <;> rfl

/-- A parameter has no meaning exactly if it is not variadic and there is no type at its place. -/
theorem paramVars_eq_none_iff {params : List Param} {types : List Ty} :
    paramVars params types = none ↔
      ∃ (i : Nat) (p : Param), params[i]? = some p ∧ p.variadic = false ∧ types.length ≤ i := by
  induction params generalizing types with
  | nil => simp [paramVars]
  | cons p rest ih =>
    -- A place is the first one, or one further on in the rest.
    have hcons : (∃ (i : Nat) (q : Param),
        (p :: rest)[i]? = some q ∧ q.variadic = false ∧ types.length ≤ i) ↔
          (p.variadic = false ∧ types = []) ∨ paramVars rest types.tail = none := by
      rw [ih]
      constructor
      · rintro ⟨_ | i, q, hq, hplain, hlength⟩
        · cases hq
          exact .inl ⟨hplain, List.eq_nil_of_length_eq_zero (Nat.le_zero.1 hlength)⟩
        · refine .inr ⟨i, q, hq, hplain, ?_⟩
          rw [List.length_tail]
          omega
      · rintro (⟨hplain, rfl⟩ | ⟨i, q, hq, hplain, hlength⟩)
        · exact ⟨0, p, rfl, hplain, Nat.le_refl _⟩
        · rw [List.length_tail] at hlength
          exact ⟨i + 1, q, hq, hplain, by omega⟩
    rw [hcons, paramVars_cons]
    cases p.variadic <;> cases types <;> simp

/-- Checks the body of a function in a scope with given names, and settles the type of its
result. -/
def bodyWith (id : NodeId) (vars : List (String × Option Ty)) (name : String) (f : SignatureId)
    (context : Context) (body : Check Unit) : Check Unit := do
  let outer := (← get).context
  modify fun s => { s with context := some context }
  inScope { origin := .call id, vars := vars.reverse } body
  let inner := (← get).context.getD context
  let result ← resultType name inner
  modify fun s =>
    { s with
      signatures := s.signatures.modify f ({ · with returns := some result })
      context := outer }

/-- The body of a function is checked in the scope of its parameters, if they have one. -/
theorem functionBody_eq (id : NodeId) (params : List Param) (f : SignatureId) (context : Context)
    (body : Check Unit) (s : Checker) :
    functionBody id params f context body s =
      match paramVars params (s.signature f).paramTypes with
      | none => .error .fault s
      | some vars => bodyWith id vars (s.signature f).name f context body s := by
  unfold functionBody
  rw [getBind_apply]
  cases paramVars params (s.signature f).paramTypes <;> rfl

/-! ### Declarations of methods -/

/-- A method that was declared. -/
structure Declaration where
  /-- The method. -/
  method : Lambda
  /-- The place of its signature. -/
  signature : SignatureId
  /-- The declared types of its parameters. -/
  types : List Ty

/-- Provides the methods of a class, and tells what was declared. -/
def declarations (c : ClassType) : List Lambda → Check (List Declaration)
  | [] => return []
  | fn :: rest => do
    let types ← paramTypes fn.params
    let f ← newSignature
      { name := fn.title, params := fn.params, paramTypes := types, returns := none }
    putMember c fn.title f
    let _ ← record fn.id (.function f)
    return ⟨fn, f, types⟩ :: (← declarations c rest)

/-- To declare methods is to provide them, and to forget what was declared. -/
theorem declareMethods_eq (c : ClassType) (methods : List Lambda) :
    declareMethods c methods = (do let _ ← declarations c methods; return) := by
  induction methods with
  | nil => rfl
  | cons fn rest ih =>
    obtain ⟨id, keyword, name, params, body⟩ := fn
    unfold declareMethods declarations
    rw [ih]
    simp only [bind_assoc, pure_bind]
    rfl

/-- The last one of the declarations for a name. -/
def lastOf? (ds : List Declaration) (title : String) : Option Declaration :=
  ds.reverse.find? (·.method.title = title)

/-- The methods of a class in the order in which their bodies are checked: the initializers, the
last one first, and then the others. -/
def bodyOrder (methods : List Lambda) : List Lambda :=
  (methods.filter (·.title = "init")).reverse ++ methods.filter (·.title ≠ "init")

/-- The initializers are checked from the last one to the first one. -/
theorem initializerBodies_eq (c : ClassType) (methods : List Lambda) :
    initializerBodies c methods =
      forM (methods.filter (·.title = "init")).reverse (methodBody c) := by
  induction methods with
  | nil => rfl
  | cons fn rest ih =>
    unfold initializerBodies
    rw [ih]
    by_cases h : fn.title = "init"
    · rw [List.filter_cons_of_pos (by simpa using h), List.reverse_cons, List.forM_append]
      simp [h]
    · rw [List.filter_cons_of_neg (by simpa using h)]
      simp [h]

/-- The other methods are checked in order. -/
theorem otherBodies_eq (c : ClassType) (methods : List Lambda) :
    otherBodies c methods = forM (methods.filter (·.title ≠ "init")) (methodBody c) := by
  induction methods with
  | nil => rfl
  | cons fn rest ih =>
    unfold otherBodies
    rw [ih]
    by_cases h : fn.title = "init"
    · rw [List.filter_cons_of_neg (by simpa using h)]
      simp [h]
    · rw [List.filter_cons_of_pos (by simpa using h)]
      simp [h]

/-- Together this is the order of bodies. -/
theorem bodies_eq (c : ClassType) (methods : List Lambda) :
    (do initializerBodies c methods; otherBodies c methods) =
      forM (bodyOrder methods) (methodBody c) := by
  unfold bodyOrder
  rw [initializerBodies_eq, otherBodies_eq, List.forM_append]

/-! ### What was declared -/

/-- A later declaration for a name goes before an earlier one. -/
theorem lastOf?_cons (d : Declaration) (ds : List Declaration) (title : String) :
    lastOf? (d :: ds) title =
      (lastOf? ds title).or (if d.method.title = title then some d else none) := by
  unfold lastOf?
  rw [List.reverse_cons, List.find?_append]
  simp

/-- Of the declarations of methods there is a last one for the name of each method. -/
theorem exists_lastOf? {ds : List Declaration} {d : Declaration} (hd : d ∈ ds) :
    ∃ last ∈ ds, lastOf? ds d.method.title = some last ∧ last.method.title = d.method.title := by
  have hsome : (lastOf? ds d.method.title).isSome :=
    List.find?_isSome.2 ⟨d, List.mem_reverse.2 hd, by simp⟩
  obtain ⟨last, hlast⟩ := Option.isSome_iff_exists.1 hsome
  refine ⟨last, List.mem_reverse.1 (List.mem_of_find?_eq_some hlast), hlast, ?_⟩
  simpa using List.find?_some hlast

/-- A class has what was declared: every declaration has its signature, and for every name the class
has the signature of the last one. -/
structure Provides (c : ClassType) (ds : List Declaration) (s : Checker) : Prop where
  /-- The class has a place. -/
  place : c.id < s.bodies.size
  /-- The signatures. -/
  signature : ∀ d ∈ ds, ∃ sig, s.signatures[d.signature]? = some sig ∧
    sig.name = d.method.title ∧ sig.paramTypes = d.types
  /-- The methods of the class. -/
  member : ∀ title d, lastOf? ds title = some d → (s.body c).members[title]? = some d.signature

/-- A later state retains the methods of a class. -/
theorem members_of_retains {c : ClassType} (h : s.Retains s') (hc : c.id < s.bodies.size) :
    (s'.body c).members = (s.body c).members := by
  have hmembers := h.bodies.members c.id hc
  unfold Checker.body
  rw [Array.getElem?_eq_getElem hc, Array.getElem?_eq_getElem (Nat.lt_of_lt_of_le hc h.bodies.size)]
    at hmembers ⊢
  exact Option.some.inj hmembers

/-- What was declared stays. -/
theorem Provides.later {c : ClassType} {ds : List Declaration} (h : Provides c ds s)
    (hs : s.Retains s') : Provides c ds s' where
  place := Nat.lt_of_lt_of_le h.place hs.bodies.size
  signature d hd := by
    obtain ⟨sig, hsig, hname, htypes⟩ := h.signature d hd
    obtain ⟨sig', hsig', hname', htypes'⟩ := hs.signatures d.signature sig hsig
    exact ⟨sig', hsig', hname'.trans hname, htypes'.trans htypes⟩
  member title d hd := by
    rw [members_of_retains hs h.place]
    exact h.member title d hd

/-- The types of parameters are found without a change to what there is, one for each. -/
theorem paramTypes_spec {params : List Param} {types : List Ty}
    (h : paramTypes params s = .ok types s') :
    s.Retains s' ∧ types.length = params.length := by
  have hobserves := observes_paramTypes (R := Laws.keeping s) () params
  have hkeeps := hobserves.retains (.refl s)
  rw [final_ok h] at hkeeps
  obtain ⟨_, -, -, hvalue⟩ := hobserves.run () (le_refl _) s (Checker.Retains.refl s).holds
  exact ⟨hkeeps, (hvalue types s' h).length⟩

/-- The state in which one more method is declared. -/
def withMethod (c : ClassType) (fn : Lambda) (types : List Ty) (s : Checker) : Checker :=
  { s with
    signatures := s.signatures.push
      { name := fn.title, params := fn.params, paramTypes := types, returns := none }
    bodies := s.bodies.modify c.id fun b =>
      { b with members := b.members.insert fn.title s.signatures.size }
    types := s.types.insert fn.id (.function s.signatures.size) }

/-- A declared class gets a method and keeps the other ones. -/
theorem members_withMethod {c : ClassType} (hc : c.id < s.bodies.size) (fn : Lambda)
    (types : List Ty) (title : String) :
    ((withMethod c fn types s).body c).members[title]? =
      if fn.title = title then some s.signatures.size else (s.body c).members[title]? := by
  have hbody : (withMethod c fn types s).body c =
      { s.body c with members := (s.body c).members.insert fn.title s.signatures.size } := by
    unfold Checker.body withMethod
    dsimp only
    rw [Array.getElem?_modify, if_pos rfl, Array.getElem?_eq_getElem hc]
    rfl
  rw [hbody, Std.TreeMap.getElem?_insert]
  simp only [Std.LawfulEqCmp.compare_eq_iff_eq]

/-- The first one of a row of declarations. -/
theorem declarations_cons {c : ClassType} {fn : Lambda} {rest : List Lambda}
    {ds : List Declaration} (h : declarations c (fn :: rest) s = .ok ds s') :
    ∃ types s₁ ds', paramTypes fn.params s = .ok types s₁ ∧
      declarations c rest (withMethod c fn types s₁) = .ok ds' s' ∧
      ds = ⟨fn, s₁.signatures.size, types⟩ :: ds' := by
  unfold declarations at h
  -- The steps of one turn: types, signature, method, record, and then the rest.
  obtain ⟨types, s₁, htypes, h⟩ := bind_eq_ok.1 h
  obtain ⟨f, s₂, hf, h⟩ := bind_eq_ok.1 h
  cases hf
  obtain ⟨_, s₃, hput, h⟩ := bind_eq_ok.1 h
  cases hput
  obtain ⟨_, s₄, hrecord, h⟩ := bind_eq_ok.1 h
  cases hrecord
  obtain ⟨ds', s₅, hds, h⟩ := bind_eq_ok.1 h
  cases h
  exact ⟨types, s₁, ds', htypes, hds, rfl⟩

/-- Every method is declared, with a type for each parameter. -/
theorem declarations_methods {c : ClassType} {methods : List Lambda} {ds : List Declaration}
    (h : declarations c methods s = .ok ds s') :
    ds.map Declaration.method = methods ∧
      ∀ d ∈ ds, d.types.length = d.method.params.length := by
  induction methods generalizing s ds with
  | nil =>
    cases h
    exact ⟨rfl, List.forall_mem_nil _⟩
  | cons fn rest ih =>
    obtain ⟨types, s₁, ds', htypes, hds, rfl⟩ := declarations_cons h
    obtain ⟨hmethods, hlengths⟩ := ih hds
    exact ⟨congrArg (fn :: ·) hmethods,
      List.forall_mem_cons.2 ⟨(paramTypes_spec htypes).2, hlengths⟩⟩

/-- After a row of declarations a class has what was declared. Names that are not declared keep the
methods that they had. -/
theorem declarations_provides {c : ClassType} {methods : List Lambda} {ds : List Declaration}
    (hc : c.id < s.bodies.size) (h : declarations c methods s = .ok ds s') :
    KeepsSignatures s.signatures s'.signatures ∧ Provides c ds s' ∧
      ∀ title, lastOf? ds title = none →
        (s'.body c).members[title]? = (s.body c).members[title]? := by
  induction methods generalizing s ds with
  | nil =>
    cases h
    exact ⟨.refl _, ⟨hc, List.forall_mem_nil _, nofun⟩, fun _ _ => rfl⟩
  | cons fn rest ih =>
    obtain ⟨types, s₁, ds', htypes, hds, rfl⟩ := declarations_cons h
    have hkeeps := (paramTypes_spec htypes).1
    have hplace : c.id < s₁.bodies.size := Nat.lt_of_lt_of_le hc hkeeps.bodies.size
    have hfirst := members_withMethod hplace fn types
    obtain ⟨hsigs, hprovides, hothers⟩ := ih (Nat.lt_of_lt_of_eq hplace Array.size_modify.symm) hds
    refine ⟨hkeeps.signatures.trans ((KeepsSignatures.push _ _).trans hsigs),
      ⟨hprovides.place, List.forall_mem_cons.2 ⟨?_, hprovides.signature⟩, fun title d hd => ?_⟩,
      fun title hd => ?_⟩
    · exact hsigs _ _ Array.getElem?_push_size
    · -- The last declaration for the name is a later one, or there is none and it is the first.
      rw [lastOf?_cons] at hd
      cases hlater : lastOf? ds' title with
      | some d' =>
        rw [hlater] at hd
        cases hd
        exact hprovides.member title _ hlater
      | none =>
        rw [hlater, Option.none_or] at hd
        split at hd
        · next htitle =>
          cases hd
          rw [hothers title hlater, hfirst, if_pos htitle]
        · cases hd
    · rw [lastOf?_cons, Option.or_eq_none_iff] at hd
      obtain ⟨hlater, hown⟩ := hd
      have htitle : fn.title ≠ title := fun heq => by
        rw [if_pos heq] at hown
        cases hown
      rw [hothers title hlater, hfirst, if_neg htitle, members_of_retains hkeeps hc]

/-! ### What bodies are checked with -/

/-- Checks the body of a method with the last one of the declarations for its name. The body has no
meaning where a parameter has none. -/
def boundBody (c : ClassType) (ds : List Declaration) (fn : Lambda) : Check Unit :=
  match lastOf? ds fn.title with
  | none => throw .fault
  | some d =>
    match paramVars fn.params d.types with
    | none => throw .fault
    | some vars =>
      bodyWith fn.id vars fn.title d.signature (methodContext c fn.title d.signature)
        (stmts fn.body)

/-- The body of a method is checked with the signature that the class has for its name. -/
theorem methodBody_apply (c : ClassType) (fn : Lambda) (s : Checker) :
    methodBody c fn s =
      match (s.body c).members[fn.title]? with
      | none => .error .fault s
      | some f =>
        functionBody fn.id fn.params f (methodContext c fn.title f) (stmts fn.body) s := by
  obtain ⟨id, keyword, name, params, body⟩ := fn
  unfold methodBody Lambda.title
  dsimp only
  rw [getBind_apply]
  cases (s.body c).members[(name.map Token.lexeme).getD "lambda"]? <;> rfl

/-- Where a class has what was declared, a body is checked with the last declaration. -/
theorem methodBody_eq {c : ClassType} {ds : List Declaration} (h : Provides c ds s) {fn : Lambda}
    (hfn : ∃ d ∈ ds, d.method.title = fn.title) : methodBody c fn s = boundBody c ds fn s := by
  obtain ⟨d', hd', htitle⟩ := hfn
  obtain ⟨d, hd, hlast, hown⟩ := exists_lastOf? hd'
  rw [htitle] at hlast hown
  -- The body is looked up by its name, which is where the last declaration of that name is.
  have hmember := h.member fn.title d hlast
  obtain ⟨sig, hsig, hname, htypes⟩ := h.signature d hd
  have hsignature : s.signature d.signature = sig := by
    unfold Checker.signature
    rw [hsig]
    rfl
  rw [methodBody_apply, hmember]
  dsimp only
  rw [functionBody_eq, hsignature, hname, htypes, hown]
  unfold boundBody
  rw [hlast]
  dsimp only
  cases paramVars fn.params d.types <;> rfl

/-- So a check of one body leaves the declarations for the others alone. -/
theorem retains_methodBody (c : ClassType) (fn : Lambda) (h : s.Retains s') :
    s.Retains ((methodBody c fn).final s') :=
  (abides_methodBody (R := Laws.keeping s) () trivial fn).retains h

/-- Bodies in a row are checked with what was declared in front of the first one. -/
theorem forM_methodBody_eq {c : ClassType} {ds : List Declaration} (hs : Provides c ds s)
    {fns : List Lambda} (hfns : ∀ fn ∈ fns, ∃ d ∈ ds, d.method.title = fn.title)
    (h : s.Retains s') : forM fns (methodBody c) s' = forM fns (boundBody c ds) s' := by
  -- Every body starts in a state that retains what was declared, since those before it do.
  induction fns generalizing s' with
  | nil => rfl
  | cons fn rest ih =>
    obtain ⟨hfn, hrest⟩ := List.forall_mem_cons.1 hfns
    have hkeeps := retains_methodBody c fn h
    rw [List.forM_cons, List.forM_cons, bind_apply, bind_apply]
    unfold Check.final at hkeeps
    rw [methodBody_eq (hs.later h) hfn] at hkeeps ⊢
    cases hr : boundBody c ds fn s' with
    | error e s'' => rfl
    | ok _ s'' =>
      rw [hr] at hkeeps
      exact ih hrest hkeeps

/-- Every method is in the order of bodies. -/
theorem mem_bodyOrder {methods : List Lambda} {fn : Lambda} :
    fn ∈ bodyOrder methods ↔ fn ∈ methods := by
  unfold bodyOrder
  rw [List.mem_append, List.mem_reverse, List.mem_filter, List.mem_filter, ← and_or_left]
  simp [em]

/-- The methods of a class are checked with their declarations. -/
theorem methods_eq {c : ClassType} (hc : c.id < s.bodies.size) (methods : List Lambda) :
    (do declareMethods c methods; initializerBodies c methods; otherBodies c methods) s =
      (do forM (bodyOrder methods) (boundBody c (← declarations c methods))) s := by
  rw [bodies_eq, declareMethods_eq, bind_assoc, bind_apply, bind_apply]
  cases hds : declarations c methods s with
  | error e s' => rfl
  | ok ds s' =>
    obtain ⟨-, hprovides, -⟩ := declarations_provides hc hds
    refine forM_methodBody_eq hprovides (fun fn hfn => ?_) (.refl s')
    rw [mem_bodyOrder, ← (declarations_methods hds).1] at hfn
    obtain ⟨d, hd, rfl⟩ := List.mem_map.1 hfn
    exact ⟨d, hd, rfl⟩

/-- Checks a class whose bodies go with the last declarations for their names. -/
def classDeclaration (id : NodeId) (name : Token) (supers : List NameUse) (methods : List Lambda) :
    Check Unit := do
  let c ← newClass name.lexeme (← superclasses supers)
  define name.lexeme (some (.class c))
  let _ ← record id (.class c)
  inScope { origin := .receiver id, vars := [("self", some (.instance c))] } do
    let ds ← declarations c methods
    forM (bodyOrder methods) (boundBody c ds)

/-- A step may be replaced by one that does the same in the inner scope. -/
theorem inScope_congr {x y : Check α} (scope : StaticScope)
    (h : x { s with locals := scope :: s.locals } = y { s with locals := scope :: s.locals }) :
    inScope scope x s = inScope scope y s := by
  unfold inScope
  rw [bind_apply, bind_apply, modify_apply]
  dsimp only
  rw [bind_apply, bind_apply, h]

/-- The check of a class is the one with declarations. -/
theorem classDecl_eq (id : NodeId) (name : Token) (supers : List NameUse) (methods : List Lambda) :
    stmt (.classDecl id name supers methods) = classDeclaration id name supers methods := by
  funext s
  unfold stmt classDeclaration
  rw [bind_apply, bind_apply]
  cases superclasses supers s with
  | error e s' => rfl
  | ok cs s₁ =>
    -- The class is given the next place, which no step between that and its methods takes away.
    let c : ClassType := ⟨s₁.bodies.size, name.lexeme, cs, none⟩
    let s₂ : Checker := { s₁ with bodies := s₁.bodies.push {} }
    have hc : c.id < s₂.bodies.size := by
      change s₁.bodies.size < (s₁.bodies.push {}).size
      rw [Array.size_push]
      exact Nat.lt_succ_self _
    have hdefine := (abides_define (R := Laws.keeping s₂) (i := ()) name.lexeme
      (only_some (t := .class c) trivial)).retains (.refl s₂)
    unfold Check.final at hdefine
    have hnew : newClass name.lexeme cs s₁ = .ok c s₂ := rfl
    dsimp only
    rw [bind_apply, bind_apply, hnew]
    dsimp only
    rw [bind_apply, bind_apply]
    cases hr : define name.lexeme (some (.class c)) s₂ with
    | error e s₃ => rfl
    | ok _ s₃ =>
      rw [hr] at hdefine
      refine inScope_congr _ (methods_eq ?_ methods)
      exact Nat.lt_of_lt_of_le hc hdefine.bodies.size

/-! ### Declarations of the same name -/

/-- Checks the body of a method in a scope that binds each parameter to its own declared type. -/
def ownBody (c : ClassType) (d : Declaration) : Check Unit :=
  bodyWith d.method.id (List.zipWith binding d.method.params d.types) d.method.title d.signature
    (methodContext c d.method.title d.signature) (stmts d.method.body)

/-- How the bodies of the methods of a class go with the declarations. -/
structure Pairing (c : ClassType) (methods : List Lambda) (ds : List Declaration) : Prop where
  /-- There is one declaration for each method. -/
  declared : ds.map Declaration.method = methods
  /-- It has a type for each parameter. -/
  length : ∀ d ∈ ds, d.types.length = d.method.params.length
  /-- The last method of a name is checked with its own declaration. -/
  last : ∀ d, lastOf? ds d.method.title = some d → boundBody c ds d.method = ownBody c d
  /-- So is every method if no two have the same name. -/
  distinct : (methods.map Lambda.title).Nodup → ∀ d ∈ ds, boundBody c ds d.method = ownBody c d
  /-- A method cannot be checked if it has a parameter that is not variadic at a place for which the
  last method of its name declares no type. -/
  fault : ∀ fn d, lastOf? ds fn.title = some d →
    ∀ (i : Nat) p, fn.params[i]? = some p → p.variadic = false → d.types.length ≤ i →
      boundBody c ds fn = throw .fault

/-- The last declaration for a name goes with its own body. -/
theorem boundBody_of_last {c : ClassType} {ds : List Declaration} {d : Declaration}
    (hlast : lastOf? ds d.method.title = some d)
    (hlength : d.types.length = d.method.params.length) :
    boundBody c ds d.method = ownBody c d := by
  unfold boundBody
  rw [hlast]
  dsimp only
  rw [paramVars_of_length hlength]
  rfl

/-- With different names every declaration is the last one for its name. -/
theorem lastOf?_of_nodup {ds : List Declaration}
    (h : (ds.map fun d => d.method.title).Nodup) {d : Declaration} (hd : d ∈ ds) :
    lastOf? ds d.method.title = some d := by
  obtain ⟨last, hlast, hfind, htitle⟩ := exists_lastOf? hd
  rw [hfind, List.inj_on_of_nodup_map h hlast hd htitle]

/-- The check of a class declares the methods and then checks each body with the last declaration of
the method's name: with its own one if that is the last, and not at all if the last one has too few
parameters. -/
theorem class_bodies_go_with_last_declarations (id : NodeId) (name : Token) (supers : List NameUse)
    (methods : List Lambda) :
    stmt (.classDecl id name supers methods) = classDeclaration id name supers methods ∧
      ∀ c ds s s', declarations c methods s = .ok ds s' → Pairing c methods ds := by
  refine ⟨classDecl_eq id name supers methods, fun c ds s s' h => ?_⟩
  obtain ⟨hmethods, hlength⟩ := declarations_methods h
  have hmem : ∀ {title d}, lastOf? ds title = some d → d ∈ ds := fun hlast =>
    List.mem_reverse.1 (List.mem_of_find?_eq_some hlast)
  refine ⟨hmethods, hlength, fun d hlast => boundBody_of_last hlast (hlength d (hmem hlast)),
    fun hnodup d hd => ?_, fun fn d hlast i p hp hplain hi => ?_⟩
  · -- With names all different every declaration is the last one of its name.
    rw [← hmethods, List.map_map] at hnodup
    exact boundBody_of_last (lastOf?_of_nodup hnodup hd) (hlength d hd)
  · unfold boundBody
    rw [hlast]
    dsimp only
    rw [paramVars_eq_none_iff.2 ⟨i, p, hp, hplain, hi⟩]

/-- Of two methods with one name the second one is checked with its own declaration. -/
theorem class_bodies_go_with_last_declarations_twice :
    ∃ methods c ds s s', methods.map Lambda.title = ["m", "m"] ∧
      declarations c methods s = .ok ds s' ∧
      stmt (.classDecl 0 .absent [] methods) = classDeclaration 0 .absent [] methods ∧
      Pairing c methods ds ∧
      ∃ d, lastOf? ds "m" = some d ∧ boundBody c ds d.method = ownBody c d := by
  let methods : List Lambda :=
    [⟨0, .absent, some (.synthetic "m"), [.required "Int" "a"], []⟩,
      ⟨1, .absent, some (.synthetic "m"), [.required "String" "a"], []⟩]
  let s := Checker.ofMachine .initial
  let c : ClassType := ⟨s.bodies.size, "A", [], none⟩
  have htitles : methods.map Lambda.title = ["m", "m"] := rfl
  -- The declarations are made without an error.
  have hruns : (match declarations c methods s with
      | .ok ds _ => (lastOf? ds "m").any fun d => d.method.title = "m"
      | .error .. => false) = true := by decide +kernel
  cases hds : declarations c methods s with
  | error e s' =>
    rw [hds] at hruns
    cases hruns
  | ok ds s' =>
    rw [hds] at hruns
    obtain ⟨d, hlast, htitle⟩ := (Option.any_eq_true _ _).1 hruns
    obtain ⟨hclass, hpairing⟩ := class_bodies_go_with_last_declarations 0 .absent [] methods
    have hpairs := hpairing c ds s s' hds
    refine ⟨methods, c, ds, s, s', htitles, hds, hclass, hpairs, d, hlast, hpairs.last d ?_⟩
    rw [of_decide_eq_true htitle]
    exact hlast

/-- A method is not always checked with its own declaration. Inside the first of these methods the
parameter, which is declared an `Int`, is a `String`; and where the second method has fewer
parameters the checker fails. -/
theorem body_goes_with_namesake :
    let s := ((Checker.ofMachine .initial).check (Parse.source
      "class A \x7b m(Int a) \x7b return a \x7d m(String a) \x7b return a \x7d \x7d" 0).program).2
    s.typeText? s.types[0]? = some "String" ∧
      ((Checker.ofMachine .initial).check (Parse.source
        "class A \x7b m(a, b) \x7b\x7d m(a) \x7b\x7d \x7d" 0).program).1 = .fault := by
  intro s
  refine ⟨by decide +kernel, ?_⟩
  have hfault : (match ((Checker.ofMachine .initial).check (Parse.source
      "class A \x7b m(a, b) \x7b\x7d m(a) \x7b\x7d \x7d" 0).program).1 with
    | .fault => true
    | _ => false) = true := by decide +kernel
  split at hfault
  · assumption
  · cases hfault

end Check

end ClassScript.Typing
