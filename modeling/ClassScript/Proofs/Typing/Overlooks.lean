import ClassScript.Proofs.Typing.Shadowed

/-!
# The checker overlooks hidden names

There is a lemma for every function of the checker: if the syntax that it is given neither gives the
kept names a value nor mentions the hidden ones, then it does not see what the hidden names stand
for, and upholds the kept ones.
-/

namespace ClassScript.Typing

namespace Check

variable {α β : Type} {kept hidden : List String} {A : Prop} {w : Checker}

/-! ### Types of members and calls -/

section Members

variable {Q : Checker → α → Prop}

/-- A complaint does not look at names. -/
theorem overlooks_reject (token : Token) (fault : Fault) :
    Overlooks kept hidden A w Q (reject token fault) (reject token fault) :=
  .throw _

/-- A question that the global names do not matter for. -/
theorem overlooks_answer {q : Checker → Option α} (h : ∀ s globals, q { s with globals } = q s) :
    Overlooks kept hidden A w Any (answer q) (answer q) := by
  refine .getBind fun {s s'} hs _ => ?_
  have hq : q s' = q s := by
    rw [hs.same, h]
  rw [hq]
  cases q s with
  | none => exact .throw _
  | some a => exact .done a

/-- Neither does the text of a type. -/
theorem overlooks_text (t : Ty) : Overlooks kept hidden A w Any (text t) (text t) :=
  overlooks_answer fun s globals => Checker.typeText?_globals s globals (some t)

/-- Neither does the more general type of two. -/
theorem overlooks_unify (a b : Option Ty) :
    Overlooks kept hidden A w Any (answer (·.unify? a b)) (answer (·.unify? a b)) :=
  overlooks_answer fun s globals => Checker.unify?_globals s globals a b

/-- Neither does a comparison of types. -/
theorem overlooks_assignable (param arg : Option Ty) :
    Overlooks kept hidden A w Any (answer (·.assignable? param arg))
      (answer (·.assignable? param arg)) :=
  overlooks_answer fun s globals => Checker.assignable?_globals s globals param arg

/-- A rejection whose text names a type. -/
theorem overlooks_complain (token : Token) (t : Ty) (fault : String → Fault) :
    Overlooks kept hidden A w Q (do reject token (fault (← text t)))
      (do reject token (fault (← text t))) :=
  (overlooks_text t).bind fun _ _ _ _ => overlooks_reject ..

/-- A rejection whose text names two types. -/
theorem overlooks_clash (token : Token) (t u : Ty) (fault : String → String → Fault) :
    Overlooks kept hidden A w Q (do reject token (fault (← text t) (← text u)))
      (do reject token (fault (← text t) (← text u))) :=
  (overlooks_text t).bind fun _ _ _ _ =>
    (overlooks_text u).bind fun _ _ _ _ => overlooks_reject ..

/-- A node gets the same type. -/
theorem overlooks_record (id : NodeId) (t : Ty) :
    Overlooks kept hidden A w Any (record id t) (record id t) := by
  refine Overlooks.bind (.change (fun _ _ => rfl) (fun _ => rfl) (fun _ => rfl) fun s hs _ => ?_)
    fun _ _ _ _ => .done t
  exact ⟨.of_eq rfl rfl, hs.of_eq rfl rfl rfl hs.method rfl⟩

/-- A name that is not hidden is noted with the same scope. -/
theorem overlooks_noteUse (id : NodeId) {name : String} (hname : name ∉ hidden) :
    Overlooks kept hidden A w Any (noteUse id name) (noteUse id name) where
  run {s s'} hs _ _ := by
    -- The place of the name is noted, not its type.
    have hfound : (lookup? s' name).map (·.1.origin s') = (lookup? s name).map (·.1.origin s) := by
      rw [hs.lookup? hname]
      exact Option.map_congr fun p _ => hs.origin p.1
    have hlater : s.Later { s with
        found := s.found.insert id ((lookup? s name).map (·.1.origin s)) } := .of_eq rfl rfl
    refine .ok ⟨?_, hs.globals, ?_, hlater.settled hs.settled, hs.hideable⟩ hlater rfl trivial
    · dsimp only
      rw [hfound]
      conv_lhs => rw [hs.same]
    · exact hs.upholds.of_eq rfl rfl rfl hs.upholds.method rfl

/-- A type whose name is not hidden is found alike. -/
theorem overlooks_declaredType {token : Token} (hname : token.lexeme ∉ hidden) :
    Overlooks kept hidden A w Any (declaredType token) (declaredType token) := by
  refine .getBind fun {s s'} hs _ => ?_
  rw [hs.lookup? hname]
  cases named? ((lookup? s token.lexeme).map Prod.snd) token.lexeme with
  | none => exact overlooks_reject ..
  | some t => exact .done t

/-- A function that is made is one of the program, on both sides. -/
theorem overlooks_newSignature (sig : Signature) :
    Overlooks kept hidden A w Checker.Own (newSignature sig) (newSignature sig) where
  run {s s'} hs _ _ := by
    have hsize : s'.signatures.size = s.signatures.size := by rw [hs.same]
    have hlater : s.Later { s with signatures := s.signatures.push sig } :=
      ⟨by simp, fun _ _ h => .inl h, fun _ _ h => h⟩
    have hpushed := hs.update (u := fun s => { s with signatures := s.signatures.push sig })
      (fun _ => rfl) rfl hlater (hs.upholds.pushSignature sig)
    change Matched kept hidden s Checker.Own (.ok s.signatures.size _) (.ok s'.signatures.size _)
    rw [hsize]
    refine .ok hpushed hlater rfl ⟨by simp, fun op hop => ?_⟩
    exact Nat.lt_irrefl _ (hs.upholds.natives op _ hop).1

/-- A native method whose types have hidden names was used before, and any other one gets the same
signature. -/
theorem overlooks_nativeMethod {c : NativeClass} {m : NativeMethod} (hm : m ∈ c.methods) :
    Overlooks kept hidden A w Any (nativeMethod m) (nativeMethod m) where
  run {s s'} hs _ _ := by
    rw [nativeMethod_apply, nativeMethod_apply, hs.nativeMethods]
    cases hlookup : s.nativeMethods.lookup m.operation with
    | some f => exact .ok hs (.refl s) rfl trivial
    | none =>
      -- Otherwise the method would have been used before.
      have hnames : ∀ n ∈ m.typeNames, n ∉ hidden := by
        intro n hn hmem
        have hused := hs.settled c m hm ⟨n, hn, hmem⟩
        rw [hlookup] at hused
        cases hused
      have hsize : s'.signatures.size = s.signatures.size := by rw [hs.same]
      have hlater : s.Later { s with
          signatures := s.signatures.push (nativeMethodSignature s m)
          nativeMethods := (m.operation, s.signatures.size) :: s.nativeMethods } := by
        refine ⟨by simp, fun op f hf => ?_, fun op f hf => ?_⟩
        · rcases List.mem_cons.1 hf with heq | hf
          · exact .inr (Nat.le_of_eq (congrArg Prod.snd heq).symm)
          · exact .inl hf
        · have hne : (op == m.operation) = false := by
            refine beq_false_of_ne fun heq => ?_
            rw [heq, hlookup] at hf
            cases hf
          dsimp only
          rw [List.lookup_cons, hne]
          exact hf
      rw [hs.nativeMethodSignature hnames, hsize]
      refine .ok ⟨?_, hs.globals, hs.upholds.useNative hm, hlater.settled hs.settled, hs.hideable⟩
        hlater rfl trivial
      conv_lhs => rw [hs.same]

/-- A member that all objects have is the same. -/
theorem overlooks_objectMember (t : Ty) (name : Token) :
    Overlooks kept hidden A w Any (objectMember t name) (objectMember t name) := by
  unfold objectMember
  cases hm : NativeClass.object.ownMethod? name.lexeme with
  | some m => exact overlooks_nativeMethod (NativeClass.mem_of_ownMethod? hm)
  | none => exact overlooks_complain name t (.undefinedProperty name.lexeme)

/-- The property of a class or of its superclass. -/
theorem exists_of_property? {n : NativeClass} {name : String} {p : NativeProperty}
    (h : n.property? name = some p) : ∃ c : NativeClass, p ∈ c.properties := by
  unfold NativeClass.property? at h
  rcases (Option.orElse_eq_some ..).1 h with h | ⟨-, h⟩
  · exact ⟨n, List.mem_of_find?_eq_some h⟩
  · obtain ⟨parent, -, h⟩ := Option.bind_eq_some_iff.1 h
    exact ⟨parent, List.mem_of_find?_eq_some h⟩

/-- So is a member of any type. -/
theorem overlooks_member (t : Ty) (name : Token) :
    Overlooks kept hidden A w Any (member t name) (member t name) := by
  unfold member
  refine .ite (.done _) ?_
  cases t with
  | «class» c => exact overlooks_objectMember ..
  | function f => exact overlooks_objectMember ..
  | «instance» c =>
    dsimp only
    cases c.native? with
    | some n =>
      dsimp only
      cases hm : n.method? name.lexeme with
      | some m =>
        obtain ⟨d, hd⟩ := NativeClass.exists_of_method? hm
        exact overlooks_nativeMethod hd
      | none =>
        cases hp : n.property? name.lexeme with
        | none => exact overlooks_objectMember ..
        | some p =>
          refine .getBind fun {s s'} hs _ => ?_
          obtain ⟨d, hd⟩ := exists_of_property? hp
          -- A property is looked up at every use.
          rw [hs.globalType (mem_of_forall_filter (hs.hideable.late d)
            (.tail _ (List.mem_append_left _ (List.mem_map_of_mem hd))))]
          exact .done _
    | none =>
      refine .getBind fun {s s'} hs _ => ?_
      rw [hs.attributes]
      cases s.attributes.lookup name.lexeme c with
      | found a depth => exact .done a
      | ambiguous branches => exact overlooks_reject ..
      | absent =>
        refine .getBind fun {s s'} hs _ => ?_
        rw [hs.methods]
        cases s.methods.lookup name.lexeme c with
        | found f depth => exact .done _
        | ambiguous branches => exact overlooks_reject ..
        | absent => exact overlooks_objectMember ..

/-- A field gets the same type. -/
theorem overlooks_putAttribute (c : ClassType) (name : String) (t : Ty) :
    Overlooks kept hidden A w Any (putAttribute c name t) (putAttribute c name t) :=
  .change (fun _ _ => rfl) (fun _ => rfl) (fun _ => rfl) fun _ hs _ =>
    ⟨.of_eq rfl rfl, hs.modifyBody c.id fun _ _ _ hf => .inl hf⟩

/-- So it does in an assignment. -/
theorem overlooks_setAttribute (t : Ty) (name : Token) (value : Ty) :
    Overlooks kept hidden A w Any (setAttribute t name value) (setAttribute t name value) := by
  unfold setAttribute
  refine .ite (.done _) ?_
  cases t with
  | «class» c => exact overlooks_reject ..
  | function f => exact overlooks_reject ..
  | «instance» c =>
    refine .guard (overlooks_reject ..) fun _ _ _ => .getBind fun {s s'} hs _ => ?_
    rw [hs.attributes]
    -- A new field gets the type; an old one has to have a common type with it.
    cases s.attributes.lookup name.lexeme c with
    | ambiguous branches => exact overlooks_reject ..
    | absent => exact overlooks_putAttribute ..
    | found existing depth =>
      refine (overlooks_unify ..).bind fun _ u _ _ => ?_
      cases u with
      | none => exact overlooks_clash name existing value .redefinedAttribute
      | some u =>
        refine .getBind fun {s s'} hs _ => ?_
        rw [hs.body]
        exact .ite (overlooks_putAttribute ..) (.done _)

/-- An argument is compared with the parameter, whatever the result of the function is. -/
theorem overlooks_argument (site : Token) (sig : Signature) (returns : Option Ty) (p : Nat)
    (arg : Ty) :
    Overlooks kept hidden A w Any (argument site sig p arg)
      (argument site { sig with returns } p arg) := by
  unfold argument
  dsimp only
  cases sig.paramTypes[p]? with
  | none => exact .throw _
  | some want =>
    cases sig.params[p]? with
    | none => exact .throw _
    | some param =>
      refine (overlooks_assignable ..).bind fun _ fits _ _ => .ite (.done _) ?_
      exact overlooks_clash site want arg fun want got =>
        .badArgument want param.name.lexeme sig.name got

/-- Arguments in order fit the same parameters, whatever comes back. -/
theorem overlooks_positional (site : Token) (sig : Signature) (returns : Option Ty) (i : Nat)
    (args : List Ty) (given : List Nat) :
    Overlooks kept hidden A w Any (positional site sig i args given)
      (positional site { sig with returns } i args given) := by
  induction args generalizing i given w with
  | nil => exact .done given
  | cons arg rest ih => exact (overlooks_argument ..).bind fun _ _ _ _ => ih ..

/-- So do named arguments. -/
theorem overlooks_byName (sig : Signature) (returns : Option Ty) (named : List (Token × Ty))
    (given : List Nat) :
    Overlooks kept hidden A w Any (byName sig named given)
      (byName { sig with returns } named given) := by
  -- On the named arguments, for any parameters that are taken already.
  induction named generalizing given w with
  | nil => exact .done given
  | cons a rest ih =>
    obtain ⟨name, arg⟩ := a
    unfold byName
    dsimp only
    cases paramIndex? sig.params name.lexeme with
    | none => exact overlooks_reject ..
    | some p =>
      refine .guard (overlooks_reject ..) fun _ _ _ => .guard (overlooks_reject ..) fun _ _ _ => ?_
      exact (overlooks_argument ..).bind fun _ _ _ _ => ih _

/-- So do all arguments. -/
theorem overlooks_arguments (site : Token) (sig : Signature) (returns : Option Ty) (args : List Ty)
    (named : List (Token × Ty)) :
    Overlooks kept hidden A w Any (arguments site sig args named)
      (arguments site { sig with returns } args named) := by
  unfold arguments
  dsimp only
  refine .guardNot (overlooks_reject ..) fun _ _ _ => ?_
  refine (overlooks_positional ..).bind fun _ _ _ _ => (overlooks_byName ..).bind
    fun _ given _ _ => ?_
  split
  · exact overlooks_reject ..
  · exact .done _

/-- The constructor of a class of the program. -/
theorem overlooks_constructor (site : Token) {c : ClassType} (hc : c.native? = none) :
    Overlooks kept hidden A w Any (constructor site c) (constructor site c) := by
  unfold constructor
  rw [hc]
  refine .getBind fun {s s'} hs _ => ?_
  rw [hs.methods]
  cases s.methods.lookup "init" c with
  | ambiguous branches => exact overlooks_reject ..
  | absent => exact .done _
  | found f depth =>
    refine .getBind fun {s s'} hs _ => ?_
    rw [hs.signature]
    exact .done _

/-- The arguments of a class are compared with its constructor. The result that its signature names
does not matter, so the name of the class may be hidden. -/
theorem overlooks_instantiate (site : Token) (c : ClassType) (args : List Ty)
    (named : List (Token × Ty)) :
    Overlooks kept hidden A w Any
      (do arguments site (← constructor site c) args named; return Ty.instance c)
      (do arguments site (← constructor site c) args named; return Ty.instance c) := by
  have hrest (w : Checker) (sig : Signature) (returns : Option Ty) :
      Overlooks kept hidden A w Any (do arguments site sig args named; return Ty.instance c)
        (do arguments site { sig with returns } args named; return Ty.instance c) :=
    (overlooks_arguments ..).bind fun _ _ _ _ => .done _
  cases hc : c.native? with
  | none => exact (overlooks_constructor site hc).bind fun w sig _ _ => hrest w sig sig.returns
  | some n =>
    unfold constructor
    rw [hc]
    dsimp only
    cases hn : n.constructor? with
    | none =>
      exact (overlooks_reject (Q := Any) ..).bind fun w sig _ _ => hrest w sig sig.returns
    | some params =>
      refine .getBind fun {s s'} hs _ => ?_
      have hparams : params.map (fun p => globalType s' p.type.lexeme) =
          params.map fun p => globalType s p.type.lexeme := by
        refine List.map_congr_left fun p hp => hs.globalType (mem_of_forall_filter
          (hs.hideable.late n) (.tail _ (List.mem_append_right _ (List.mem_map_of_mem ?_))))
        rwa [NativeClass.params, hn]
      have hsig : nativeSignature s' c.name params c.name =
          { nativeSignature s c.name params c.name with
            returns := some (globalType s' c.name) } := by
        unfold nativeSignature
        rw [hparams]
      -- Only the result of the signature can differ, and the arguments do not depend on it.
      have hshown : Overlooks kept hidden A s Any
          (do
            arguments site (nativeSignature s c.name params c.name) args named
            return Ty.instance c)
          (do
            arguments site (nativeSignature s' c.name params c.name) args named
            return Ty.instance c) := by
        rw [hsig]
        exact hrest ..
      exact hshown

/-- A call has the same result. -/
theorem overlooks_callType (site : Token) (callee : Ty) (args : List Ty)
    (named : List (Token × Ty)) :
    Overlooks kept hidden A w Any (callType site callee args named)
      (callType site callee args named) := by
  unfold callType
  refine .ite (.done _) ?_
  cases callee with
  | «instance» c => exact overlooks_reject ..
  | «class» c => exact overlooks_instantiate ..
  | function f =>
    refine .getBind fun {s s'} hs _ => ?_
    rw [hs.signature]
    exact (overlooks_arguments site (s.signature f) _ args named).bind fun _ _ _ _ => .done _

/-- A member is looked for first; what follows starts where that ended. -/
theorem overlooks_send (site : Token) (receiver : Ty) (name : String) (args : List Ty) :
    Overlooks kept hidden A w Any (send site receiver name args)
      (send site receiver name args) where
  run {s s'} hs hw hA := by
    have hmember := (overlooks_member (A := A) receiver { site with lexeme := name }).run hs hw hA
    rw [send_apply, send_apply]
    generalize member receiver { site with lexeme := name } s = r at hmember ⊢
    generalize member receiver { site with lexeme := name } s' = r' at hmember ⊢
    -- What is found is called, from the state that the search ended in.
    cases hmember with
    | @error e _ _ h hlater => cases e <;> exact .error h hlater
    | ok h hlater hlocals _ =>
      refine ((overlooks_callType site _ args []).run h (hw.trans hlater) fun hnil => hA ?_).behind
        hlater hlocals
      rw [hnil] at hlocals
      exact List.eq_nil_of_length_eq_zero hlocals.symm

/-- A member of superclasses is the same. -/
theorem overlooks_superNamed (supers : List ClassType) (name : String) (keyword : Token) :
    Overlooks kept hidden A w Any (superNamed supers name keyword)
      (superNamed supers name keyword) := by
  refine .getBind fun {s s'} hs _ => ?_
  rw [hs.methods]
  cases s.methods.lookupSupers name supers with
  | found f depth => exact .done _
  | ambiguous branches => exact overlooks_reject ..
  | absent =>
    dsimp only
    cases hm : NativeClass.object.ownMethod? name with
    | some m => exact overlooks_nativeMethod (NativeClass.mem_of_ownMethod? hm)
    | none => exact overlooks_reject ..

/-- So is one that is reached through `super`. -/
theorem overlooks_superType (keyword : Token) (method : Option Token) :
    Overlooks kept hidden A w Any (superType keyword method) (superType keyword method) := by
  refine .getBind fun {s s'} hs _ => ?_
  have hmethod := hs.upholds.method
  rw [hs.context]
  cases hcontext : s.context with
  | none => exact .done _
  | some context =>
    rw [hcontext] at hmethod
    obtain ⟨returns, isInitializer, home, enclosing, around⟩ := context
    cases around with
    | none => exact .done _
    | some c =>
      cases enclosing with
      | none => exact overlooks_superNamed ..
      | some f =>
        -- The method around the place is no native one.
        have hown : s.Own f := hmethod f rfl
        refine Overlooks.bind (.change (fun _ _ => rfl) (fun _ => rfl) (fun _ => rfl)
          fun t ht hlater => ?_) fun _ _ _ _ => overlooks_superNamed ..
        exact ⟨.of_eq Array.size_modify rfl, ht.modifySignature (hown.mono hlater) _⟩

/-! ### Types of expressions -/

/-- An operator has the same result. -/
theorem overlooks_binaryType (op : Token) (left right : Ty) :
    Overlooks kept hidden A w Any (binaryType op left right) (binaryType op left right) :=
  (overlooks_send ..).bind fun _ _ _ _ => .done _

/-- So have both sides together. -/
theorem overlooks_logicalType (left right : Ty) :
    Overlooks kept hidden A w Any (logicalType left right) (logicalType left right) :=
  (overlooks_unify ..).bind fun _ _ _ _ => .done _

/-- A name that is not hidden has the same type. -/
theorem overlooks_useVariable {use : NameUse} (hname : use.name.lexeme ∉ hidden) :
    Overlooks kept hidden A w Any (useVariable use) (useVariable use) := by
  refine (overlooks_noteUse _ hname).bind fun _ _ _ _ => .getBind fun {s s'} hs _ => ?_
  rw [hs.variableType hname]
  exact overlooks_record ..

/-- A name in a scope that is there, or a global one that is not kept. -/
theorem overlooks_defineAt {place : Place} {name : String} (t : Option Ty)
    (hplace : place = .global → name ∉ kept) :
    Overlooks kept hidden A w Any (defineAt place name t) (defineAt place name t) := by
  -- A local scope is the same in both; among the global names only those that are kept matter.
  cases place with
  | «local» i =>
    refine .change (fun _ _ => rfl) (fun _ => rfl) (fun s => ?_) fun s hs _ => ?_
    · exact List.length_modify ..
    · exact ⟨.of_eq rfl rfl, hs.of_eq rfl rfl rfl hs.method rfl⟩
  | global =>
    refine ⟨fun {s s'} hs _ _ => ?_⟩
    have hlater : s.Later { s with globals := s.globals.insert name t } := .of_eq rfl rfl
    refine .ok ⟨?_, fun x hx => ?_, hs.upholds.insertGlobal (hplace rfl) t,
      hlater.settled hs.settled, hs.hideable⟩ hlater rfl trivial
    · conv_lhs => rw [hs.same]
    · dsimp only
      rw [Std.TreeMap.getElem?_insert, Std.TreeMap.getElem?_insert, hs.globals x hx]

/-- A name that is not a kept one may be defined; in an inner scope it may be any. -/
theorem overlooks_define {name : String} (t : Option Ty) (hA : A → name ∉ kept) :
    Overlooks kept hidden A w Any (define name t) (define name t) where
  run {s s'} hs hw hnil := by
    -- Without an open scope the name is declared among the global ones.
    have hplace : (if s.locals.isEmpty then Place.global else .local 0) = .global →
        name ∉ kept := by
      intro h
      split at h
      · next hempty => exact hA (hnil (List.isEmpty_iff.1 hempty))
      · cases h
    have hdefine : Matched kept hidden s Any _ _ := (overlooks_defineAt t hplace).run hs hw hnil
    change Matched kept hidden s Any (defineAt _ name t s)
      (defineAt (if s'.locals.isEmpty then .global else .local 0) name t s')
    rw [hs.locals]
    exact hdefine

/-- A name that is neither kept nor hidden may be assigned to. -/
theorem overlooks_assign {name : Token} (value : Ty) (hkept : name.lexeme ∉ kept)
    (hname : name.lexeme ∉ hidden) :
    Overlooks kept hidden A w Any (assign name value) (assign name value) := by
  refine .getBind fun {s s'} hs _ => ?_
  rw [hs.lookup? hname]
  rcases lookup? s name.lexeme with _ | ⟨place, _ | existing⟩
  · exact overlooks_defineAt _ fun _ => hkept
  · exact overlooks_defineAt _ fun _ => hkept
  · refine (overlooks_unify ..).bind fun _ u _ _ => ?_
    cases u with
    | none => exact overlooks_clash name existing value .redefinedVariable
    | some u => exact overlooks_defineAt u fun _ => hkept

/-- The elements of a loop have the same type. -/
theorem overlooks_elementType (keyword : Token) (t : Ty) :
    Overlooks kept hidden A w Any (elementType keyword t) (elementType keyword t) := by
  unfold elementType
  refine .ite (.done _) ?_
  cases t with
  | «class» c => exact overlooks_complain keyword (.class c) .notIterable
  | function f => exact overlooks_complain keyword (.function f) .notIterable
  | «instance» c =>
    dsimp only
    cases c.native? with
    | some n =>
      dsimp only
      cases n.method? "iterate" with
      | none => exact overlooks_reject ..
      | some m =>
        refine .getBind fun {s s'} hs _ => ?_
        -- The type of the elements is looked up late, and its name is not hidden.
        rw [hs.globalType (mem_of_forall_filter (hs.hideable.late n) (.head _))]
        exact .done _
    | none =>
      refine .getBind fun {s s'} hs _ => ?_
      rw [hs.methods]
      cases s.methods.lookup "iterate" c with
      | found f depth => exact .done _
      | ambiguous branches => exact overlooks_reject ..
      | absent => exact overlooks_reject ..

/-- A return is noted alike. -/
theorem overlooks_noteReturn (keyword : Token) (t : Ty) :
    Overlooks kept hidden A w Any (noteReturn keyword t) (noteReturn keyword t) := by
  refine .change (fun _ _ => rfl) (fun _ => rfl) (fun _ => rfl) fun s hs _ => ?_
  refine ⟨.of_eq rfl rfl, hs.of_eq rfl rfl rfl (fun f hf => hs.method f ?_) rfl⟩
  rw [← hf]
  cases s.context <;> rfl

/-- Returns have the same type in common. -/
theorem overlooks_settle (name : String) (ret : Ty) (rest : List (Ty × Token)) :
    Overlooks kept hidden A w Any (settle name ret rest) (settle name ret rest) := by
  induction rest generalizing ret w with
  | nil => exact .done ret
  | cons r rest ih =>
    obtain ⟨t, keyword⟩ := r
    refine (overlooks_unify ..).bind fun _ u _ _ => ?_
    cases u with
    | none => exact overlooks_clash keyword ret t (.multipleReturns name)
    | some u => exact ih _

/-- A function has the same result. -/
theorem overlooks_resultType (name : String) (c : Context) :
    Overlooks kept hidden A w Any (resultType name c) (resultType name c) := by
  unfold resultType
  split
  · exact .done _
  · split
    · exact .done _
    · exact overlooks_settle ..

/-! ### Functions and classes -/

/-- Inside a scope no name is global. -/
theorem overlooks_inScope {B : Prop} {x : Check α} (scope : StaticScope)
    (hx : Overlooks kept hidden B w Any x x) :
    Overlooks kept hidden A w Any (inScope scope x) (inScope scope x) where
  run {s s'} hs hw _ := by
    have hopened : s.Later { s with locals := scope :: s.locals } := .of_eq rfl rfl
    have hinside := hs.update (u := fun s => { s with locals := scope :: s.locals })
      (fun _ => rfl) rfl hopened (hs.upholds.of_eq rfl rfl rfl hs.upholds.method rfl)
    -- A scope is open inside, so nothing there is declared among the global names.
    have hbody := hx.run hinside (hw.trans hopened) nofun
    unfold inScope
    rw [bind_apply, bind_apply, modify_apply, modify_apply]
    dsimp only
    rw [bind_apply, bind_apply]
    generalize x { s with locals := scope :: s.locals } = r at hbody ⊢
    generalize x { s' with locals := scope :: s'.locals } = r' at hbody ⊢
    cases hbody with
    | error h hlater => exact .error h (hopened.trans hlater)
    | @ok a t t' h hlater hlocals _ =>
      have hclosed : t.Later { t with locals := t.locals.tail } := .of_eq rfl rfl
      have houtside := h.update (u := fun s => { s with locals := s.locals.tail }) (fun _ => rfl)
        rfl hclosed (h.upholds.of_eq rfl rfl rfl h.upholds.method rfl)
      refine .ok houtside (hopened.trans (hlater.trans hclosed)) ?_ trivial
      simp only [List.length_tail, hlocals, List.length_cons, Nat.add_sub_cancel]

/-- The body of a function of the program. Its context, like the one around it, belongs to a method
of the program, if to any. -/
theorem overlooks_functionBody {B : Prop} (id : NodeId) (params : List Param) {f : SignatureId}
    (hf : w.Own f) {context : Context} (hcontext : ∀ g, context.method? = some g → w.Own g)
    {body : Check Unit} (hbody : Overlooks kept hidden B w Any body body) :
    Overlooks kept hidden A w Any (functionBody id params f context body)
      (functionBody id params f context body) := by
  refine .getBind fun {s s'} hs hw => ?_
  rw [hs.signature]
  dsimp only
  cases paramVars params (s.signature f).paramTypes with
  | none => exact .throw _
  | some vars =>
    refine .getBind fun {s₁ s₁'} hs₁ hw₁ => ?_
    rw [hs₁.context]
    have houter := hs₁.upholds.method
    refine Overlooks.bind (.change (fun _ _ => rfl) (fun _ => rfl) (fun _ => rfl)
      fun t ht hlater => ?_) fun w₂ _ hw₂ _ => ?_
    · have hinner := fun g hg => (hcontext g hg).mono (hw.trans (hw₁.trans hlater))
      exact ⟨.of_eq rfl rfl, ht.of_eq rfl rfl rfl hinner rfl⟩
    have hstart := hw.trans (hw₁.trans hw₂)
    refine (overlooks_inScope _ (hbody.later hstart)).bind fun w₃ _ hw₃ _ => ?_
    refine .getBind fun {s₄ s₄'} hs₄ hw₄ => ?_
    rw [hs₄.context]
    refine (overlooks_resultType ..).bind fun w₅ result hw₅ _ => ?_
    refine .change (fun _ _ => rfl) (fun _ => rfl) (fun _ => rfl) fun t ht hlater => ?_
    have hpast := hw₂.trans (hw₃.trans (hw₄.trans (hw₅.trans hlater)))
    -- Native methods that were used in the body stand behind the functions from before it.
    have hown := hf.mono ((hw.trans hw₁).trans hpast)
    have hmodified := ht.modifySignature hown ({ · with returns := some result })
    refine ⟨.of_eq Array.size_modify rfl, hmodified.of_eq rfl rfl rfl (fun g hg => ?_) rfl⟩
    exact ((houter g hg).mono hpast).mono (.of_eq Array.size_modify rfl)

/-- A class gets the same method, one of the program. -/
theorem overlooks_putMember (c : ClassType) (name : String) {f : SignatureId} (hf : w.Own f) :
    Overlooks kept hidden A w Any (putMember c name f) (putMember c name f) := by
  refine .change (fun _ _ => rfl) (fun _ => rfl) (fun _ => rfl) fun s hs hlater => ?_
  refine ⟨.of_eq rfl rfl, hs.modifyBody c.id fun b x g hg => ?_⟩
  dsimp only at hg
  rw [Std.TreeMap.getElem?_insert] at hg
  split at hg
  · obtain rfl := Option.some.inj hg
    exact .inr (hf.mono hlater)
  · exact .inl hg

/-- A class is made alike. -/
theorem overlooks_newClass (name : String) (supers : List ClassType) :
    Overlooks kept hidden A w Any (newClass name supers) (newClass name supers) where
  run {s s'} hs _ _ := by
    have hsize : s'.bodies.size = s.bodies.size := by rw [hs.same]
    have hlater : s.Later { s with bodies := s.bodies.push {} } := .of_eq rfl rfl
    have hpushed := hs.update (u := fun s => { s with bodies := s.bodies.push {} }) (fun _ => rfl)
      rfl hlater hs.upholds.pushBody
    change Matched kept hidden s Any (.ok (⟨s.bodies.size, name, supers, none⟩ : ClassType) _)
      (.ok ⟨s'.bodies.size, name, supers, none⟩ _)
    rw [hsize]
    exact .ok hpushed hlater rfl trivial

/-- Superclasses whose names are not hidden are the same. -/
theorem overlooks_superclasses {supers : List NameUse}
    (hnames : ∀ use ∈ supers, use.name.lexeme ∉ hidden) :
    Overlooks kept hidden A w Any (superclasses supers) (superclasses supers) := by
  induction supers generalizing w with
  | nil => exact .done []
  | cons use rest ih =>
    obtain ⟨huse, hrest⟩ := List.forall_mem_cons.1 hnames
    refine (overlooks_useVariable huse).bind fun _ t _ _ => ?_
    cases t with
    | «instance» c => exact overlooks_reject ..
    | function f => exact overlooks_reject ..
    | «class» c =>
      exact .guard (overlooks_reject ..) fun _ _ _ => (ih hrest).bind fun _ _ _ _ => .done _

/-! ### Expressions and statements -/

/-- The method around the place is that around a function inside. -/
theorem own_childContext {s : Checker} (hs : s.Upholds kept) (g : SignatureId)
    (hg : (childContext s).method? = some g) : s.Own g := by
  refine hs.method g ?_
  rw [← hg]
  unfold childContext
  cases s.context <;> rfl

mutual

/-- Expressions do not see hidden names that they do not mention. -/
theorem overlooks_expr (w : Checker) (A : Prop) : ∀ e : Expr,
    Node.AllDiscreet kept hidden (e.nodes everywhere) →
    Overlooks kept hidden A w Any (expr e) (expr e)
  | .literal id token value, _ => overlooks_record ..
  | .group id paren inner, h => by
    simp only [Expr.nodes, Node.visit_everywhere, Node.allDiscreet_cons] at h
    exact (overlooks_expr w A inner h.2).bind fun _ _ _ _ => overlooks_record ..
  | .list id bracket elements, h => by
    simp only [Expr.nodes, Node.visit_everywhere, Node.allDiscreet_cons] at h
    exact (overlooks_exprs w A elements h.2).bind fun _ _ _ _ => overlooks_record ..
  | .var use, h => by
    simp only [Expr.nodes, Node.visit_everywhere, Node.allDiscreet_cons] at h
    exact overlooks_useVariable (h.1.mentions _ (.head _))
  | .self id keyword, _ => by
    refine .getBind fun hs _ => ?_
    rw [hs.selfType]
    exact overlooks_record ..
  | .assign id name value, h => by
    simp only [Expr.nodes, Node.visit_everywhere, Node.allDiscreet_cons] at h
    -- A name that is assigned to may not be one of those that are kept, either.
    have hname := h.1.mentions _ (.head _)
    have hkept := h.1.assigned _ (.head _)
    exact (overlooks_expr w A value h.2).bind fun _ t _ _ =>
      (overlooks_noteUse id hname).bind fun _ _ _ _ =>
        (overlooks_assign t hkept hname).bind fun _ _ _ _ => overlooks_record ..
  | .super id keyword method, _ =>
    (overlooks_superType keyword method).bind fun _ _ _ _ => overlooks_record ..
  | .unary id op right, h => by
    simp only [Expr.nodes, Node.visit_everywhere, Node.allDiscreet_cons] at h
    exact (overlooks_expr w A right h.2).bind fun _ _ _ _ =>
      (overlooks_send ..).bind fun _ _ _ _ => overlooks_record ..
  | .binary id left op right, h => by
    simp only [Expr.nodes, Node.visit_everywhere, Node.allDiscreet_cons,
      Node.allDiscreet_append] at h
    exact (overlooks_expr w A left h.2.1).bind fun w₁ _ _ _ =>
      (overlooks_expr w₁ A right h.2.2).bind fun _ _ _ _ =>
        (overlooks_binaryType ..).bind fun _ _ _ _ => overlooks_record ..
  | .logical id left op right, h => by
    simp only [Expr.nodes, Node.visit_everywhere, Node.allDiscreet_cons,
      Node.allDiscreet_append] at h
    exact (overlooks_expr w A left h.2.1).bind fun w₁ _ _ _ =>
      (overlooks_expr w₁ A right h.2.2).bind fun _ _ _ _ =>
        (overlooks_logicalType ..).bind fun _ _ _ _ => overlooks_record ..
  | .call id callee paren args named, h => by
    simp only [Expr.nodes, Node.visit_everywhere, Node.allDiscreet_cons,
      Node.allDiscreet_append] at h
    exact (overlooks_expr w A callee h.2.1.1).bind fun w₁ _ _ _ =>
      (overlooks_exprs w₁ A args h.2.1.2).bind fun w₂ _ _ _ =>
        (overlooks_namedArgs w₂ A named h.2.2).bind fun _ _ _ _ =>
          (overlooks_callType ..).bind fun _ _ _ _ => overlooks_record ..
  | .get id object name, h => by
    simp only [Expr.nodes, Node.visit_everywhere, Node.allDiscreet_cons] at h
    exact (overlooks_expr w A object h.2).bind fun _ _ _ _ =>
      (overlooks_member ..).bind fun _ _ _ _ => overlooks_record ..
  | .set id object name value, h => by
    simp only [Expr.nodes, Node.visit_everywhere, Node.allDiscreet_cons,
      Node.allDiscreet_append] at h
    exact (overlooks_expr w A object h.2.1).bind fun w₁ _ _ _ =>
      (overlooks_expr w₁ A value h.2.2).bind fun _ _ _ _ =>
        (overlooks_setAttribute ..).bind fun _ _ _ _ => overlooks_record ..
  | .lambda ⟨id, keyword, name, params, body⟩, h => by
    simp only [Expr.nodes, Lambda.nodes, Node.visit_everywhere, Node.allDiscreet_cons,
      Node.allDiscreet_append] at h
    refine (overlooks_paramTypes w A params (fun p hp => h.1.types p hp) h.2.1).bind
      fun _ types _ _ => ?_
    refine (overlooks_newSignature _).bind fun _ f _ hf => .getBind fun {s s'} hs hw => ?_
    rw [hs.childContext]
    refine (overlooks_functionBody id params (hf.mono hw) (own_childContext hs.upholds)
      (overlooks_stmts s body h.2.2)).bind fun _ _ _ _ => overlooks_record ..

/-- Neither do expressions in a row. -/
theorem overlooks_exprs (w : Checker) (A : Prop) : ∀ es : List Expr,
    Node.AllDiscreet kept hidden (Expr.nodesOf everywhere es) →
    Overlooks kept hidden A w Any (exprs es) (exprs es)
  | [], _ => .done []
  | e :: rest, h => by
    simp only [Expr.nodesOf, Node.allDiscreet_append] at h
    exact (overlooks_expr w A e h.1).bind fun w₁ _ _ _ =>
      (overlooks_exprs w₁ A rest h.2).bind fun _ _ _ _ => .done _

/-- Neither do named arguments. -/
theorem overlooks_namedArgs (w : Checker) (A : Prop) : ∀ args : List NamedArg,
    Node.AllDiscreet kept hidden (NamedArg.nodesOf everywhere args) →
    Overlooks kept hidden A w Any (namedArgs args) (namedArgs args)
  | [], _ => .done []
  | ⟨_, value⟩ :: rest, h => by
    simp only [NamedArg.nodesOf, Node.allDiscreet_append] at h
    exact (overlooks_expr w A value h.1).bind fun w₁ _ _ _ =>
      (overlooks_namedArgs w₁ A rest h.2).bind fun _ _ _ _ => .done _

/-- Neither do the types and defaults of parameters. -/
theorem overlooks_paramTypes (w : Checker) (A : Prop) : ∀ params : List Param,
    (∀ p ∈ params, p.type.lexeme ∉ hidden) →
    Node.AllDiscreet kept hidden (Param.nodesOf everywhere params) →
    Overlooks kept hidden A w Any (paramTypes params) (paramTypes params)
  | [], _, _ => .done []
  | ⟨type, _, none, _⟩ :: rest, htypes, h => by
    obtain ⟨htype, htypes⟩ := List.forall_mem_cons.1 htypes
    exact (overlooks_declaredType htype).bind fun w₁ _ _ _ =>
      (overlooks_paramTypes w₁ A rest htypes h).bind fun _ _ _ _ => .done _
  | ⟨type, name, some value, _⟩ :: rest, htypes, h => by
    obtain ⟨htype, htypes⟩ := List.forall_mem_cons.1 htypes
    simp only [Param.nodesOf, Node.allDiscreet_append] at h
    refine (overlooks_declaredType htype).bind fun w₁ t _ _ => ?_
    refine (overlooks_expr w₁ A value h.1).bind fun _ d _ _ => ?_
    -- The other parameters are checked whether or not the default fits.
    have hrest (w₂ : Checker) : Overlooks kept hidden A w₂ Any
        (do return t :: (← paramTypes rest)) (do return t :: (← paramTypes rest)) :=
      (overlooks_paramTypes w₂ A rest htypes h.2).bind fun _ _ _ _ => .done _
    refine (overlooks_assignable ..).bind fun w₂ fits _ _ => .ite (hrest w₂) ?_
    exact (overlooks_text t).bind fun _ _ _ _ => (overlooks_text d).bind fun _ _ _ _ =>
      (overlooks_reject (Q := Any) ..).bind fun w₃ _ _ _ => hrest w₃

/-- Neither do the signatures of methods. -/
theorem overlooks_declareMethods (w : Checker) (A : Prop) (c : ClassType) :
    ∀ methods : List Lambda, Node.AllDiscreet kept hidden (Lambda.nodesOf everywhere methods) →
    Overlooks kept hidden A w Any (declareMethods c methods) (declareMethods c methods)
  | [], _ => .done _
  | ⟨id, keyword, name, params, body⟩ :: rest, h => by
    simp only [Lambda.nodesOf, Lambda.nodes, Node.visit_everywhere, Node.allDiscreet_cons,
      Node.allDiscreet_append] at h
    refine (overlooks_paramTypes w A params (fun p hp => h.1.1.types p hp) h.1.2.1).bind
      fun _ types _ _ => ?_
    refine (overlooks_newSignature _).bind fun _ f _ hf => ?_
    refine (overlooks_putMember c _ hf).bind fun _ _ _ _ => ?_
    refine (overlooks_record id (.function f)).bind fun w₁ _ _ _ => ?_
    exact overlooks_declareMethods w₁ A c rest h.2

/-- Neither does the body of a method. -/
theorem overlooks_methodBody (w : Checker) (A : Prop) (c : ClassType) : ∀ fn : Lambda,
    Node.AllDiscreet kept hidden (fn.nodes everywhere) →
    Overlooks kept hidden A w Any (methodBody c fn) (methodBody c fn)
  | ⟨id, keyword, name, params, body⟩, h => by
    simp only [Lambda.nodes, Node.visit_everywhere, Node.allDiscreet_cons,
      Node.allDiscreet_append] at h
    refine .getBind fun {s s'} hs _ => ?_
    rw [hs.body]
    cases hf : (s.body c).members[(name.map Token.lexeme).getD "lambda"]? with
    | none => exact .throw _
    | some f =>
      have hown := hs.upholds.own_member hf
      refine overlooks_functionBody id params hown ?_ (overlooks_stmts s body h.2.2)
      rintro _ ⟨⟩
      exact hown

/-- Neither do the bodies of the initializers. -/
theorem overlooks_initializerBodies (w : Checker) (A : Prop) (c : ClassType) :
    ∀ methods : List Lambda, Node.AllDiscreet kept hidden (Lambda.nodesOf everywhere methods) →
    Overlooks kept hidden A w Any (initializerBodies c methods) (initializerBodies c methods)
  | [], _ => .done _
  | fn :: rest, h => by
    simp only [Lambda.nodesOf, Node.allDiscreet_append] at h
    exact (overlooks_initializerBodies w A c rest h.2).bind fun w₁ _ _ _ =>
      .ite (overlooks_methodBody w₁ A c fn h.1) (.done _)

/-- Neither do the bodies of the other methods. -/
theorem overlooks_otherBodies (w : Checker) (A : Prop) (c : ClassType) :
    ∀ methods : List Lambda, Node.AllDiscreet kept hidden (Lambda.nodesOf everywhere methods) →
    Overlooks kept hidden A w Any (otherBodies c methods) (otherBodies c methods)
  | [], _ => .done _
  | fn :: rest, h => by
    simp only [Lambda.nodesOf, Node.allDiscreet_append] at h
    exact .guard (overlooks_methodBody w A c fn h.1) fun w₁ _ _ =>
      overlooks_otherBodies w₁ A c rest h.2

/-- Neither does a block. -/
theorem overlooks_block (w : Checker) (A : Prop) : ∀ b : Block,
    Node.AllDiscreet kept hidden (b.nodes everywhere) →
    Overlooks kept hidden A w Any (block b) (block b)
  | ⟨id, _, body⟩, h => by
    simp only [Block.nodes, Node.visit_everywhere, Node.allDiscreet_cons] at h
    exact (overlooks_record ..).bind fun w₁ _ _ _ =>
      overlooks_inScope _ (overlooks_stmts w₁ body h.2)

/-- Neither do statements, as long as they declare no kept name. -/
theorem overlooks_stmt (w : Checker) : ∀ s : Stmt,
    Node.AllDiscreet kept hidden (s.nodes everywhere) →
    Overlooks kept hidden (∀ name ∈ s.declared, name ∉ kept) w Any (stmt s) (stmt s)
  | .expr id value, h => by
    simp only [Stmt.nodes, Node.visit_everywhere, Node.allDiscreet_cons] at h
    exact (overlooks_expr w _ value h.2).bind fun _ _ _ _ =>
      (overlooks_record ..).bind fun _ _ _ _ => .done _
  | .varDecl id name none, _ =>
    (overlooks_define none fun hA => hA _ (.head _)).bind fun _ _ _ _ =>
      (overlooks_record ..).bind fun _ _ _ _ => .done _
  | .varDecl id name (some value), h => by
    simp only [Stmt.nodes, Node.visit_everywhere, Node.allDiscreet_cons] at h
    exact (overlooks_expr w _ value h.2).bind fun _ t _ _ =>
      (overlooks_define (some t) fun hA => hA _ (.head _)).bind fun _ _ _ _ =>
        (overlooks_record ..).bind fun _ _ _ _ => .done _
  | .function id ⟨fid, keyword, name, params, body⟩, h => by
    simp only [Stmt.nodes, Lambda.nodes, Node.visit_everywhere, Node.allDiscreet_cons,
      Node.allDiscreet_append] at h
    refine (overlooks_paramTypes w _ params (fun p hp => h.2.1.types p hp) h.2.2.1).bind
      fun _ types _ _ => ?_
    refine (overlooks_newSignature _).bind fun w₁ f _ hf => ?_
    refine (overlooks_define (some (.function f)) fun hA => hA _ (.head _)).bind
      fun w₂ _ hw₂ _ => ?_
    refine (overlooks_record id (.function f)).bind fun w₃ _ hw₃ _ => ?_
    refine .getBind fun {s s'} hs hw => ?_
    rw [hs.childContext]
    exact overlooks_functionBody fid params (hf.mono (hw₂.trans (hw₃.trans hw)))
      (own_childContext hs.upholds) (overlooks_stmts s body h.2.2.2)
  | .classDecl id name supers methods, h => by
    simp only [Stmt.nodes, Node.visit_everywhere, Node.allDiscreet_cons,
      Node.allDiscreet_append] at h
    have hsupers : ∀ use ∈ supers, use.name.lexeme ∉ hidden := fun use huse =>
      (h.2.1 (.expr (.var use)) (List.mem_flatMap.2 ⟨use, huse, .head _⟩)).mentions _ (.head _)
    refine (overlooks_superclasses hsupers).bind fun _ cs _ _ => ?_
    refine (overlooks_newClass ..).bind fun _ c _ _ => ?_
    refine (overlooks_define (some (.class c)) fun hA => hA _ (.head _)).bind fun _ _ _ _ => ?_
    refine (overlooks_record ..).bind fun w₁ _ _ _ => ?_
    -- The methods are not declared in the scope around the class.
    refine overlooks_inScope (B := True) _ ?_
    exact (overlooks_declareMethods w₁ _ c methods h.2.2).bind fun w₂ _ _ _ =>
      (overlooks_initializerBodies w₂ _ c methods h.2.2).bind fun w₃ _ _ _ =>
        overlooks_otherBodies w₃ _ c methods h.2.2
  | .block b, h => overlooks_block w _ b h
  | .ifElse id keyword condition body none, h => by
    simp only [Stmt.nodes, Node.visit_everywhere, Node.allDiscreet_cons,
      Node.allDiscreet_append] at h
    exact (overlooks_record ..).bind fun w₁ _ _ _ =>
      (overlooks_expr w₁ _ condition h.2.1).bind fun w₂ _ _ _ => overlooks_block w₂ _ body h.2.2
  | .ifElse id keyword condition body (some otherwise), h => by
    simp only [Stmt.nodes, Node.visit_everywhere, Node.allDiscreet_cons,
      Node.allDiscreet_append] at h
    exact (overlooks_record ..).bind fun w₁ _ _ _ =>
      (overlooks_expr w₁ _ condition h.2.1.1).bind fun w₂ _ _ _ =>
        (overlooks_block w₂ _ body h.2.1.2).bind fun w₃ _ _ _ => overlooks_stmt w₃ otherwise h.2.2
  | .whileLoop id keyword condition body, h => by
    simp only [Stmt.nodes, Node.visit_everywhere, Node.allDiscreet_cons,
      Node.allDiscreet_append] at h
    exact (overlooks_record ..).bind fun w₁ _ _ _ =>
      (overlooks_expr w₁ _ condition h.2.1).bind fun w₂ _ _ _ => overlooks_block w₂ _ body h.2.2
  | .forIn id keyword name iterable body, h => by
    simp only [Stmt.nodes, Node.visit_everywhere, Node.allDiscreet_cons,
      Node.allDiscreet_append] at h
    refine (overlooks_record ..).bind fun w₁ _ _ _ => ?_
    refine (overlooks_expr w₁ _ iterable h.2.1).bind fun _ t _ _ => ?_
    refine (overlooks_elementType keyword t).bind fun w₂ e _ _ => ?_
    exact overlooks_inScope (B := True) _ (overlooks_block w₂ _ body h.2.2)
  | .ret id keyword none, _ =>
    (overlooks_record ..).bind fun _ _ _ _ => overlooks_noteReturn ..
  | .ret id keyword (some value), h => by
    simp only [Stmt.nodes, Node.visit_everywhere, Node.allDiscreet_cons] at h
    exact (overlooks_expr w _ value h.2).bind fun _ _ _ _ =>
      (overlooks_record ..).bind fun _ _ _ _ => overlooks_noteReturn ..

/-- Neither do statements in a row. -/
theorem overlooks_stmts (w : Checker) : ∀ body : List Stmt,
    Node.AllDiscreet kept hidden (Stmt.nodesOf everywhere body) →
    Overlooks kept hidden (∀ s ∈ body, ∀ name ∈ s.declared, name ∉ kept) w Any (stmts body)
      (stmts body)
  | [], _ => .done _
  | s :: rest, h => by
    simp only [Stmt.nodesOf, Node.allDiscreet_append] at h
    exact ((overlooks_stmt w s h.1).weaken fun hA => hA s (.head _)).bind fun w₁ _ _ _ =>
      (overlooks_stmts w₁ rest h.2).weaken fun hA s hs => hA s (.tail _ hs)

end

end Members

end Check

end ClassScript.Typing
