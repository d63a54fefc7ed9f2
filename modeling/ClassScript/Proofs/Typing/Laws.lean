import ClassScript.Proofs.Typing.Closes

/-!
# Laws about the classes and functions of a check

A `Law` is a property of class types together with a property of the tables of functions and
classes. It holds of the native classes and of every class that the checker makes, and the changes
that a check makes to the tables keep it. A law holds of a state if all class types in the state
have the property, and so have the tables. Here is what is found in such a state, and what may be
added to it. `Laws` come in stages, as classes are made.
-/

namespace ClassScript.Typing

/-! ### States whose class types have a property -/

section Only

variable (P : ClassType → Prop)

/-- The type is of a function, or the class that it is about has a property. -/
def Ty.Only : Ty → Prop
  | .instance c => P c
  | .class c => P c
  | .function _ => True

/-- The classes in a signature have a property. -/
structure Signature.Only (sig : Signature) : Prop where
  /-- The types of the parameters. -/
  paramTypes : ∀ t ∈ sig.paramTypes, t.Only P
  /-- The type of the result. -/
  returns : ∀ t, sig.returns = some t → t.Only P
  /-- The types of the result by argument. -/
  returnsByArg : ∀ p ∈ sig.returnsByArg, p.2.Only P

/-- The classes in a context have a property. -/
structure Context.Only (c : Context) : Prop where
  /-- The types of the results. -/
  returns : ∀ p ∈ c.returns, p.1.Only P
  /-- The enclosing class. -/
  class? : ∀ cls, c.class? = some cls → P cls

/-- The classes in the types of names have a property. -/
def VarsOnly (vars : List (String × Option Ty)) : Prop := ∀ p ∈ vars, ∀ t, p.2 = some t → t.Only P

/-- All class types in a state have a property. -/
structure Checker.Only (s : Checker) : Prop where
  /-- The types of functions. -/
  signatures : ∀ (f : SignatureId) sig, s.signatures[f]? = some sig → sig.Only P
  /-- The types of fields. -/
  attributes : ∀ (i : Nat) b, s.bodies[i]? = some b →
    ∀ (name : String) t, b.attributes[name]? = some t → t.Only P
  /-- The types of nodes. -/
  types : ∀ (id : NodeId) t, s.types[id]? = some t → t.Only P
  /-- The types of global names. -/
  globals : ∀ (name : String) t, s.globals[name]? = some (some t) → t.Only P
  /-- The types of local names. -/
  locals : ∀ sc ∈ s.locals, VarsOnly P sc.vars
  /-- The function that is being checked. -/
  context : ∀ c, s.context = some c → c.Only P

variable {P}

/-- A type that is known is a type that there is. -/
theorem only_some {t : Ty} (h : t.Only P) : ∀ u, some t = some u → u.Only P := by
  rintro _ ⟨⟩
  exact h

/-- No names have types of any classes. -/
theorem VarsOnly.nil (P : ClassType → Prop) : VarsOnly P [] := List.forall_mem_nil _

/-- A single name may have a type whose class has the property. -/
theorem VarsOnly.single (name : String) {t : Ty} (h : t.Only P) :
    VarsOnly P [(name, some t)] :=
  List.forall_mem_singleton.2 (only_some h)

/-! ### A weaker property -/

section Mono

variable {Q : ClassType → Prop} (hPQ : ∀ c, P c → Q c)
include hPQ

/-- A type keeps to a weaker property. -/
theorem Ty.Only.mono {t : Ty} (h : t.Only P) : t.Only Q := by
  cases t with
  | «instance» c => exact hPQ c h
  | «class» c => exact hPQ c h
  | function f => trivial

/-- So does a signature. -/
theorem Signature.Only.mono {sig : Signature} (h : sig.Only P) : sig.Only Q where
  paramTypes t ht := (h.paramTypes t ht).mono hPQ
  returns t ht := (h.returns t ht).mono hPQ
  returnsByArg p hp := (h.returnsByArg p hp).mono hPQ

/-- So does a context. -/
theorem Context.Only.mono {c : Context} (h : c.Only P) : c.Only Q where
  returns p hp := (h.returns p hp).mono hPQ
  class? cls hc := hPQ cls (h.class? cls hc)

/-- So do the types of names. -/
theorem VarsOnly.mono {vars : List (String × Option Ty)} (h : VarsOnly P vars) :
    VarsOnly Q vars := fun p hp t ht => (h p hp t ht).mono hPQ

/-- So does a whole state. -/
theorem Checker.Only.mono {s : Checker} (h : s.Only P) : s.Only Q where
  signatures f sig hf := (h.signatures f sig hf).mono hPQ
  attributes i b hb name t ht := (h.attributes i b hb name t ht).mono hPQ
  types id t ht := (h.types id t ht).mono hPQ
  globals name t ht := (h.globals name t ht).mono hPQ
  locals sc hsc := (h.locals sc hsc).mono hPQ
  context c hc := (h.context c hc).mono hPQ

end Mono

end Only

/-- A property of classes, and of the tables of functions and classes, that a check keeps. -/
structure Law where
  /-- The property of all classes. -/
  classes : ClassType → Prop
  /-- The property of the classes that may get methods. -/
  fresh : ClassType → Prop
  /-- The property of the functions and of the members of classes. -/
  tables : Array Signature → Array ClassBody → Prop
  /-- Native classes have the property. -/
  native (c : NativeClass) : classes (nativeType c)
  /-- A function is added, with a type for each parameter. -/
  sign {sigs : Array Signature} {bodies : Array ClassBody} (h : tables sigs bodies)
    {sig : Signature} (hsig : sig.paramTypes.length = sig.params.length) :
    tables (sigs.push sig) bodies
  /-- A function is marked as using the superclasses. -/
  mark {sigs : Array Signature} {bodies : Array ClassBody} (h : tables sigs bodies)
    (f : SignatureId) : tables (sigs.modify f ({ · with callsSuper := true })) bodies
  /-- The result of a function becomes known. -/
  settle {sigs : Array Signature} {bodies : Array ClassBody} (h : tables sigs bodies)
    (f : SignatureId) (t : Ty) : tables (sigs.modify f ({ · with returns := some t })) bodies
  /-- A class gets a method. -/
  member {sigs : Array Signature} {bodies : Array ClassBody} (h : tables sigs bodies)
    {c : ClassType} (hc : fresh c) (name : String) (f : SignatureId) :
    tables sigs (bodies.modify c.id fun b => { b with members := b.members.insert name f })
  /-- A class of a program gets a field. -/
  field {sigs : Array Signature} {bodies : Array ClassBody} (h : tables sigs bodies)
    {c : ClassType} (hc : classes c) (hn : c.native? = none) (name : String) (t : Ty) :
    tables sigs (bodies.modify c.id fun b => { b with attributes := b.attributes.insert name t })

/-- A law holds of a state. -/
structure Law.Holds (L : Law) (s : Checker) : Prop where
  /-- All class types have the property. -/
  only : s.Only L.classes
  /-- So have the tables. -/
  tables : L.tables s.signatures s.bodies

namespace Checker.Only

variable {P : ClassType → Prop} {s : Checker}

/-! ### What is found in such a state -/

/-- The class of all objects has the property if native classes have it. -/
theorem objectType (hP : ∀ c, P (nativeType c)) : Typing.objectType.Only P := hP .object

/-- The classes in the signature of a function have the property. -/
theorem signature (h : s.Only P) (f : SignatureId) : (s.signature f).Only P := by
  unfold Checker.signature
  cases hf : s.signatures[f]? with
  | none => exact ⟨List.forall_mem_nil _, nofun, List.forall_mem_nil _⟩
  | some sig => exact h.signatures f sig hf

/-- The class of a field has the property. -/
theorem ownAttribute (h : s.Only P) {c : ClassType} {name : String} {t : Ty}
    (ht : (s.body c).attributes[name]? = some t) : t.Only P := by
  unfold Checker.body at ht
  cases hb : s.bodies[c.id]? with
  | some b =>
    rw [hb] at ht
    exact h.attributes _ b hb name t ht
  | none =>
    rw [hb] at ht
    change (∅ : Std.TreeMap String Ty)[name]? = some t at ht
    simp at ht

/-- So has that of a field that is found in a class or above. -/
theorem lookup_attribute (h : s.Only P) {name : String} {c : ClassType} {t : Ty} {depth : Nat}
    (ht : s.attributes.lookup name c = .found t depth) : t.Only P := by
  obtain ⟨c', hc⟩ := Hierarchy.own_of_lookup ht
  exact h.ownAttribute hc

/-- The class in the type of a name has the property. -/
theorem lookup? (h : s.Only P) {name : String} {place : Check.Place} {t : Ty}
    (ht : Check.lookup? s name = some (place, some t)) : t.Only P := by
  unfold Check.lookup? at ht
  split at ht
  · -- A local name is in the innermost scope that has it; else it is a global one.
    next i hi =>
    obtain ⟨-, hjoin⟩ := Prod.mk.inj (Option.some.inj ht)
    cases hsc : s.locals[i]? with
    | none =>
      rw [hsc] at hjoin
      cases hjoin
    | some sc =>
      rw [hsc] at hjoin
      have hvar : sc.vars.lookup name = some (some t) := Option.join_eq_some_iff.1 hjoin
      obtain ⟨l₁, l₂, hvars, -⟩ := List.lookup_eq_some_iff.1 hvar
      refine h.locals sc (List.mem_of_getElem? hsc) (name, some t) ?_ t rfl
      rw [hvars]
      exact List.mem_append_right _ List.mem_cons_self
  · obtain ⟨u, hu, hpair⟩ := Option.map_eq_some_iff.1 ht
    cases hpair
    exact h.globals name t hu

/-- The class that a name declares has the property if native classes have it. -/
theorem named? (hP : ∀ c, P (nativeType c)) {found : Option (Option Ty)} {name : String} {t : Ty}
    (hfound : ∀ u, found = some (some u) → u.Only P) (ht : Check.named? found name = some t) :
    t.Only P := by
  unfold Check.named? at ht
  split at ht
  · cases ht
    exact objectType hP
  · split at ht
    · next c =>
      cases ht
      exact hfound (.class c) rfl
    · cases ht

/-- So has the class that a global name declares. -/
theorem globalType (h : s.Only P) (hP : ∀ c, P (nativeType c)) (name : String) :
    (Check.globalType s name).Only P := by
  unfold Check.globalType
  cases ht : Check.named? s.globals[name]? name with
  | none => exact objectType hP
  | some t => exact named? hP (h.globals name) ht

/-- So have the classes in the signature of native code. -/
theorem nativeSignature (h : s.Only P) (hP : ∀ c, P (nativeType c)) (name : String)
    (params : List Param) (returns : String) :
    (Check.nativeSignature s name params returns).Only P where
  paramTypes t ht := by
    obtain ⟨p, -, rfl⟩ := List.mem_map.1 ht
    exact h.globalType hP p.type.lexeme
  returns t ht := by
    cases ht
    exact h.globalType hP returns
  returnsByArg := List.forall_mem_nil _

/-- So have those in the signature of a native method. -/
theorem nativeMethodSignature (h : s.Only P) (hP : ∀ c, P (nativeType c)) (m : NativeMethod) :
    (Check.nativeMethodSignature s m).Only P := by
  have hnative := h.nativeSignature hP m.name m.params m.returns
  refine ⟨hnative.paramTypes, hnative.returns, fun p hp => ?_⟩
  obtain ⟨⟨arg, ret⟩, -, rfl⟩ := List.mem_map.1 hp
  exact h.globalType hP ret

/-- So has the class in the type of a name in use. -/
theorem variableType (h : s.Only P) (hP : ∀ c, P (nativeType c)) (name : String) :
    (Check.variableType s name).Only P := by
  unfold Check.variableType
  rcases hl : Check.lookup? s name with _ | ⟨place, _ | t⟩
  · exact objectType hP
  · exact hP .nil
  · exact h.lookup? hl

/-- So has the class of `self`. -/
theorem selfType (h : s.Only P) (hP : ∀ c, P (nativeType c)) : (Check.selfType s).Only P := by
  unfold Check.selfType
  rcases hl : Check.lookup? s "self" with _ | ⟨place, _ | t⟩
  · exact objectType hP
  · exact objectType hP
  · exact h.lookup? hl

/-- So have those in the context of a function inside. -/
theorem childContext (h : s.Only P) : (Check.childContext s).Only P := by
  unfold Check.childContext
  cases hc : s.context with
  | none => exact ⟨List.forall_mem_nil _, nofun⟩
  | some c => exact ⟨List.forall_mem_nil _, (h.context c hc).class?⟩

/-! ### What such a state becomes -/

/-- A node may get a type whose class has the property. -/
theorem insertType (h : s.Only P) (id : NodeId) {t : Ty} (ht : t.Only P) :
    ({ s with types := s.types.insert id t } : Checker).Only P where
  signatures := h.signatures
  attributes := h.attributes
  types i u hu := by
    dsimp only at hu
    rw [Std.TreeMap.getElem?_insert] at hu
    split at hu
    · cases hu
      exact ht
    · exact h.types i u hu
  globals := h.globals
  locals := h.locals
  context := h.context

/-- So may a global name. -/
theorem insertGlobal (h : s.Only P) (name : String) {t : Option Ty}
    (ht : ∀ u, t = some u → u.Only P) :
    ({ s with globals := s.globals.insert name t } : Checker).Only P where
  signatures := h.signatures
  attributes := h.attributes
  types := h.types
  globals x u hu := by
    dsimp only at hu
    rw [Std.TreeMap.getElem?_insert] at hu
    split at hu
    · cases hu
      exact ht u rfl
    · exact h.globals x u hu
  locals := h.locals
  context := h.context

/-- So may the names of local scopes. -/
theorem withLocals (h : s.Only P) {locals : List StaticScope}
    (hl : ∀ sc ∈ locals, VarsOnly P sc.vars) : ({ s with locals } : Checker).Only P :=
  ⟨h.signatures, h.attributes, h.types, h.globals, hl, h.context⟩

/-- The context may be any whose classes have the property. -/
theorem withContext (h : s.Only P) {context : Option Context}
    (hc : ∀ c, context = some c → c.Only P) : ({ s with context } : Checker).Only P :=
  ⟨h.signatures, h.attributes, h.types, h.globals, h.locals, hc⟩

/-- Between programs there is nothing that would not have it. -/
theorem idle (h : s.Only P) : s.idle.Only P :=
  ⟨h.signatures, h.attributes, h.types, h.globals, List.forall_mem_nil _, nofun⟩

/-- A function whose classes have the property may be made. -/
theorem pushSignature (h : s.Only P) {sig : Signature} (hsig : sig.Only P) :
    ({ s with signatures := s.signatures.push sig } : Checker).Only P where
  signatures f sig' hf := by
    dsimp only at hf
    rw [Array.getElem?_push] at hf
    split at hf
    · cases hf
      exact hsig
    · exact h.signatures f sig' hf
  attributes := h.attributes
  types := h.types
  globals := h.globals
  locals := h.locals
  context := h.context

/-- A function may be changed as long as its classes have the property. -/
theorem modifySignature (h : s.Only P) (f : SignatureId) {u : Signature → Signature}
    (hu : ∀ sig, sig.Only P → (u sig).Only P) :
    ({ s with signatures := s.signatures.modify f u } : Checker).Only P where
  signatures g sig hg := by
    dsimp only at hg
    rw [Array.getElem?_modify] at hg
    split at hg
    · obtain ⟨old, hold, rfl⟩ := Option.map_eq_some_iff.1 hg
      exact hu old (h.signatures g old hold)
    · exact h.signatures g sig hg
  attributes := h.attributes
  types := h.types
  globals := h.globals
  locals := h.locals
  context := h.context

/-- A class may be changed as long as the classes of its fields have it. -/
theorem modifyBody (h : s.Only P) (i : Nat) {u : ClassBody → ClassBody}
    (hu : ∀ b, (∀ (name : String) t, b.attributes[name]? = some t → t.Only P) →
      ∀ (name : String) t, (u b).attributes[name]? = some t → t.Only P) :
    ({ s with bodies := s.bodies.modify i u } : Checker).Only P where
  signatures := h.signatures
  attributes j b hb := by
    dsimp only at hb
    rw [Array.getElem?_modify] at hb
    split at hb
    · obtain ⟨old, hold, rfl⟩ := Option.map_eq_some_iff.1 hb
      exact hu old (h.attributes j old hold)
    · exact h.attributes j b hb
  types := h.types
  globals := h.globals
  locals := h.locals
  context := h.context

/-- A class without fields may be made. -/
theorem pushBody (h : s.Only P) : ({ s with bodies := s.bodies.push {} } : Checker).Only P where
  signatures := h.signatures
  attributes i b hb := by
    dsimp only at hb
    rw [Array.getElem?_push] at hb
    split at hb
    · cases hb
      exact fun name t ht => by simp at ht
    · exact h.attributes i b hb
  types := h.types
  globals := h.globals
  locals := h.locals
  context := h.context

end Checker.Only

/-- The native classes are under every law. -/
theorem Law.only_builtin (L : Law) (c : NativeClass) : (builtin c).Only L.classes := L.native c

/-- A law holds of another state with the same tables. -/
theorem Law.Holds.of_eq {L : Law} {s s' : Checker} (h : L.Holds s) (ho : s'.Only L.classes)
    (hsigs : s'.signatures = s.signatures) (hbodies : s'.bodies = s.bodies) : L.Holds s' :=
  ⟨ho, by rw [hsigs, hbodies]; exact h.tables⟩

/-! ### Laws that change when a class is made -/

/-- The property of a class that a check makes. -/
def Law.Makes (L : Law) (c : ClassType) : Prop := L.classes c ∧ L.fresh c

/-- Laws in stages. Where a class is made, a later stage begins whose law knows the class. -/
structure Laws where
  /-- The stages. -/
  Stage : Type
  /-- Which stages come later. -/
  [order : Preorder Stage]
  /-- The law of a stage. -/
  law : Stage → Law
  /-- The classes of one stage are classes of the later ones. -/
  classes_mono {i j : Stage} (hij : i ≤ j) {c : ClassType} (hc : (law i).classes c) :
    (law j).classes c
  /-- A class that may get methods may get them later. -/
  fresh_mono {i j : Stage} (hij : i ≤ j) {c : ClassType} (hc : (law i).fresh c) : (law j).fresh c
  /-- A class is made of classes of programs, and its place is added to the table. -/
  make {i : Stage} {sigs : Array Signature} {bodies : Array ClassBody}
    (h : (law i).tables sigs bodies) (name : String) {supers : List ClassType}
    (hs : ∀ c ∈ supers, (law i).classes c ∧ c.native? = none) :
    ∃ j, i ≤ j ∧ (law j).Makes ⟨bodies.size, name, supers, none⟩ ∧
      (law j).tables sigs (bodies.push {})

attribute [instance] Laws.order

namespace Laws

variable {R : Laws} {i j : R.Stage}

/-- What is under the law of a stage is under those of later stages. -/
theorem only_mono (hij : i ≤ j) {t : Ty} (h : t.Only (R.law i).classes) :
    t.Only (R.law j).classes :=
  h.mono fun _ => R.classes_mono hij

/-- So is a class that a check makes. -/
theorem makes_mono (hij : i ≤ j) {c : ClassType} (h : (R.law i).Makes c) : (R.law j).Makes c :=
  ⟨R.classes_mono hij h.1, R.fresh_mono hij h.2⟩

end Laws

end ClassScript.Typing
