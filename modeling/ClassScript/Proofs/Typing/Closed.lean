import Mathlib.Order.Basic
import ClassScript.Typing.Check
import ClassScript.Proofs.Hierarchy

/-!
# What the checker's state refers to exists

Types refer to functions and classes by their numbers. `Closed base e s` says that every number in
the state `s` is below the `Extent` `e`: nothing refers to a function or class that was not made
yet. `base` is the extent at some earlier moment. The method around the place that is being checked,
and the methods of classes made since, are themselves made since that moment, so that a check never
changes an older function. `Keeps base s s'` says what follows: the older functions are the same in
`s'`, and the older classes have the same methods.
-/

namespace ClassScript.Typing

/-- How many functions and classes there are. -/
structure Extent where
  /-- The number of functions. -/
  sigs : Nat
  /-- The number of classes. -/
  classes : Nat

instance : Preorder Extent where
  le e e' := e.sigs ≤ e'.sigs ∧ e.classes ≤ e'.classes
  le_refl e := ⟨Nat.le_refl _, Nat.le_refl _⟩
  le_trans _ _ _ h h' := ⟨Nat.le_trans h.1 h'.1, Nat.le_trans h.2 h'.2⟩

/-- How many functions and classes a state has. -/
def Checker.extent (s : Checker) : Extent := ⟨s.signatures.size, s.bodies.size⟩

variable {base e e' : Extent}

/-! ### Types below an extent -/

/-- A class and its superclasses exist, and the superclasses are older. Native classes always
exist. -/
inductive ClassType.Within (n : Nat) : ClassType → Prop where
  /-- A native class. -/
  | native (c : NativeClass) : Within n (nativeType c)
  /-- A class of the program. -/
  | mk {id : Nat} {name : String} {supers : List ClassType} {native? : Option NativeClass}
    (hid : id < n) (older : ∀ c ∈ supers, c.id < id) (hs : ∀ c ∈ supers, Within n c) :
    Within n ⟨id, name, supers, native?⟩

/-- A class that exists goes on existing. -/
theorem ClassType.Within.mono {n n' : Nat} {c : ClassType} (h : c.Within n) (hn : n ≤ n') :
    c.Within n' := by
  induction h with
  | native c => exact .native c
  | mk hid older _ ih => exact .mk (Nat.lt_of_lt_of_le hid hn) older ih

/-- A class of the program is one of those that exist. -/
theorem ClassType.Within.id_lt {n : Nat} {c : ClassType} (h : c.Within n)
    (hc : c.native? = none) : c.id < n := by
  cases h with
  | native c => cases hc
  | mk hid _ _ => exact hid

/-- The function or class that a type refers to exists. -/
def Ty.Within (e : Extent) : Ty → Prop
  | .instance c => c.Within e.classes
  | .class c => c.Within e.classes
  | .function f => f < e.sigs

/-- A type that exists goes on existing. -/
theorem Ty.Within.mono {t : Ty} (h : t.Within e) (he : e ≤ e') : t.Within e' := by
  cases t with
  | «instance» c => exact ClassType.Within.mono h he.2
  | «class» c => exact ClassType.Within.mono h he.2
  | function f => exact Nat.lt_of_lt_of_le h he.1

/-- The objects of native classes always exist. -/
theorem within_builtin (e : Extent) (c : NativeClass) : (builtin c).Within e := .native c

/-- So do the objects of the root class. -/
theorem within_objectType (e : Extent) : objectType.Within e := within_builtin e .object

/-- A type that a parameter can declare, that of the objects of a class. -/
def Ty.IsInstance (t : Ty) : Prop := ∃ c, t = .instance c

/-- The types of a signature exist, and those of the parameters are types that can be declared. -/
structure Signature.Within (e : Extent) (sig : Signature) : Prop where
  /-- The types of the parameters exist. -/
  paramTypes : ∀ t ∈ sig.paramTypes, t.Within e
  /-- The types of the parameters can be declared. -/
  declared : ∀ t ∈ sig.paramTypes, t.IsInstance
  /-- The type of the result exists. -/
  returns : ∀ t, sig.returns = some t → t.Within e
  /-- The types of the result by argument exist. -/
  returnsByArg : ∀ p ∈ sig.returnsByArg, p.2.Within e

/-- The types of a signature go on existing. -/
theorem Signature.Within.mono {sig : Signature} (h : sig.Within e) (he : e ≤ e') :
    sig.Within e' where
  paramTypes t ht := (h.paramTypes t ht).mono he
  declared := h.declared
  returns t ht := (h.returns t ht).mono he
  returnsByArg p hp := (h.returnsByArg p hp).mono he

/-- The members of the class at a place exist, and those of a class that is not older than `base`
are not either. -/
structure ClassBody.Within (base e : Extent) (i : Nat) (b : ClassBody) : Prop where
  /-- The methods exist. -/
  members : ∀ (name : String) f, b.members[name]? = some f →
    f < e.sigs ∧ (base.classes ≤ i → base.sigs ≤ f)
  /-- The types of the fields exist. -/
  attributes : ∀ (name : String) t, b.attributes[name]? = some t → t.Within e

/-- The members of a class go on existing. -/
theorem ClassBody.Within.mono {i : Nat} {b : ClassBody} (h : b.Within base e i) (he : e ≤ e') :
    b.Within base e' i where
  members name f hf := ⟨Nat.lt_of_lt_of_le (h.members name f hf).1 he.1, (h.members name f hf).2⟩
  attributes name t ht := (h.attributes name t ht).mono he

/-- A class may get a method that exists and is new enough. -/
theorem ClassBody.Within.insertMember {i : Nat} {b : ClassBody} (h : b.Within base e i)
    (name : String) {f : SignatureId} (hf : f < e.sigs ∧ base.sigs ≤ f) :
    ClassBody.Within base e i { b with members := b.members.insert name f } where
  members x g hg := by
    dsimp only at hg
    rw [Std.TreeMap.getElem?_insert] at hg
    split at hg
    · cases hg
      exact ⟨hf.1, fun _ => hf.2⟩
    · exact h.members x g hg
  attributes := h.attributes

/-- A class may get an attribute of a type that exists. -/
theorem ClassBody.Within.insertAttribute {i : Nat} {b : ClassBody} (h : b.Within base e i)
    (name : String) {t : Ty} (ht : t.Within e) :
    ClassBody.Within base e i { b with attributes := b.attributes.insert name t } where
  members := h.members
  attributes x u hu := by
    dsimp only at hu
    rw [Std.TreeMap.getElem?_insert] at hu
    split at hu
    · cases hu
      exact ht
    · exact h.attributes x u hu

/-- The type of a name exists if there is one. -/
def OptionWithin (e : Extent) (t : Option Ty) : Prop := ∀ u, t = some u → u.Within e

/-- The type of a name goes on existing. -/
theorem OptionWithin.mono {t : Option Ty} (h : OptionWithin e t) (he : e ≤ e') :
    OptionWithin e' t :=
  fun u hu => (h u hu).mono he

/-- A name without a type refers to nothing. -/
theorem OptionWithin.none (e : Extent) : OptionWithin e none := nofun

/-- A name may have a type that exists. -/
theorem OptionWithin.some {t : Ty} (h : t.Within e) : OptionWithin e (some t) := by
  rintro _ ⟨⟩
  exact h

/-- The types of names exist. -/
def VarsWithin (e : Extent) (vars : List (String × Option Ty)) : Prop :=
  ∀ p ∈ vars, OptionWithin e p.2

/-- The types of names go on existing. -/
theorem VarsWithin.mono {vars : List (String × Option Ty)} (h : VarsWithin e vars) (he : e ≤ e') :
    VarsWithin e' vars :=
  fun p hp => (h p hp).mono he

/-- No names refer to nothing. -/
theorem VarsWithin.nil (e : Extent) : VarsWithin e [] := nofun

/-- A single name may have a type that exists. -/
theorem VarsWithin.single (name : String) {t : Ty} (h : t.Within e) :
    VarsWithin e [(name, some t)] :=
  List.forall_mem_singleton.2 (OptionWithin.some h)

/-- What is found under a name is an entry with that name. -/
theorem mem_of_lookup {α β : Type} [BEq α] [LawfulBEq α] {l : List (α × β)} {k : α} {b : β}
    (h : l.lookup k = some b) : (k, b) ∈ l := by
  obtain ⟨l₁, l₂, rfl, _⟩ := List.lookup_eq_some_iff.1 h
  exact List.mem_append_right _ List.mem_cons_self

/-- What a context refers to exists, and the enclosing method is not older than `base`. -/
structure Context.Within (base e : Extent) (c : Context) : Prop where
  /-- The types of the results exist. -/
  returns : ∀ p ∈ c.returns, p.1.Within e
  /-- The enclosing method exists. -/
  method? : ∀ f, c.method? = some f → f < e.sigs ∧ base.sigs ≤ f
  /-- The enclosing class exists. -/
  class? : ∀ cls, c.class? = some cls → cls.Within e.classes

/-- What a context refers to goes on existing. -/
theorem Context.Within.mono {c : Context} (h : c.Within base e) (he : e ≤ e') :
    c.Within base e' where
  returns p hp := (h.returns p hp).mono he
  method? f hf := ⟨Nat.lt_of_lt_of_le (h.method? f hf).1 he.1, (h.method? f hf).2⟩
  class? cls hc := (h.class? cls hc).mono he.2

/-! ### Closed states -/

/-- Everything that a state refers to is below an extent. -/
structure Closed (base e : Extent) (s : Checker) : Prop where
  /-- The earlier moment was earlier. -/
  base_le : base ≤ e
  /-- The signatures are closed. -/
  signatures : ∀ (f : SignatureId) (sig : Signature), s.signatures[f]? = some sig → sig.Within e
  /-- The classes are closed. -/
  bodies : ∀ (i : Nat) (b : ClassBody), s.bodies[i]? = some b → b.Within base e i
  /-- The types of the nodes exist. -/
  types : ∀ (id : NodeId) t, s.types[id]? = some t → t.Within e
  /-- The global names are closed. -/
  globals : ∀ (name : String) t, s.globals[name]? = some (some t) → t.Within e
  /-- The local scopes are closed. -/
  locals : ∀ sc ∈ s.locals, VarsWithin e sc.vars
  /-- The context is closed. -/
  context : ∀ c, s.context = some c → c.Within base e
  /-- The native signatures exist. -/
  natives : ∀ p ∈ s.nativeMethods, p.2 < e.sigs

/-- Older functions, and the methods of older classes, are the same. -/
structure Keeps (base : Extent) (s s' : Checker) : Prop where
  /-- There are no fewer functions and classes. -/
  extent : s.extent ≤ s'.extent
  /-- The older functions are the same. -/
  signatures : ∀ f < base.sigs, s'.signatures[f]? = s.signatures[f]?
  /-- The older classes have the same methods. -/
  members : ∀ i < base.classes,
    s'.bodies[i]?.map ClassBody.members = s.bodies[i]?.map ClassBody.members

namespace Keeps

variable {s s' s'' : Checker}

/-- A state keeps what it has. -/
theorem refl (base : Extent) (s : Checker) : Keeps base s s :=
  ⟨le_refl _, fun _ _ => rfl, fun _ _ => rfl⟩

/-- What is kept twice is kept. -/
theorem trans (h : Keeps base s s') (h' : Keeps base s' s'') : Keeps base s s'' where
  extent := le_trans h.extent h'.extent
  signatures f hf := (h'.signatures f hf).trans (h.signatures f hf)
  members i hi := (h'.members i hi).trans (h.members i hi)

/-- The functions and classes are the same. -/
theorem of_eq (hsigs : s'.signatures = s.signatures) (hbodies : s'.bodies = s.bodies) :
    Keeps base s s' where
  extent := by
    unfold Checker.extent
    rw [hsigs, hbodies]
  signatures _ _ := by rw [hsigs]
  members _ _ := by rw [hbodies]

end Keeps

namespace Closed

variable {s : Checker}

/-- A closed state is one below any greater extent. -/
theorem mono (h : Closed base e s) (he : e ≤ e') : Closed base e' s where
  base_le := le_trans h.base_le he
  signatures f sig hf := (h.signatures f sig hf).mono he
  bodies i b hb := (h.bodies i b hb).mono he
  types id t ht := (h.types id t ht).mono he
  globals name t ht := (h.globals name t ht).mono he
  locals sc hsc := (h.locals sc hsc).mono he
  context c hc := (h.context c hc).mono he
  natives p hp := Nat.lt_of_lt_of_le (h.natives p hp) he.1

/-! ### What is found in a closed state -/

/-- The types of a function exist; a number without a function has none. -/
theorem signature (h : Closed base e s) (f : SignatureId) : (s.signature f).Within e := by
  unfold Checker.signature
  cases hf : s.signatures[f]? with
  | none => exact ⟨nofun, nofun, nofun, nofun⟩
  | some sig => exact h.signatures f sig hf

/-- The members of a class exist. -/
theorem body (h : Closed base e s) (c : ClassType) : (s.body c).Within base e c.id := by
  unfold Checker.body
  cases hb : s.bodies[c.id]? with
  | some b => exact h.bodies c.id b hb
  | none =>
    refine ⟨fun name f hf => ?_, fun name t ht => ?_⟩
    · rw [show (none.getD default : ClassBody).members = ∅ from rfl] at hf
      simp at hf
    · rw [show (none.getD default : ClassBody).attributes = ∅ from rfl] at ht
      simp at ht

/-- An attribute that is found in a class or above has a type that exists. -/
theorem lookup_attribute (h : Closed base e s) {name : String} {c : ClassType} {t : Ty}
    {depth : Nat} (ht : s.attributes.lookup name c = .found t depth) : t.Within e := by
  obtain ⟨c', hc⟩ := Hierarchy.own_of_lookup ht
  exact (h.body c').attributes name t hc

/-- A method that is found in a class or above exists. -/
theorem lookup_method (h : Closed base e s) {name : String} {c : ClassType} {f : SignatureId}
    {depth : Nat} (hf : s.methods.lookup name c = .found f depth) : f < e.sigs := by
  obtain ⟨c', hc⟩ := Hierarchy.own_of_lookup hf
  exact ((h.body c').members name f hc).1

/-- A method that is found in superclasses exists. -/
theorem lookup_superMethod (h : Closed base e s) {name : String} {supers : List ClassType}
    {f : SignatureId} {depth : Nat} (hf : s.methods.lookupSupers name supers = .found f depth) :
    f < e.sigs := by
  obtain ⟨c', hc⟩ := Hierarchy.own_of_lookupSupers hf
  exact ((h.body c').members name f hc).1

/-- A native method that was made exists. -/
theorem lookup_native (h : Closed base e s) {op : Operation} {f : SignatureId}
    (hf : s.nativeMethods.lookup op = some f) : f < e.sigs :=
  h.natives _ (mem_of_lookup hf)

/-- The type of a name that is found exists. -/
theorem lookup? (h : Closed base e s) {name : String} {place : Check.Place} {t : Ty}
    (ht : Check.lookup? s name = some (place, some t)) : t.Within e := by
  unfold Check.lookup? at ht
  split at ht
  · -- A local name is in the innermost scope that has it; else it is a global one.
    next i hi =>
    have hjoin := congrArg (Option.map Prod.snd) ht
    simp only [Option.map_some, Option.some.injEq] at hjoin
    cases hsc : s.locals[i]? with
    | none =>
      rw [hsc] at hjoin
      cases hjoin
    | some sc =>
      rw [hsc] at hjoin
      have hmem : sc ∈ s.locals := List.mem_of_getElem? hsc
      have hvar : sc.vars.lookup name = some (some t) := Option.join_eq_some_iff.1 hjoin
      exact h.locals sc hmem _ (mem_of_lookup hvar) t rfl
  · obtain ⟨u, hu, hpair⟩ := Option.map_eq_some_iff.1 ht
    cases hpair
    exact h.globals name t hu

/-- The objects of a class that a name stands for exist if the class does. -/
theorem named? {found : Option (Option Ty)} {name : String} {t : Ty}
    (hfound : ∀ u, found = some (some u) → u.Within e) (ht : Check.named? found name = some t) :
    t.Within e := by
  unfold Check.named? at ht
  split at ht
  · cases ht
    exact within_objectType e
  · split at ht
    · next c =>
      cases ht
      exact hfound (.class c) rfl
    · cases ht

/-- The type that a global name declares exists, or is that of all objects. -/
theorem globalType (h : Closed base e s) (name : String) : (Check.globalType s name).Within e := by
  unfold Check.globalType
  cases ht : Check.named? s.globals[name]? name with
  | none => exact within_objectType e
  | some t => exact named? (h.globals name) ht

/-- The type that a name declares is one of objects. -/
theorem isInstance_named? {found : Option (Option Ty)} {name : String} {t : Ty}
    (ht : Check.named? found name = some t) : t.IsInstance := by
  unfold Check.named? at ht
  split at ht
  · cases ht
    exact ⟨_, rfl⟩
  · split at ht
    · cases ht
      exact ⟨_, rfl⟩
    · cases ht

/-- The type that a global name declares is one of objects. -/
theorem isInstance_globalType (s : Checker) (name : String) :
    (Check.globalType s name).IsInstance := by
  unfold Check.globalType
  cases ht : Check.named? s.globals[name]? name with
  | none => exact ⟨_, rfl⟩
  | some t => exact isInstance_named? ht

/-- A native method has types that exist. -/
theorem nativeSignature (h : Closed base e s) (name : String) (params : List Param)
    (returns : String) : (Check.nativeSignature s name params returns).Within e where
  paramTypes t ht := by
    obtain ⟨p, _, rfl⟩ := List.mem_map.1 ht
    exact h.globalType p.type.lexeme
  declared t ht := by
    obtain ⟨p, _, rfl⟩ := List.mem_map.1 ht
    exact isInstance_globalType s p.type.lexeme
  returns t ht := by
    cases ht
    exact h.globalType returns
  returnsByArg := nofun

/-- The type of a name exists. -/
theorem variableType (h : Closed base e s) (name : String) :
    (Check.variableType s name).Within e := by
  unfold Check.variableType
  rcases hl : Check.lookup? s name with _ | ⟨place, _ | t⟩
  · exact within_objectType e
  · exact within_builtin e .nil
  · exact h.lookup? hl

/-- The type of `self` exists. -/
theorem selfType (h : Closed base e s) : (Check.selfType s).Within e := by
  unfold Check.selfType
  rcases hl : Check.lookup? s "self" with _ | ⟨place, _ | t⟩
  · exact within_objectType e
  · exact within_objectType e
  · exact h.lookup? hl

/-- The context of a function inside refers to what the one around refers to. -/
theorem childContext (h : Closed base e s) : (Check.childContext s).Within base e := by
  unfold Check.childContext
  cases hc : s.context with
  | none => exact ⟨List.forall_mem_nil _, nofun, nofun⟩
  | some c => exact ⟨List.forall_mem_nil _, (h.context c hc).method?, (h.context c hc).class?⟩

/-! ### Changes -/

/-- The notes of uses do not matter. -/
theorem withFound (h : Closed base e s) (found : Std.TreeMap NodeId (Option Scope.Origin)) :
    Closed base e { s with found } :=
  ⟨h.base_le, h.signatures, h.bodies, h.types, h.globals, h.locals, h.context, h.natives⟩

/-- The type of a node may be one that exists. -/
theorem insertType (h : Closed base e s) (id : NodeId) {t : Ty} (ht : t.Within e) :
    Closed base e { s with types := s.types.insert id t } where
  base_le := h.base_le
  signatures := h.signatures
  bodies := h.bodies
  types i u hu := by
    dsimp only at hu
    rw [Std.TreeMap.getElem?_insert] at hu
    -- The node itself, or another one, whose type was there.
    split at hu
    · cases hu
      exact ht
    · exact h.types i u hu
  globals := h.globals
  locals := h.locals
  context := h.context
  natives := h.natives

/-- The local scopes may be any of types that exist. -/
theorem withLocals (h : Closed base e s) {locals : List StaticScope}
    (hl : ∀ sc ∈ locals, VarsWithin e sc.vars) : Closed base e { s with locals } :=
  ⟨h.base_le, h.signatures, h.bodies, h.types, h.globals, hl, h.context, h.natives⟩

/-- The context may be any that refers to what exists. -/
theorem withContext (h : Closed base e s) {context : Option Context}
    (hc : ∀ c, context = some c → c.Within base e) : Closed base e { s with context } :=
  ⟨h.base_le, h.signatures, h.bodies, h.types, h.globals, h.locals, hc, h.natives⟩

/-- A global name may have a type that exists. -/
theorem insertGlobal (h : Closed base e s) (name : String) {t : Option Ty}
    (ht : OptionWithin e t) :
    Closed base e { s with globals := s.globals.insert name t } where
  base_le := h.base_le
  signatures := h.signatures
  bodies := h.bodies
  types := h.types
  globals x u hu := by
    dsimp only at hu
    rw [Std.TreeMap.getElem?_insert] at hu
    split at hu
    · exact ht u (Option.some.inj hu)
    · exact h.globals x u hu
  locals := h.locals
  context := h.context
  natives := h.natives

/-- A native method may be noted as a function that exists. -/
theorem consNative (h : Closed base e s) (op : Operation) {f : SignatureId} (hf : f < e.sigs) :
    Closed base e { s with nativeMethods := (op, f) :: s.nativeMethods } where
  base_le := h.base_le
  signatures := h.signatures
  bodies := h.bodies
  types := h.types
  globals := h.globals
  locals := h.locals
  context := h.context
  natives := List.forall_mem_cons.2 ⟨hf, h.natives⟩

/-- A function may be changed as long as its types exist. -/
theorem modifySignature (h : Closed base e s) (f : SignatureId) {u : Signature → Signature}
    (hu : ∀ sig, sig.Within e → (u sig).Within e) :
    Closed base e { s with signatures := s.signatures.modify f u } where
  base_le := h.base_le
  signatures g sig hg := by
    dsimp only at hg
    rw [Array.getElem?_modify] at hg
    split at hg
    · obtain ⟨old, hold, rfl⟩ := Option.map_eq_some_iff.1 hg
      exact hu old (h.signatures g old hold)
    · exact h.signatures g sig hg
  bodies := h.bodies
  types := h.types
  globals := h.globals
  locals := h.locals
  context := h.context
  natives := h.natives

/-- A class may be changed as long as its members exist. -/
theorem modifyBody (h : Closed base e s) (i : Nat) {u : ClassBody → ClassBody}
    (hu : ∀ b, b.Within base e i → (u b).Within base e i) :
    Closed base e { s with bodies := s.bodies.modify i u } where
  base_le := h.base_le
  signatures := h.signatures
  bodies j b hb := by
    dsimp only at hb
    rw [Array.getElem?_modify] at hb
    split at hb
    · next hij =>
      obtain ⟨old, hold, rfl⟩ := Option.map_eq_some_iff.1 hb
      exact hij ▸ hu old (hij ▸ h.bodies j old hold)
    · exact h.bodies j b hb
  types := h.types
  globals := h.globals
  locals := h.locals
  context := h.context
  natives := h.natives

/-- A function whose types exist may be made. -/
theorem pushSignature (h : Closed base e s) {sig : Signature} (hsig : sig.Within e) :
    Closed base e { s with signatures := s.signatures.push sig } where
  base_le := h.base_le
  signatures f sig' hf := by
    dsimp only at hf
    rw [Array.getElem?_push] at hf
    -- The new function, or one of the old ones.
    split at hf
    · cases hf
      exact hsig
    · exact h.signatures f sig' hf
  bodies := h.bodies
  types := h.types
  globals := h.globals
  locals := h.locals
  context := h.context
  natives := h.natives

/-- A class without members may be made. -/
theorem pushBody (h : Closed base e s) : Closed base e { s with bodies := s.bodies.push {} } where
  base_le := h.base_le
  signatures := h.signatures
  bodies i b hb := by
    dsimp only at hb
    rw [Array.getElem?_push] at hb
    split at hb
    · cases hb
      -- The new class has neither methods nor attributes.
      exact ⟨fun name f hf => by simp at hf, fun name t ht => by simp at ht⟩
    · exact h.bodies i b hb
  types := h.types
  globals := h.globals
  locals := h.locals
  context := h.context
  natives := h.natives

end Closed

namespace Keeps

variable {s : Checker}

/-- A function that is made is not an older one. -/
theorem pushSignature (h : base ≤ s.extent) (sig : Signature) :
    Keeps base s { s with signatures := s.signatures.push sig } where
  extent := ⟨by simp [Checker.extent], Nat.le_refl _⟩
  signatures f hf := by
    have hlt : f < s.signatures.size := Nat.lt_of_lt_of_le hf h.1
    dsimp only
    rw [Array.getElem?_push, if_neg (Nat.ne_of_lt hlt)]
  members _ _ := rfl

/-- A class that is made is not an older one. -/
theorem pushBody (h : base ≤ s.extent) (b : ClassBody) :
    Keeps base s { s with bodies := s.bodies.push b } where
  extent := ⟨Nat.le_refl _, by simp [Checker.extent]⟩
  signatures _ _ := rfl
  members i hi := by
    have hlt : i < s.bodies.size := Nat.lt_of_lt_of_le hi h.2
    dsimp only
    rw [Array.getElem?_push, if_neg (Nat.ne_of_lt hlt)]

/-- A function that is not older than `base` is changed. -/
theorem modifySignature {f : SignatureId} (hf : base.sigs ≤ f) (u : Signature → Signature) :
    Keeps base s { s with signatures := s.signatures.modify f u } where
  extent := ⟨by simp [Checker.extent], Nat.le_refl _⟩
  signatures g hg := by
    dsimp only
    rw [Array.getElem?_modify, if_neg (Nat.ne_of_gt (Nat.lt_of_lt_of_le hg hf))]
  members _ _ := rfl

/-- The methods of a class that is not older than `base` are changed, or no methods. -/
theorem modifyBody {i : Nat} {u : ClassBody → ClassBody}
    (h : base.classes ≤ i ∨ ∀ b, (u b).members = b.members) :
    Keeps base s { s with bodies := s.bodies.modify i u } where
  extent := ⟨Nat.le_refl _, by simp [Checker.extent]⟩
  signatures _ _ := rfl
  members j hj := by
    dsimp only
    rw [Array.getElem?_modify]
    split
    · next hij =>
      rcases h with hi | hu
      · omega
      · rw [Option.map_map]
        exact congrFun (congrArg Option.map (funext hu)) _
    · rfl

end Keeps

end ClassScript.Typing
