import ClassScript.Proofs.Typing.Renaming

/-!
# States with renamed functions and classes

`Mirror ρ s s'` says that `s'` is the state `s` with the functions and classes renamed by `ρ`, and
that new ones correspond as well. `s'` may hold functions and classes that are nobody's picture;
nothing refers to them. Every question the checker asks of its state has the renamed answer in the
mirrored state.
-/

namespace ClassScript.Typing

/-! ### Arrays -/

/-- The entries of an array at renamed places correspond to those of another one, and the arrays
have new places that correspond. -/
structure Mirrored {α : Type} (π : Nat → Nat) (R : α → α → Prop) (xs ys : Array α) : Prop where
  /-- The entries correspond. -/
  entry : ∀ i, Option.Rel R xs[i]? ys[π i]?
  /-- The new places correspond. -/
  next : ∀ k, π (xs.size + k) = ys.size + k

namespace Mirrored

variable {α : Type} {π : Nat → Nat} {R : α → α → Prop} {xs ys : Array α}

/-- The next place of one array is the renamed next place of the other one. -/
theorem place_size (h : Mirrored π R xs ys) : π xs.size = ys.size := h.next 0

/-- Corresponding entries may be put at the end. -/
theorem push (h : Mirrored π R xs ys) (hπ : Function.Injective π) {x y : α} (hxy : R x y) :
    Mirrored π R (xs.push x) (ys.push y) where
  entry i := by
    have hsize : π i = ys.size ↔ i = xs.size := by rw [← h.place_size, hπ.eq_iff]
    rw [Array.getElem?_push, Array.getElem?_push]
    -- The new entries stand at corresponding places, and the old ones are left.
    by_cases hi : i = xs.size
    · rw [if_pos hi, if_pos (hsize.2 hi)]
      exact .some hxy
    · rw [if_neg hi, if_neg (mt hsize.1 hi)]
      exact h.entry i
  next k := by
    have hnext := h.next (1 + k)
    rw [Array.size_push, Array.size_push, Nat.add_assoc, Nat.add_assoc, hnext]

/-- Corresponding entries may be changed in corresponding ways. -/
theorem modify (h : Mirrored π R xs ys) (hπ : Function.Injective π) (i : Nat) {f g : α → α}
    (hfg : ∀ x y, R x y → R (f x) (g y)) :
    Mirrored π R (xs.modify i f) (ys.modify (π i) g) where
  entry j := by
    rw [Array.getElem?_modify, Array.getElem?_modify]
    -- The changed place goes over to the changed one, and no other place does.
    by_cases hij : i = j
    · rw [if_pos hij, if_pos (congrArg π hij)]
      have hentry := h.entry j
      generalize xs[j]? = x at hentry ⊢
      generalize ys[π j]? = y at hentry ⊢
      cases hentry with
      | none => exact .none
      | some hxy => exact .some (hfg _ _ hxy)
    · rw [if_neg hij, if_neg (mt (fun e => hπ e) hij)]
      exact h.entry j
  next k := by
    rw [Array.size_modify, Array.size_modify]
    exact h.next k

end Mirrored

/-! ### States -/

/-- The members of a class correspond to those of another one. -/
structure ClassBody.Mirror (ρ : Renaming) (b b' : ClassBody) : Prop where
  /-- The methods correspond. -/
  members : ∀ name : String, b'.members[name]? = b.members[name]?.map ρ.sig
  /-- The fields correspond. -/
  attributes : ∀ name : String, b'.attributes[name]? = b.attributes[name]?.map (Ty.rename ρ)

/-- A state is another one with the functions and classes renamed. -/
structure Mirror (ρ : Renaming) (s s' : Checker) : Prop where
  /-- The functions correspond. -/
  signatures : Mirrored ρ.sig (fun sig sig' => sig' = sig.rename ρ) s.signatures s'.signatures
  /-- The classes correspond. -/
  bodies : Mirrored ρ.cls (ClassBody.Mirror ρ) s.bodies s'.bodies
  /-- The global names correspond. -/
  globals : ∀ name : String, s'.globals[name]? = s.globals[name]?.map (Option.map (Ty.rename ρ))
  /-- The local scopes correspond. -/
  locals : s'.locals = s.locals.map (StaticScope.rename ρ)
  /-- The contexts correspond. -/
  context : s'.context = s.context.map (Context.rename ρ)
  /-- The native signatures correspond. -/
  nativeMethods : s'.nativeMethods = s.nativeMethods.map fun (op, f) => (op, ρ.sig f)

namespace ClassBody.Mirror

variable {ρ : Renaming} {b b' : ClassBody}

/-- Two classes without members correspond. -/
theorem empty : ClassBody.Mirror ρ {} {} where
  members _ := by simp
  attributes _ := by simp

/-- Corresponding classes may get corresponding methods. -/
theorem insertMember (h : b.Mirror ρ b') (name : String) (f : SignatureId) :
    ClassBody.Mirror ρ { b with members := b.members.insert name f }
      { b' with members := b'.members.insert name (ρ.sig f) } where
  members x := by
    simp only [Std.TreeMap.getElem?_insert, h.members]
    split <;> rfl
  attributes := h.attributes

/-- Corresponding classes may get attributes of corresponding types. -/
theorem insertAttribute (h : b.Mirror ρ b') (name : String) (t : Ty) :
    ClassBody.Mirror ρ { b with attributes := b.attributes.insert name t }
      { b' with attributes := b'.attributes.insert name (t.rename ρ) } where
  members := h.members
  attributes x := by
    simp only [Std.TreeMap.getElem?_insert, h.attributes]
    split <;> rfl

end ClassBody.Mirror

namespace Mirror

variable {ρ : Renaming} {s s' : Checker}

/-! ### Functions and classes -/

/-- A function has the renamed signature. -/
theorem signature (h : Mirror ρ s s') (f : SignatureId) :
    s'.signature (ρ.sig f) = (s.signature f).rename ρ := by
  have hentry := h.signatures.entry f
  unfold Checker.signature
  generalize s.signatures[f]? = x at hentry ⊢
  generalize s'.signatures[ρ.sig f]? = y at hentry ⊢
  cases hentry with
  | none => rfl
  | some hsig => exact hsig

/-- A class has the renamed members. -/
theorem body (h : Mirror ρ s s') (c : ClassType) :
    (s.body c).Mirror ρ (s'.body (c.rename ρ)) := by
  have hentry := h.bodies.entry c.id
  unfold Checker.body
  rw [ClassType.rename_id]
  generalize s.bodies[c.id]? = x at hentry ⊢
  generalize s'.bodies[ρ.cls c.id]? = y at hentry ⊢
  cases hentry with
  | none => exact .empty
  | some hbody => exact hbody

/-! ### Relations between types -/

/-- Types that are not both functions are compared by their classes alone. -/
theorem sameUpTo_flat {a b : Option Ty}
    (hflat : ∀ f g, a = some (.function f) → b ≠ some (.function g)) (n : Nat) :
    s'.sameUpTo n (a.map (Ty.rename ρ)) (b.map (Ty.rename ρ)) = s.sameUpTo n a b := by
  rcases a with _ | a <;> rcases b with _ | b
  · cases n <;> rfl
  · cases n <;> simp [Checker.sameUpTo]
  · cases n <;> cases a <;> simp [Checker.sameUpTo, Ty.rename, isObject]
  · have hid := identical_rename (ρ := ρ) a b
    cases n <;> cases a <;> cases b <;> first
      | exact congrArg some hid
      | exact absurd rfl (hflat _ _ rfl)

/-- Two renamed types are compared like the types, to any depth. -/
theorem sameUpTo (h : Mirror ρ s s') (n : Nat) (a b : Option Ty) :
    s'.sameUpTo n (a.map (Ty.rename ρ)) (b.map (Ty.rename ρ)) = s.sameUpTo n a b := by
  induction n generalizing a b with
  | zero =>
    rcases Checker.flat_or_functions a b with hflat | ⟨f, g, rfl, rfl⟩
    · exact sameUpTo_flat hflat 0
    · simp only [Option.map_some, Ty.rename, Checker.sameUpTo, ρ.sig_injective.eq_iff]
  | succ n ih =>
    rcases Checker.flat_or_functions a b with hflat | ⟨f, g, rfl, rfl⟩
    · exact sameUpTo_flat hflat (n + 1)
    · simp only [Option.map_some, Ty.rename, Checker.sameUpTo_function_succ, h.signature,
        ρ.sig_injective.eq_iff, sameSignaturesBy_rename ih]

/-- The comparison with as many levels as either state needs. -/
theorem same? (h : Mirror ρ s s') (a b : Option Ty) :
    s'.same? (a.map (Ty.rename ρ)) (b.map (Ty.rename ρ)) = s.same? a b := by
  let n := s.signatures.size * s.signatures.size + s'.signatures.size * s'.signatures.size + 1
  have hn : s.signatures.size * s.signatures.size < n := by omega
  have hn' : s'.signatures.size * s'.signatures.size < n := by omega
  rw [← Checker.sameUpTo_eq_same? hn, ← Checker.sameUpTo_eq_same? hn', h.sameUpTo]

/-- The more general type of two renamed types is the renamed one. -/
theorem unify? (h : Mirror ρ s s') (a b : Option Ty) :
    s'.unify? (a.map (Ty.rename ρ)) (b.map (Ty.rename ρ)) =
      (s.unify? a b).map (Option.map (Option.map (Ty.rename ρ))) := by
  unfold Checker.unify?
  rw [h.same?, isObject_rename, isObject_rename]
  -- The comparisons have the same answers, and one side is returned as it is.
  cases s.same? a b with
  | none => rfl
  | some equal =>
    cases equal with
    | true => rfl
    | false =>
      cases isObject a with
      | true => rfl
      | false =>
        cases isObject b with
        | true => rfl
        | false =>
          -- Only two instances are left, where the classes are compared along their superclasses.
          rcases a with _ | (c | c | f) <;> rcases b with _ | (d | d | g) <;> try rfl
          simp only [Option.map_some, Ty.rename, subclassOf_rename]
          cases ClassType.subclassOf d c with
          | true => rfl
          | false => cases ClassType.subclassOf c d <;> rfl

/-- A renamed type may be passed where the type may be. -/
theorem assignable? (h : Mirror ρ s s') (param arg : Ty) :
    s'.assignable? (some (param.rename ρ)) (some (arg.rename ρ)) =
      s.assignable? (some param) (some arg) := by
  have hsame : s'.same? (some (param.rename ρ)) (some (arg.rename ρ)) =
      s.same? (some param) (some arg) := h.same? (some param) (some arg)
  unfold Checker.assignable?
  rw [hsame, isObject_some_rename, isObject_some_rename]
  -- Each comparison has the same answer on both sides.
  cases isObject (some param) || isObject (some arg) with
  | true => rfl
  | false =>
    cases s.same? (some param) (some arg) with
    | none => rfl
    | some equal =>
      cases equal with
      | true => rfl
      | false =>
        cases param <;> cases arg <;> try rfl
        simp only [Ty.rename, subclassOf_rename]

/-! ### Texts -/

/-- A renamed type has the text of the type, to any depth. -/
theorem typeTextUpTo (h : Mirror ρ s s') (n : Nat) (t : Ty) :
    s'.typeTextUpTo n (t.rename ρ) = s.typeTextUpTo n t := by
  induction n generalizing t with
  | zero => cases t <;> simp [Ty.rename, Checker.typeTextUpTo]
  | succ n ih =>
    cases t with
    | «instance» c => simp [Ty.rename, Checker.typeTextUpTo]
    | «class» c => simp [Ty.rename, Checker.typeTextUpTo]
    | function f =>
      rw [Ty.rename, Checker.typeTextUpTo_function_succ, Checker.typeTextUpTo_function_succ,
        h.signature, signatureTextBy_rename ih]

/-- The text with as many levels as either state needs. -/
theorem typeText? (h : Mirror ρ s s') (t : Option Ty) :
    s'.typeText? (t.map (Ty.rename ρ)) = s.typeText? t := by
  cases t with
  | none => rfl
  | some t =>
    let n := s.signatures.size + s'.signatures.size + 1
    have hn : s.signatures.size < n := by omega
    have hn' : s'.signatures.size < n := by omega
    rw [Option.map_some, ← Checker.typeTextUpTo_eq_typeText? hn,
      ← Checker.typeTextUpTo_eq_typeText? hn', h.typeTextUpTo]

/-! ### Members -/

/-- Methods are inherited alike. -/
theorem methods (h : Mirror ρ s s') :
    s.methods.Pictures s'.methods (ClassType.rename ρ) ρ.sig where
  own c := (h.body c).members
  supers := ClassType.rename_supers
  name := ClassType.rename_name

/-- A renamed class inherits attributes if the class does. -/
theorem inheritsAttributes (h : Mirror ρ s s') (c : ClassType) :
    s'.inheritsAttributes (c.rename ρ) = s.inheritsAttributes c := by
  unfold Checker.inheritsAttributes
  rw [(h.body c).members]
  cases (s.body c).members["init"]? with
  | none => rfl
  | some init =>
    simp only [Option.map_some, h.signature]
    rfl

/-- Fields are inherited alike. -/
theorem attributes (h : Mirror ρ s s') :
    s.attributes.Pictures s'.attributes (ClassType.rename ρ) (Ty.rename ρ) where
  own c := (h.body c).attributes
  supers c := by
    change s'.attributeSupers _ = (s.attributeSupers c).map _
    unfold Checker.attributeSupers
    rw [h.inheritsAttributes]
    split
    · exact ClassType.rename_supers c
    · rfl
  name := ClassType.rename_name

/-! ### Names -/

/-- A name is found with the renamed type. -/
theorem lookup_renameVars (vars : List (String × Option Ty)) (name : String) :
    (renameVars ρ vars).lookup name = (vars.lookup name).map (Option.map (Ty.rename ρ)) := by
  induction vars with
  | nil => rfl
  | cons v rest ih =>
    obtain ⟨x, t⟩ := v
    unfold renameVars at *
    rw [List.map_cons, List.lookup_cons, List.lookup_cons, ih]
    cases name == x <;> rfl

/-- A name is found in the same scope, with the renamed type. -/
theorem lookup? (h : Mirror ρ s s') (name : String) :
    Check.lookup? s' name =
      (Check.lookup? s name).map fun (place, t) => (place, t.map (Ty.rename ρ)) := by
  have hvars : ∀ sc : StaticScope, ((sc.rename ρ).vars.lookup name) =
      (sc.vars.lookup name).map (Option.map (Ty.rename ρ)) := fun sc => lookup_renameVars ..
  -- The renamed scopes have the same names, so the same one is the first to have it.
  have hidx : s'.locals.findIdx? (fun sc => (sc.vars.lookup name).isSome) =
      s.locals.findIdx? (fun sc => (sc.vars.lookup name).isSome) := by
    rw [h.locals, List.findIdx?_map]
    simp only [Function.comp_def, hvars, Option.isSome_map]
  unfold Check.lookup?
  rw [hidx]
  cases s.locals.findIdx? fun sc => (sc.vars.lookup name).isSome with
  | none =>
    rw [h.globals]
    simp only [Option.map_map]
    rfl
  | some i =>
    dsimp only
    rw [h.locals, List.getElem?_map]
    cases s.locals[i]? with
    | none => rfl
    | some sc =>
      simp only [Option.map_some, Option.bind_some, hvars]
      cases sc.vars.lookup name <;> rfl

/-- A name declares the renamed type. -/
theorem named?_rename (found : Option (Option Ty)) (name : String) :
    Check.named? (found.map (Option.map (Ty.rename ρ))) name =
      (Check.named? found name).map (Ty.rename ρ) := by
  unfold Check.named?
  split
  · rw [Option.map_some, rename_objectType]
  · rcases found with _ | _ | (c | c | f) <;> rfl

/-- A global name declares the renamed type. -/
theorem globalType (h : Mirror ρ s s') (name : String) :
    Check.globalType s' name = (Check.globalType s name).rename ρ := by
  unfold Check.globalType
  rw [h.globals, named?_rename]
  cases Check.named? s.globals[name]? name with
  | none => exact rename_objectType.symm
  | some t => rfl

/-- A native method has the renamed signature. -/
theorem nativeSignature (h : Mirror ρ s s') (name : String) (params : List Param)
    (returns : String) :
    Check.nativeSignature s' name params returns =
      (Check.nativeSignature s name params returns).rename ρ := by
  unfold Check.nativeSignature Signature.rename
  simp only [h.globalType, List.map_map, Option.map_some, List.map_nil]
  rfl

/-- A name has the renamed type. -/
theorem variableType (h : Mirror ρ s s') (name : String) :
    Check.variableType s' name = (Check.variableType s name).rename ρ := by
  unfold Check.variableType
  rw [h.lookup?]
  rcases Check.lookup? s name with _ | ⟨place, _ | t⟩
  · exact rename_objectType.symm
  · exact (rename_builtin .nil).symm
  · rfl

/-- The type of `self` is renamed. -/
theorem selfType (h : Mirror ρ s s') : Check.selfType s' = (Check.selfType s).rename ρ := by
  unfold Check.selfType
  rw [h.lookup?]
  rcases Check.lookup? s "self" with _ | ⟨place, _ | t⟩
  · exact rename_objectType.symm
  · exact rename_objectType.symm
  · rfl

/-- The context of a function inside is renamed. -/
theorem childContext (h : Mirror ρ s s') :
    Check.childContext s' = (Check.childContext s).rename ρ := by
  unfold Check.childContext
  rw [h.context]
  cases s.context <;> rfl

/-! ### Changes -/

/-- The types of nodes and the notes of uses do not matter. -/
theorem withNotes (h : Mirror ρ s s') (types types' : Std.TreeMap NodeId Ty)
    (found found' : Std.TreeMap NodeId (Option Scope.Origin)) :
    Mirror ρ { s with types, found } { s' with types := types', found := found' } :=
  ⟨h.signatures, h.bodies, h.globals, h.locals, h.context, h.nativeMethods⟩

/-- Corresponding functions may be changed in corresponding ways. -/
theorem modifySignature (h : Mirror ρ s s') (f : SignatureId) {u v : Signature → Signature}
    (huv : ∀ sig, v (sig.rename ρ) = (u sig).rename ρ) :
    Mirror ρ { s with signatures := s.signatures.modify f u }
      { s' with signatures := s'.signatures.modify (ρ.sig f) v } where
  signatures := h.signatures.modify ρ.sig_injective f fun sig _ hsig => hsig ▸ huv sig
  bodies := h.bodies
  globals := h.globals
  locals := h.locals
  context := h.context
  nativeMethods := h.nativeMethods

/-- Corresponding classes may be changed in corresponding ways. -/
theorem modifyBody (h : Mirror ρ s s') (c : ClassType) {u v : ClassBody → ClassBody}
    (huv : ∀ b b', b.Mirror ρ b' → (u b).Mirror ρ (v b')) :
    Mirror ρ { s with bodies := s.bodies.modify c.id u }
      { s' with bodies := s'.bodies.modify (c.rename ρ).id v } where
  signatures := h.signatures
  bodies := by
    rw [ClassType.rename_id]
    exact h.bodies.modify ρ.cls_injective c.id huv
  globals := h.globals
  locals := h.locals
  context := h.context
  nativeMethods := h.nativeMethods

/-- The local scopes may be replaced by renamed ones. -/
theorem withLocals (h : Mirror ρ s s') {locals locals' : List StaticScope}
    (hl : locals' = locals.map (StaticScope.rename ρ)) :
    Mirror ρ { s with locals } { s' with locals := locals' } :=
  ⟨h.signatures, h.bodies, h.globals, hl, h.context, h.nativeMethods⟩

/-- The context may be replaced by the renamed one. -/
theorem withContext (h : Mirror ρ s s') {context context' : Option Context}
    (hc : context' = context.map (Context.rename ρ)) :
    Mirror ρ { s with context } { s' with context := context' } :=
  ⟨h.signatures, h.bodies, h.globals, h.locals, hc, h.nativeMethods⟩

end Mirror

end ClassScript.Typing
