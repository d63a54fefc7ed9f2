import ClassScript.Proofs.Typing.Edits
import ClassScript.Proofs.Typing.Mirror

/-!
# The checker does not look at the numbers

A step of the checker that starts in a mirrored state, with its arguments renamed, ends like the
step in the other state: with the renamed value, or with the same rejection, and in states that are
mirrors again. `Check.Mirrors` says so of one step, and there is a lemma for every function of the
checker. Numbers reach a message only through texts, which do not depend on them.
-/

namespace ClassScript.Typing

namespace Check

variable {α β : Type} {ρ : Renaming}

/-- Two outcomes correspond. -/
inductive Alike (ρ : Renaming) (φ : α → α) :
    EStateM.Result Stop Checker α → EStateM.Result Stop Checker α → Prop where
  /-- Both steps ended with corresponding values. -/
  | ok {a : α} {s s' : Checker} (h : Mirror ρ s s') : Alike ρ φ (.ok a s) (.ok (φ a) s')
  /-- Both steps were left for the same reason. -/
  | error {e : Stop} {s s' : Checker} (h : Mirror ρ s s') : Alike ρ φ (.error e s) (.error e s')

/-- Two steps have corresponding outcomes in mirrored states. -/
structure Mirrors (ρ : Renaming) (φ : α → α) (x y : Check α) : Prop where
  /-- The outcomes correspond. -/
  run : ∀ {s s'}, Mirror ρ s s' → Alike ρ φ (x s) (y s')

namespace Mirrors

variable {φ : α → α} {ψ : β → β} {x y : Check α}

/-! ### Rules -/

/-- A value corresponds to its renamed self. -/
theorem pure {a b : α} (h : b = φ a) : Mirrors ρ φ (Pure.pure a) (Pure.pure b) :=
  ⟨fun hs => h ▸ .ok hs⟩

/-- Both sides may stop for the same reason. -/
theorem throw (e : Stop) : Mirrors ρ φ (MonadExcept.throw e) (MonadExcept.throw e) :=
  ⟨fun hs => .error hs⟩

/-- Changes of the states correspond if they keep them mirrors. -/
theorem change {f g : Checker → Checker} (h : ∀ {s s'}, Mirror ρ s s' → Mirror ρ (f s) (g s')) :
    Mirrors ρ id (modify f : Check PUnit) (modify g) :=
  ⟨fun hs => .ok (h hs)⟩

/-- One step after another: the second one goes on from corresponding values. -/
theorem bind {f g : α → Check β} (hx : Mirrors ρ φ x y) (hf : ∀ a, Mirrors ρ ψ (f a) (g (φ a))) :
    Mirrors ρ ψ (x >>= f) (y >>= g) where
  run {s s'} hs := by
    have hxs := hx.run hs
    rw [bind_apply, bind_apply]
    generalize x s = r at hxs ⊢
    generalize y s' = r' at hxs ⊢
    cases hxs with
    | ok h => exact (hf _).run h
    | error h => exact .error h

/-- Both steps look at their state and go on. -/
theorem getBind {f g : Checker → Check β}
    (hf : ∀ {s s'}, Mirror ρ s s' → Mirrors ρ ψ (f s) (g s')) :
    Mirrors ρ ψ (MonadState.get >>= f) (MonadState.get >>= g) :=
  ⟨fun hs => (hf hs).run hs⟩

/-- The same test in both steps. -/
theorem ite {c : Prop} [Decidable c] {x' y' : Check α} (h : Mirrors ρ φ x y)
    (h' : Mirrors ρ φ x' y') : Mirrors ρ φ (if c then x else x') (if c then y else y') := by
  split
  · exact h
  · exact h'

/-- A test in front of a step, which is left early or goes on. -/
theorem guard {c : Prop} [Decidable c] {x y : Check PUnit} {k l : PUnit → Check β}
    (hx : Mirrors ρ id x y) (hk : ∀ r, Mirrors ρ ψ (k r) (l r)) :
    Mirrors ρ ψ (if c then x >>= k else k ()) (if c then y >>= l else l ()) :=
  ite (hx.bind hk) (hk ())

/-- A test in front of a step, the other way round. -/
theorem guardNot {c : Prop} [Decidable c] {x y : Check PUnit} {k l : PUnit → Check β}
    (hx : Mirrors ρ id x y) (hk : ∀ r, Mirrors ρ ψ (k r) (l r)) :
    Mirrors ρ ψ (if c then k () else x >>= k) (if c then l () else y >>= l) :=
  ite (hk ()) (hx.bind hk)

end Mirrors

/-! ### Types of members and calls -/

section Members

variable {φ : α → α}

/-- A complaint is the same on both sides. -/
theorem mirrors_reject (token : Token) (fault : Fault) :
    Mirrors ρ φ (reject token fault) (reject token fault) :=
  .throw _

/-- A question has corresponding answers if the mirrored state gives the renamed one. -/
theorem mirrors_answer {q q' : Checker → Option α}
    (h : ∀ {s s'}, Mirror ρ s s' → q' s' = (q s).map φ) :
    Mirrors ρ φ (answer q) (answer q') := by
  refine .getBind fun {s s'} hs => ?_
  rw [h hs]
  cases q s with
  | none => exact .throw _
  | some a => exact .pure rfl

/-- A type and its renamed self have one text. -/
theorem mirrors_text (t : Ty) : Mirrors ρ id (text t) (text (t.rename ρ)) :=
  mirrors_answer fun hs => by
    rw [Option.map_id]
    exact hs.typeText? (some t)

/-- Renaming goes through the more general type of two. -/
theorem mirrors_unify (a b : Ty) :
    Mirrors ρ (Option.map (Option.map (Ty.rename ρ))) (answer (·.unify? (some a) (some b)))
      (answer (·.unify? (some (a.rename ρ)) (some (b.rename ρ)))) :=
  mirrors_answer fun hs => hs.unify? (some a) (some b)

/-- Whether a type may be passed does not depend on numbers. -/
theorem mirrors_assignable (param arg : Ty) :
    Mirrors ρ id (answer (·.assignable? (some param) (some arg)))
      (answer (·.assignable? (some (param.rename ρ)) (some (arg.rename ρ)))) :=
  mirrors_answer fun hs => by rw [Option.map_id, id_eq, hs.assignable?]

/-- A rejection whose text names a type. -/
theorem mirrors_complain (token : Token) (t : Ty) (fault : String → Fault) :
    Mirrors ρ φ (do reject token (fault (← text t)))
      (do reject token (fault (← text (t.rename ρ)))) :=
  (mirrors_text t).bind fun _ => mirrors_reject ..

/-- A rejection whose text names two types. -/
theorem mirrors_clash (token : Token) (t u : Ty) (fault : String → String → Fault) :
    Mirrors ρ φ (do reject token (fault (← text t) (← text u)))
      (do reject token (fault (← text (t.rename ρ)) (← text (u.rename ρ)))) :=
  (mirrors_text t).bind fun _ => (mirrors_text u).bind fun _ => mirrors_reject ..

/-- A node gets the renamed type. -/
theorem mirrors_record (id : NodeId) (t : Ty) :
    Mirrors ρ (Ty.rename ρ) (record id t) (record id (t.rename ρ)) :=
  (Mirrors.change fun hs => hs.withNotes ..).bind fun _ => .pure rfl

/-- A node with a native type. -/
theorem mirrors_recordNative (id : NodeId) (c : NativeClass) :
    Mirrors ρ (Ty.rename ρ) (record id (builtin c)) (record id (builtin c)) := by
  have h := mirrors_record (ρ := ρ) id (builtin c)
  rw [rename_builtin] at h
  exact h

/-- A use of a name is noted in the same way. -/
theorem mirrors_noteUse (id : NodeId) (name : String) :
    Mirrors ρ (fun u => u) (noteUse id name) (noteUse id name) :=
  .change fun hs => hs.withNotes ..

/-- A declared type is found under its name, and renamed. -/
theorem mirrors_declaredType (token : Token) :
    Mirrors ρ (Ty.rename ρ) (declaredType token) (declaredType token) := by
  refine .getBind fun {s s'} hs => ?_
  have hnamed : named? ((lookup? s' token.lexeme).map Prod.snd) token.lexeme =
      (named? ((lookup? s token.lexeme).map Prod.snd) token.lexeme).map (Ty.rename ρ) := by
    rw [← Mirror.named?_rename, hs.lookup?, Option.map_map, Option.map_map]
    rfl
  rw [hnamed]
  cases named? ((lookup? s token.lexeme).map Prod.snd) token.lexeme with
  | none => exact mirrors_reject ..
  | some t => exact .pure rfl

/-- A function that is made gets the renamed number. -/
theorem mirrors_newSignature (sig : Signature) :
    Mirrors ρ ρ.sig (newSignature sig) (newSignature (sig.rename ρ)) where
  run {s s'} hs := by
    have hplace : s'.signatures.size = ρ.sig s.signatures.size := hs.signatures.place_size.symm
    change Alike ρ ρ.sig (.ok s.signatures.size _) (.ok s'.signatures.size _)
    rw [hplace]
    exact .ok ⟨hs.signatures.push ρ.sig_injective rfl, hs.bodies, hs.globals, hs.locals, hs.context,
      hs.nativeMethods⟩

/-- A native method is noted under the renamed number. -/
theorem lookup_natives (natives : List (Operation × SignatureId)) (op : Operation) :
    (natives.map fun (op, f) => (op, ρ.sig f)).lookup op = (natives.lookup op).map ρ.sig := by
  induction natives with
  | nil => rfl
  | cons n rest ih =>
    obtain ⟨op', f⟩ := n
    rw [List.map_cons, List.lookup_cons, List.lookup_cons, ih]
    cases op == op' <;> rfl

/-- A native method has the renamed type. -/
theorem mirrors_nativeMethod (m : NativeMethod) :
    Mirrors ρ (Ty.rename ρ) (nativeMethod m) (nativeMethod m) := by
  refine .getBind fun {s s'} hs => ?_
  rw [hs.nativeMethods, lookup_natives]
  cases s.nativeMethods.lookup m.operation with
  | some f => exact .pure rfl
  | none =>
    -- Its signature is made of global types, which are the renamed ones.
    have hsig : nativeMethodSignature s' m = (nativeMethodSignature s m).rename ρ := by
      unfold nativeMethodSignature
      rw [hs.nativeSignature]
      simp only [Signature.rename, hs.globalType, List.map_map]
      rfl
    show Mirrors ρ (Ty.rename ρ)
      (newSignature (nativeMethodSignature s m) >>= _)
      (newSignature (nativeMethodSignature s' m) >>= _)
    rw [hsig]
    -- The new function is kept for the method in both states.
    refine (mirrors_newSignature _).bind fun f => ?_
    refine (Mirrors.change fun hs => ?_).bind fun _ => .pure rfl
    refine ⟨hs.signatures, hs.bodies, hs.globals, hs.locals, hs.context, ?_⟩
    simp only [hs.nativeMethods, List.map_cons]

/-- So has a member that all objects have. -/
theorem mirrors_objectMember (t : Ty) (name : Token) :
    Mirrors ρ (Ty.rename ρ) (objectMember t name) (objectMember (t.rename ρ) name) := by
  unfold objectMember
  cases NativeClass.object.ownMethod? name.lexeme with
  | some m => exact mirrors_nativeMethod m
  | none => exact mirrors_complain name t (.undefinedProperty name.lexeme)

/-- So has a member of a type. -/
theorem mirrors_member (t : Ty) (name : Token) :
    Mirrors ρ (Ty.rename ρ) (member t name) (member (t.rename ρ) name) := by
  unfold member
  rw [isObject_some_rename]
  refine .ite (.pure rename_objectType.symm) ?_
  cases t with
  | «class» c => exact mirrors_objectMember (.class c) name
  | function f => exact mirrors_objectMember (.function f) name
  | «instance» c =>
    dsimp only [Ty.rename]
    -- What is native is not renamed, so both sides take the same way.
    rw [ClassType.rename_native?]
    cases c.native? with
    | some n =>
      dsimp only
      cases n.method? name.lexeme with
      | some m => exact mirrors_nativeMethod m
      | none =>
        cases n.property? name.lexeme with
        | some p => exact .getBind fun hs => .pure (hs.globalType p.returns)
        | none => exact mirrors_objectMember (.instance c) name
    | none =>
      -- The lookups follow the renamed superclasses, and find the renamed members.
      refine .getBind fun {s s'} hs => ?_
      rw [hs.attributes.lookup]
      cases s.attributes.lookup name.lexeme c with
      | found a depth => exact .pure rfl
      | ambiguous branches => exact mirrors_reject ..
      | absent =>
        refine .getBind fun {s s'} hs => ?_
        rw [hs.methods.lookup]
        cases s.methods.lookup name.lexeme c with
        | found f depth => exact .pure rfl
        | ambiguous branches => exact mirrors_reject ..
        | absent => exact mirrors_objectMember (.instance c) name

/-- An attribute gets the renamed type. -/
theorem mirrors_putAttribute (c : ClassType) (name : String) (t : Ty) :
    Mirrors ρ id (putAttribute c name t) (putAttribute (c.rename ρ) name (t.rename ρ)) :=
  .change fun hs => hs.modifyBody c fun _ _ hb => hb.insertAttribute name t

/-- A class has a field of its own if its picture does. -/
theorem contains_attribute {s s' : Checker} (hs : Mirror ρ s s') (c : ClassType) (name : String) :
    (s'.body (c.rename ρ)).attributes.contains name = (s.body c).attributes.contains name := by
  rw [Std.TreeMap.contains_eq_isSome_getElem?, Std.TreeMap.contains_eq_isSome_getElem?,
    (hs.body c).attributes, Option.isSome_map]

/-- An assignment to an attribute has the same effect on the renamed class. -/
theorem mirrors_setAttribute (t : Ty) (name : Token) (value : Ty) :
    Mirrors ρ id (setAttribute t name value)
      (setAttribute (t.rename ρ) name (value.rename ρ)) := by
  unfold setAttribute
  rw [isObject_some_rename]
  refine .ite (.pure rfl) ?_
  cases t with
  | «class» c => exact mirrors_reject ..
  | function f => exact mirrors_reject ..
  | «instance» c =>
    dsimp only [Ty.rename]
    rw [ClassType.rename_native?]
    refine .guard (mirrors_reject ..) fun _ => .getBind fun {s s'} hs => ?_
    rw [hs.attributes.lookup]
    cases s.attributes.lookup name.lexeme c with
    | ambiguous branches => exact mirrors_reject ..
    | absent => exact mirrors_putAttribute c name.lexeme value
    | found existing depth =>
      refine (mirrors_unify existing value).bind fun u => ?_
      cases u with
      | none => exact mirrors_clash name existing value .redefinedAttribute
      | some u =>
        refine .getBind fun {s s'} hs => ?_
        rw [contains_attribute hs]
        refine .ite ?_ (.pure rfl)
        -- What is put in is the common type, or what was there.
        have hu : (u.map (Ty.rename ρ)).getD (existing.rename ρ) =
            (u.getD existing).rename ρ := by
          cases u <;> rfl
        rw [hu]
        exact mirrors_putAttribute c name.lexeme (u.getD existing)

/-- A named argument with its type renamed. -/
def renameNamed (ρ : Renaming) (named : List (Token × Ty)) : List (Token × Ty) :=
  named.map fun (name, t) => (name, t.rename ρ)

/-- An argument fits a renamed parameter as it fits the parameter. -/
theorem mirrors_argument (site : Token) (sig : Signature) (p : Nat) (arg : Ty) :
    Mirrors ρ id (argument site sig p arg) (argument site (sig.rename ρ) p (arg.rename ρ)) := by
  unfold argument
  have hwant : (sig.rename ρ).paramTypes[p]? = sig.paramTypes[p]?.map (Ty.rename ρ) :=
    List.getElem?_map
  have hparam : (sig.rename ρ).params[p]? = sig.params[p]? := rfl
  rw [hwant, hparam]
  cases sig.paramTypes[p]? with
  | none => exact .throw _
  | some want =>
    cases sig.params[p]? with
    | none => exact .throw _
    | some param =>
      refine (mirrors_assignable want arg).bind fun fits => .ite (.pure rfl) ?_
      exact mirrors_clash site want arg fun want got =>
        .badArgument want param.name.lexeme sig.name got

/-- So do arguments in order. -/
theorem mirrors_positional (site : Token) (sig : Signature) (i : Nat) (args : List Ty)
    (given : List Nat) :
    Mirrors ρ id (positional site sig i args given)
      (positional site (sig.rename ρ) i (args.map (Ty.rename ρ)) given) := by
  induction args generalizing i given with
  | nil => exact .pure rfl
  | cons arg rest ih => exact (mirrors_argument ..).bind fun _ => ih ..

/-- So do named arguments. -/
theorem mirrors_byName (sig : Signature) (named : List (Token × Ty)) (given : List Nat) :
    Mirrors ρ id (byName sig named given) (byName (sig.rename ρ) (renameNamed ρ named) given) := by
  induction named generalizing given with
  | nil => exact .pure rfl
  | cons a rest ih =>
    obtain ⟨name, arg⟩ := a
    have hparams : (sig.rename ρ).params = sig.params := rfl
    unfold renameNamed at *
    rw [List.map_cons]
    unfold byName
    rw [hparams]
    -- The parameters are not renamed, so a name stands for the same one.
    cases paramIndex? sig.params name.lexeme with
    | none => exact mirrors_reject ..
    | some p =>
      refine .guard (mirrors_reject ..) fun _ => .guard (mirrors_reject ..) fun _ => ?_
      exact (mirrors_argument ..).bind fun _ => ih _

/-- So do all arguments. -/
theorem mirrors_arguments (site : Token) (sig : Signature) (args : List Ty)
    (named : List (Token × Ty)) :
    Mirrors ρ id (arguments site sig args named)
      (arguments site (sig.rename ρ) (args.map (Ty.rename ρ)) (renameNamed ρ named)) := by
  have hnamed : (renameNamed ρ named).length = named.length := List.length_map ..
  have hparams : (sig.rename ρ).params = sig.params := rfl
  unfold arguments
  rw [List.length_map, hnamed, hparams]
  refine .guardNot (mirrors_reject ..) fun _ => ?_
  refine (mirrors_positional ..).bind fun _ => (mirrors_byName ..).bind fun given => ?_
  dsimp only [id_eq]
  split
  · exact mirrors_reject ..
  · exact .pure rfl

/-- The constructor of the renamed class has the renamed signature. -/
theorem mirrors_constructor (site : Token) (c : ClassType) :
    Mirrors ρ (Signature.rename ρ) (constructor site c) (constructor site (c.rename ρ)) := by
  unfold constructor
  rw [ClassType.rename_native?, ClassType.rename_name]
  -- The constructor of a native class is fixed, and that of another one is looked up.
  cases c.native? with
  | some n =>
    dsimp only
    cases n.constructor? with
    | none => exact mirrors_reject ..
    | some params => exact .getBind fun hs => .pure (hs.nativeSignature ..)
  | none =>
    refine .getBind fun {s s'} hs => ?_
    rw [hs.methods.lookup]
    cases s.methods.lookup "init" c with
    | found f depth => exact .getBind fun hs => .pure (hs.signature f)
    | ambiguous branches => exact mirrors_reject ..
    | absent => exact .pure rfl

/-- The results of a native method by the class of its argument are renamed. -/
theorem lookup_returnsByArg (results : List (String × Ty)) (name : String) :
    (results.map fun (arg, t) => (arg, t.rename ρ)).lookup name =
      (results.lookup name).map (Ty.rename ρ) := by
  induction results with
  | nil => rfl
  | cons r rest ih =>
    obtain ⟨arg, t⟩ := r
    rw [List.map_cons, List.lookup_cons, List.lookup_cons, ih]
    cases name == arg <;> rfl

/-- A call has the renamed result. -/
theorem mirrors_callType (site : Token) (callee : Ty) (args : List Ty)
    (named : List (Token × Ty)) :
    Mirrors ρ (Ty.rename ρ) (callType site callee args named)
      (callType site (callee.rename ρ) (args.map (Ty.rename ρ)) (renameNamed ρ named)) := by
  unfold callType
  rw [isObject_some_rename]
  refine .ite (.pure rename_objectType.symm) ?_
  cases callee with
  | «instance» c => exact mirrors_reject ..
  | «class» c =>
    refine (mirrors_constructor site c).bind fun sig => ?_
    exact (mirrors_arguments site sig args named).bind fun _ => .pure rfl
  | function f =>
    refine .getBind fun {s s'} hs => ?_
    rw [hs.signature]
    refine (mirrors_arguments site (s.signature f) args named).bind fun _ => .pure ?_
    generalize s.signature f = sig
    -- Returns are found by the name of a class, which is kept.
    have hreturns : ∀ byArg : Option Ty,
        ((byArg.map (Ty.rename ρ)) <|> (sig.rename ρ).returns).getD objectType =
          ((byArg <|> sig.returns).getD objectType).rename ρ := by
      intro byArg
      cases byArg with
      | some t => rfl
      | none =>
        unfold Signature.rename
        cases sig.returns with
        | some t => rfl
        | none => exact rename_objectType.symm
    rcases args with _ | ⟨c | c | g, rest⟩
    · exact hreturns none
    · simp only [List.map_cons, Ty.rename, ClassType.rename_name]
      have hbyArg : (sig.rename ρ).returnsByArg.lookup c.name =
          (sig.returnsByArg.lookup c.name).map (Ty.rename ρ) := lookup_returnsByArg ..
      rw [hbyArg]
      exact hreturns _
    · exact hreturns none
    · exact hreturns none

/-- A member is looked for first; what follows starts where that ended. -/
theorem mirrors_send (site : Token) (receiver : Ty) (name : String) (args : List Ty) :
    Mirrors ρ (Ty.rename ρ) (send site receiver name args)
      (send site (receiver.rename ρ) name (args.map (Ty.rename ρ))) where
  run {s s'} hs := by
    have hmember := (mirrors_member receiver { site with lexeme := name }).run hs
    rw [send_apply, send_apply]
    generalize member receiver { site with lexeme := name } s = r at hmember ⊢
    generalize member (receiver.rename ρ) { site with lexeme := name } s' = r' at hmember ⊢
    cases hmember with
    | ok h => exact (mirrors_callType site _ args []).run h
    | @error e _ _ h => cases e <;> exact .error h

/-- A member of superclasses has the renamed type. -/
theorem mirrors_superNamed (c : ClassType) (name : String) (keyword : Token) :
    Mirrors ρ (Ty.rename ρ) (superNamed c.supers name keyword)
      (superNamed (c.rename ρ).supers name keyword) := by
  refine .getBind fun {s s'} hs => ?_
  rw [ClassType.rename_supers, hs.methods.lookupSupers]
  cases s.methods.lookupSupers name c.supers with
  | found f depth => exact .pure rfl
  | ambiguous branches => exact mirrors_reject ..
  | absent =>
    dsimp only [Lookup.map]
    cases NativeClass.object.ownMethod? name with
    | some m => exact mirrors_nativeMethod m
    | none => exact mirrors_reject ..

/-- So has a member that is reached through `super`. -/
theorem mirrors_superType (keyword : Token) (method : Option Token) :
    Mirrors ρ (Ty.rename ρ) (superType keyword method) (superType keyword method) := by
  refine .getBind fun {s s'} hs => ?_
  rw [hs.context]
  cases s.context with
  | none => exact .pure rename_objectType.symm
  | some context =>
    obtain ⟨returns, isInitializer, home, enclosing, around⟩ := context
    cases around with
    | none => exact .pure rename_objectType.symm
    | some c =>
      cases enclosing with
      | none => exact mirrors_superNamed c _ keyword
      | some f =>
        -- The superclasses are asked behind the mark, which leaves them as they are.
        refine .bind (.change fun hs => ?_) fun _ => mirrors_superNamed c _ keyword
        exact hs.modifySignature f fun _ => rfl

/-! ### Types of expressions -/

/-- The types of literals are native, and no renaming touches them. -/
theorem rename_literalType (value : Literal) : (literalType value).rename ρ = literalType value := by
  cases value <;> exact rename_builtin _

/-- An operator has the renamed result. -/
theorem mirrors_binaryType (op : Token) (left right : Ty) :
    Mirrors ρ (Ty.rename ρ) (binaryType op left right)
      (binaryType op (left.rename ρ) (right.rename ρ)) := by
  refine (mirrors_send op left (operatorMethod op.kind) [right]).bind fun result => .pure ?_
  split
  · exact (rename_builtin .bool).symm
  · rfl

/-- Both sides together have the renamed type. -/
theorem mirrors_logicalType (left right : Ty) :
    Mirrors ρ (Ty.rename ρ) (logicalType left right)
      (logicalType (left.rename ρ) (right.rename ρ)) := by
  refine (mirrors_unify left right).bind fun u => .pure ?_
  rcases u with _ | _ | t
  · exact rename_objectType.symm
  · exact rename_objectType.symm
  · rfl

/-- A name in use has the renamed type. -/
theorem mirrors_useVariable (use : NameUse) :
    Mirrors ρ (Ty.rename ρ) (useVariable use) (useVariable use) := by
  refine (mirrors_noteUse ..).bind fun _ => .getBind fun hs => ?_
  rw [hs.variableType]
  exact mirrors_record ..

/-- A name is defined in the corresponding scope. -/
theorem modify_scopes (locals : List StaticScope) (i : Nat) (name : String) (t : Option Ty) :
    ((locals.map (StaticScope.rename ρ)).modify i fun sc =>
        { sc with vars := (name, t.map (Ty.rename ρ)) :: sc.vars }) =
      (locals.modify i fun sc => { sc with vars := (name, t) :: sc.vars }).map
        (StaticScope.rename ρ) := by
  induction locals generalizing i with
  | nil => cases i <;> rfl
  | cons sc rest ih =>
    cases i with
    | zero => rfl
    | succ i => exact congrArg (sc.rename ρ :: ·) (ih i)

/-- A name is given the renamed type in the same scope. -/
theorem mirrors_defineAt (place : Place) (name : String) (t : Option Ty) :
    Mirrors ρ id (defineAt place name t) (defineAt place name (t.map (Ty.rename ρ))) := by
  refine .change fun {s s'} hs => ?_
  cases place with
  | «local» i =>
    refine hs.withLocals ?_
    rw [hs.locals]
    exact modify_scopes ..
  | global =>
    refine ⟨hs.signatures, hs.bodies, fun x => ?_, hs.locals, hs.context, hs.nativeMethods⟩
    simp only [Std.TreeMap.getElem?_insert, hs.globals]
    split <;> rfl

/-- A name is given the renamed type. -/
theorem mirrors_define (name : String) (t : Option Ty) :
    Mirrors ρ id (define name t) (define name (t.map (Ty.rename ρ))) := by
  refine .getBind fun hs => ?_
  rw [hs.locals, List.isEmpty_map]
  exact mirrors_defineAt ..

/-- An assignment gives a name the renamed type. -/
theorem mirrors_assign (name : Token) (value : Ty) :
    Mirrors ρ id (assign name value) (assign name (value.rename ρ)) := by
  refine .getBind fun {s s'} hs => ?_
  rw [hs.lookup?]
  rcases lookup? s name.lexeme with _ | ⟨place, _ | existing⟩
  · exact mirrors_defineAt .global name.lexeme (some value)
  · exact mirrors_defineAt place name.lexeme (some value)
  · refine (mirrors_unify existing value).bind fun u => ?_
    cases u with
    | none => exact mirrors_clash name existing value .redefinedVariable
    | some u => exact mirrors_defineAt place name.lexeme u

/-- The elements that a loop runs over have the renamed type. -/
theorem mirrors_elementType (keyword : Token) (t : Ty) :
    Mirrors ρ (Ty.rename ρ) (elementType keyword t) (elementType keyword (t.rename ρ)) := by
  unfold elementType
  rw [isObject_some_rename]
  refine .ite (.pure rename_objectType.symm) ?_
  cases t with
  | «class» c => exact mirrors_complain keyword (.class c) .notIterable
  | function f => exact mirrors_complain keyword (.function f) .notIterable
  | «instance» c =>
    dsimp only [Ty.rename]
    rw [ClassType.rename_native?, ClassType.rename_name]
    -- A native class says what its elements are; another one needs a method for it.
    cases c.native? with
    | some n =>
      dsimp only
      cases n.method? "iterate" with
      | some m => exact .getBind fun hs => .pure (hs.globalType n.elements)
      | none => exact mirrors_reject ..
    | none =>
      refine .getBind fun {s s'} hs => ?_
      rw [hs.methods.lookup]
      cases s.methods.lookup "iterate" c with
      | found f depth => exact .pure rename_objectType.symm
      | ambiguous branches => exact mirrors_reject ..
      | absent => exact mirrors_reject ..

/-- A return is noted with the renamed type. -/
theorem mirrors_noteReturn (keyword : Token) (t : Ty) :
    Mirrors ρ id (noteReturn keyword t) (noteReturn keyword (t.rename ρ)) := by
  refine .change fun {s s'} hs => hs.withContext ?_
  rw [hs.context]
  cases s.context <;> rfl

/-- The returns of a function have the renamed type in common, or clash in the same way. -/
theorem mirrors_settle (name : String) (ret : Ty) (rest : List (Ty × Token)) :
    Mirrors ρ (Ty.rename ρ) (settle name ret rest)
      (settle name (ret.rename ρ) (rest.map fun (t, keyword) => (t.rename ρ, keyword))) := by
  -- On the returns, with the common type so far.
  induction rest generalizing ret with
  | nil => exact .pure rfl
  | cons r rest ih =>
    obtain ⟨t, keyword⟩ := r
    refine (mirrors_unify ret t).bind fun u => ?_
    cases u with
    | none => exact mirrors_clash keyword ret t (.multipleReturns name)
    | some u =>
      have hu : (u.map (Ty.rename ρ)).getD (ret.rename ρ) = (u.getD ret).rename ρ := by
        cases u <;> rfl
      change Mirrors ρ (Ty.rename ρ) (settle name (u.getD ret) rest)
        (settle name ((u.map (Ty.rename ρ)).getD (ret.rename ρ)) _)
      rw [hu]
      exact ih _

/-- So they have if there are any; a function without returns gives nothing. -/
theorem mirrors_results (name : String) (results : List (Ty × Token)) :
    Mirrors ρ (Ty.rename ρ)
      (match results.reverse with
      | [] => Pure.pure (builtin .nil)
      | (t, _) :: rest => settle name t rest)
      (match (results.map fun (t, keyword) => (t.rename ρ, keyword)).reverse with
      | [] => Pure.pure (builtin .nil)
      | (t, _) :: rest => settle name t rest) := by
  rw [← List.map_reverse]
  rcases results.reverse with _ | ⟨⟨t, keyword⟩, rest⟩
  · exact .pure (rename_builtin .nil).symm
  · exact mirrors_settle name t rest

/-- The result of a function is renamed. -/
theorem mirrors_resultType (name : String) (c : Context) :
    Mirrors ρ (Ty.rename ρ) (resultType name c) (resultType name (c.rename ρ)) := by
  obtain ⟨returns, isInitializer, home, enclosing, around⟩ := c
  unfold resultType Context.rename
  cases isInitializer with
  | false => exact mirrors_results name returns
  | true =>
    cases around with
    | none => exact mirrors_results name returns
    | some c => exact .pure rfl

/-! ### Functions and classes -/

/-- A renamed scope goes around the mirrored step. -/
theorem mirrors_inScope {x y : Check α} (scope : StaticScope) (h : Mirrors ρ φ x y) :
    Mirrors ρ φ (inScope scope x) (inScope (scope.rename ρ) y) := by
  refine .bind (φ := id) (.change fun hs => hs.withLocals ?_) fun _ => h.bind fun a => ?_
  · rw [hs.locals, List.map_cons]
  · refine .bind (φ := id) (.change fun hs => hs.withLocals ?_) fun _ => .pure rfl
    rw [hs.locals, List.map_tail]

/-- The names of parameters have the renamed types. -/
theorem paramVars_rename (params : List Param) (types : List Ty) :
    paramVars params (types.map (Ty.rename ρ)) = (paramVars params types).map (renameVars ρ) := by
  induction params generalizing types with
  | nil => rfl
  | cons p rest ih =>
    unfold paramVars
    split
    · -- The type of a variadic parameter is native and stays what it is.
      rw [← List.map_tail, ih]
      cases paramVars rest types.tail with
      | none => rfl
      | some vars =>
        change some ((p.name.lexeme, some (builtin .varargs)) :: renameVars ρ vars) =
          some ((p.name.lexeme, some ((builtin .varargs).rename ρ)) :: renameVars ρ vars)
        rw [rename_builtin]
    · cases types with
      | nil => rfl
      | cons t ts =>
        rw [List.map_cons]
        dsimp only
        rw [ih]
        cases paramVars rest ts <;> rfl

/-- The body of a function is checked for the renamed function. -/
theorem mirrors_functionBody (id : NodeId) (params : List Param) (f : SignatureId)
    (context : Context) {body body' : Check Unit} (hb : Mirrors ρ (fun u => u) body body') :
    Mirrors ρ (fun u => u) (functionBody id params f context body)
      (functionBody id params (ρ.sig f) (context.rename ρ) body') := by
  refine .getBind fun {s s'} hs => ?_
  dsimp only
  -- The scope of the renamed body has the same names with the renamed types.
  have hvars : paramVars params (s'.signature (ρ.sig f)).paramTypes =
      (paramVars params (s.signature f).paramTypes).map (renameVars ρ) := by
    rw [hs.signature, ← paramVars_rename]
    rfl
  have hname : (s'.signature (ρ.sig f)).name = (s.signature f).name := by
    rw [hs.signature]
    rfl
  rw [hvars, hname]
  cases paramVars params (s.signature f).paramTypes with
  | none => exact .throw _
  | some vars =>
    refine .getBind fun {s s'} houter => ?_
    refine .bind (.change fun hs => hs.withContext (by rfl)) fun _ => ?_
    have hscope : StaticScope.rename ρ { origin := .call id, vars := vars.reverse } =
        { origin := .call id, vars := (renameVars ρ vars).reverse } := by
      unfold StaticScope.rename renameVars
      rw [List.map_reverse]
    rw [← hscope]
    refine (mirrors_inScope _ hb).bind fun _ => .getBind fun {s s'} hs => ?_
    -- The context at the end is the one the body left, or the one it was entered with.
    have hinner : s'.context.getD (context.rename ρ) = (s.context.getD context).rename ρ := by
      rw [hs.context]
      cases s.context <;> rfl
    rw [hinner]
    refine (mirrors_resultType _ _).bind fun result => .change fun hs => ?_
    have hsettled := hs.modifySignature f (u := ({ · with returns := some result }))
      (v := ({ · with returns := some (result.rename ρ) })) fun _ => rfl
    exact hsettled.withContext houter.context

/-- A method is put in under the renamed number. -/
theorem mirrors_putMember (c : ClassType) (name : String) (f : SignatureId) :
    Mirrors ρ id (putMember c name f) (putMember (c.rename ρ) name (ρ.sig f)) :=
  .change fun hs => hs.modifyBody c fun _ _ hb => hb.insertMember name f

/-- A class that is made gets the renamed number. -/
theorem mirrors_newClass (name : String) (supers : List ClassType) :
    Mirrors ρ (ClassType.rename ρ) (newClass name supers)
      (newClass name (supers.map (ClassType.rename ρ))) where
  run {s s'} hs := by
    have hplace : s'.bodies.size = ρ.cls s.bodies.size := hs.bodies.place_size.symm
    have hclass : (⟨s'.bodies.size, name, supers.map (ClassType.rename ρ), none⟩ : ClassType) =
        ClassType.rename ρ ⟨s.bodies.size, name, supers, none⟩ := by
      rw [ClassType.rename, ClassType.renameAll_eq, hplace]
    change Alike ρ _ (.ok (⟨s.bodies.size, name, supers, none⟩ : ClassType) _) (.ok _ _)
    rw [hclass]
    exact .ok ⟨hs.signatures, hs.bodies.push ρ.cls_injective .empty, hs.globals, hs.locals,
      hs.context, hs.nativeMethods⟩

/-- The superclasses of a declaration are renamed. -/
theorem mirrors_superclasses (supers : List NameUse) :
    Mirrors ρ (List.map (ClassType.rename ρ)) (superclasses supers) (superclasses supers) := by
  induction supers with
  | nil => exact .pure rfl
  | cons use rest ih =>
    refine (mirrors_useVariable use).bind fun t => ?_
    cases t with
    | «instance» c => exact mirrors_reject ..
    | function f => exact mirrors_reject ..
    | «class» c =>
      dsimp only [Ty.rename]
      rw [ClassType.rename_native?]
      exact .guard (mirrors_reject ..) fun _ => ih.bind fun _ => .pure rfl

/-! ### Expressions and statements -/

mutual

/-- Expressions have the renamed types. -/
theorem mirrors_expr : ∀ e : Expr, Mirrors ρ (Ty.rename ρ) (expr e) (expr e)
  | .literal id token value => by
    -- The types of literals are native, and not renamed.
    have h := mirrors_record (ρ := ρ) id (literalType value)
    rw [rename_literalType] at h
    exact h
  | .group id paren inner => (mirrors_expr inner).bind fun _ => mirrors_record ..
  | .list id bracket elements =>
    (mirrors_exprs elements).bind fun _ => mirrors_recordNative id .list
  | .var use => mirrors_useVariable use
  | .self id keyword => by
    refine .getBind fun hs => ?_
    rw [hs.selfType]
    exact mirrors_record ..
  | .assign id name value =>
    (mirrors_expr value).bind fun t => (mirrors_noteUse id name.lexeme).bind fun _ =>
      (mirrors_assign name t).bind fun _ => mirrors_record id t
  | .super id keyword method => (mirrors_superType keyword method).bind fun _ => mirrors_record ..
  | .unary id op right =>
    (mirrors_expr right).bind fun t => (mirrors_send op t _ []).bind fun _ => mirrors_record ..
  | .binary id left op right =>
    (mirrors_expr left).bind fun l => (mirrors_expr right).bind fun r =>
      (mirrors_binaryType op l r).bind fun _ => mirrors_record ..
  | .logical id left op right =>
    (mirrors_expr left).bind fun l => (mirrors_expr right).bind fun r =>
      (mirrors_logicalType l r).bind fun _ => mirrors_record ..
  | .call id callee paren args named =>
    (mirrors_expr callee).bind fun fn => (mirrors_exprs args).bind fun ts =>
      (mirrors_namedArgs named).bind fun ns =>
        (mirrors_callType paren fn ts ns).bind fun _ => mirrors_record ..
  | .get id object name =>
    (mirrors_expr object).bind fun t => (mirrors_member t name).bind fun _ => mirrors_record ..
  | .set id object name value =>
    (mirrors_expr object).bind fun t => (mirrors_expr value).bind fun v =>
      (mirrors_setAttribute t name v).bind fun _ => mirrors_record id v
  | .lambda ⟨id, keyword, name, params, body⟩ => by
    refine (mirrors_paramTypes params).bind fun types => ?_
    refine (mirrors_newSignature _).bind fun f => .getBind fun hs => ?_
    rw [hs.childContext]
    refine (mirrors_functionBody id params f _ (mirrors_stmts body)).bind fun _ => ?_
    exact mirrors_record id (.function f)

/-- So have expressions in a row. -/
theorem mirrors_exprs : ∀ es : List Expr,
    Mirrors ρ (List.map (Ty.rename ρ)) (exprs es) (exprs es)
  | [] => .pure rfl
  | e :: rest => (mirrors_expr e).bind fun _ => (mirrors_exprs rest).bind fun _ => .pure rfl

/-- So have named arguments. -/
theorem mirrors_namedArgs : ∀ args : List NamedArg,
    Mirrors ρ (renameNamed ρ) (namedArgs args) (namedArgs args)
  | [] => .pure rfl
  | ⟨_, value⟩ :: rest =>
    (mirrors_expr value).bind fun _ => (mirrors_namedArgs rest).bind fun _ => .pure rfl

/-- So have parameters. -/
theorem mirrors_paramTypes : ∀ params : List Param,
    Mirrors ρ (List.map (Ty.rename ρ)) (paramTypes params) (paramTypes params)
  | [] => .pure rfl
  | ⟨type, _, none, _⟩ :: rest =>
    (mirrors_declaredType type).bind fun _ => (mirrors_paramTypes rest).bind fun _ => .pure rfl
  | ⟨type, name, some value, _⟩ :: rest => by
    refine (mirrors_declaredType type).bind fun t => (mirrors_expr value).bind fun d => ?_
    have hrest : Mirrors ρ (List.map (Ty.rename ρ)) (do return t :: (← paramTypes rest))
        (do return t.rename ρ :: (← paramTypes rest)) :=
      (mirrors_paramTypes rest).bind fun _ => .pure rfl
    refine (mirrors_assignable t d).bind fun fits => .ite hrest ?_
    exact (mirrors_text t).bind fun _ => (mirrors_text d).bind fun _ =>
      (mirrors_reject (φ := id) ..).bind fun _ => hrest

/-- Methods are declared in the renamed class. -/
theorem mirrors_declareMethods (c : ClassType) : ∀ methods : List Lambda,
    Mirrors ρ id (declareMethods c methods) (declareMethods (c.rename ρ) methods)
  | [] => .pure rfl
  | ⟨id, keyword, name, params, body⟩ :: rest => by
    refine (mirrors_paramTypes params).bind fun types => ?_
    refine (mirrors_newSignature _).bind fun f => (mirrors_putMember c _ f).bind fun _ => ?_
    refine (mirrors_record id (.function f)).bind fun _ => ?_
    exact mirrors_declareMethods c rest

/-- The body of a method is checked in the renamed class. -/
theorem mirrors_methodBody (c : ClassType) : ∀ fn : Lambda,
    Mirrors ρ id (methodBody c fn) (methodBody (c.rename ρ) fn)
  | ⟨id, keyword, name, params, body⟩ => by
    refine .getBind fun {s s'} hs => ?_
    rw [(hs.body c).members]
    cases (s.body c).members[(name.map Token.lexeme).getD "lambda"]? with
    | none => exact .throw _
    | some f => exact mirrors_functionBody id params f _ (mirrors_stmts body)

/-- So are the bodies of the initializers. -/
theorem mirrors_initializerBodies (c : ClassType) : ∀ methods : List Lambda,
    Mirrors ρ id (initializerBodies c methods) (initializerBodies (c.rename ρ) methods)
  | [] => .pure rfl
  | fn :: rest =>
    (mirrors_initializerBodies c rest).bind fun _ => .ite (mirrors_methodBody c fn) (.pure rfl)

/-- So are the bodies of the other methods. -/
theorem mirrors_otherBodies (c : ClassType) : ∀ methods : List Lambda,
    Mirrors ρ id (otherBodies c methods) (otherBodies (c.rename ρ) methods)
  | [] => .pure rfl
  | fn :: rest => .guard (mirrors_methodBody c fn) fun _ => mirrors_otherBodies c rest

/-- A block puts an empty scope around its statements, which no renaming touches. -/
theorem mirrors_block : ∀ b : Block, Mirrors ρ id (block b) (block b)
  | ⟨id, _, body⟩ =>
    (mirrors_recordNative id .nil).bind fun _ =>
      mirrors_inScope { origin := .block id } (mirrors_stmts body)

/-- Statements keep the states mirrors. -/
theorem mirrors_stmt : ∀ s : Stmt, Mirrors ρ id (stmt s) (stmt s)
  | .expr id value => (mirrors_expr value).bind fun _ => (mirrors_record ..).bind fun _ => .pure rfl
  | .varDecl id name none =>
    (mirrors_define name.lexeme none).bind fun _ =>
      (mirrors_recordNative id .nil).bind fun _ => .pure rfl
  | .varDecl id name (some value) =>
    (mirrors_expr value).bind fun t => (mirrors_define name.lexeme (some t)).bind fun _ =>
      (mirrors_record id t).bind fun _ => .pure rfl
  | .function id ⟨fid, keyword, name, params, body⟩ => by
    refine (mirrors_paramTypes params).bind fun types => ?_
    refine (mirrors_newSignature _).bind fun f => ?_
    refine (mirrors_define _ (some (.function f))).bind fun _ => ?_
    refine (mirrors_record id (.function f)).bind fun _ => .getBind fun hs => ?_
    rw [hs.childContext]
    exact mirrors_functionBody fid params f _ (mirrors_stmts body)
  | .classDecl id name supers methods => by
    refine (mirrors_superclasses supers).bind fun cs => (mirrors_newClass _ cs).bind fun c => ?_
    refine (mirrors_define _ (some (.class c))).bind fun _ => ?_
    refine (mirrors_record id (.class c)).bind fun _ => ?_
    -- Inside, `self` is an object of the renamed class.
    refine mirrors_inScope { origin := .receiver id, vars := [("self", some (.instance c))] } ?_
    exact (mirrors_declareMethods c methods).bind fun _ =>
      (mirrors_initializerBodies c methods).bind fun _ => mirrors_otherBodies c methods
  | .block b => mirrors_block b
  | .ifElse id keyword condition body none =>
    (mirrors_recordNative id .nil).bind fun _ =>
      (mirrors_expr condition).bind fun _ => mirrors_block body
  | .ifElse id keyword condition body (some otherwise) =>
    (mirrors_recordNative id .nil).bind fun _ => (mirrors_expr condition).bind fun _ =>
      (mirrors_block body).bind fun _ => mirrors_stmt otherwise
  | .whileLoop id keyword condition body =>
    (mirrors_recordNative id .nil).bind fun _ =>
      (mirrors_expr condition).bind fun _ => mirrors_block body
  | .forIn id keyword name iterable body => by
    refine (mirrors_recordNative id .nil).bind fun _ => (mirrors_expr iterable).bind fun t => ?_
    refine (mirrors_elementType keyword t).bind fun e => ?_
    refine mirrors_inScope { origin := .loop id, vars := [(name.lexeme, some e)] } ?_
    exact mirrors_block body
  | .ret id keyword none =>
    (mirrors_recordNative id .nil).bind fun t => mirrors_noteReturn keyword t
  | .ret id keyword (some value) =>
    (mirrors_expr value).bind fun _ =>
      (mirrors_record ..).bind fun t => mirrors_noteReturn keyword t

/-- So do statements in a row. -/
theorem mirrors_stmts : ∀ body : List Stmt, Mirrors ρ (fun u => u) (stmts body) (stmts body)
  | [] => .pure rfl
  | s :: rest => (mirrors_stmt s).bind fun _ => mirrors_stmts rest

end

end Members

end Check

/-! ### Programs -/

namespace Mirror

variable {ρ : Renaming} {s s' t t' : Checker}

/-- The global names are the same, in the same order, with the renamed types. -/
theorem toList_globals (h : Mirror ρ s s') :
    s'.globals.toList = s.globals.toList.map fun (name, t) => (name, t.map (Ty.rename ρ)) := by
  have hsame : s'.globals.Equiv (s.globals.map fun _ => Option.map (Ty.rename ρ)) := by
    refine .of_forall_constGet?_eq fun name => ?_
    rw [Std.TreeMap.getElem?_map]
    exact h.globals name
  rw [hsame.toList_eq, Std.TreeMap.toList_map]

/-- The fields of the global classes correspond. -/
theorem globalAttributes (h : Mirror ρ s s') :
    List.Forall₂ (fun p p' => p'.1 = ρ.cls p.1 ∧
        ∀ name : String, p'.2[name]? = p.2[name]?.map (Ty.rename ρ))
      s.globalAttributes s'.globalAttributes := by
  unfold Checker.globalAttributes
  rw [h.toList_globals]
  -- On the global names: which of them are classes of users does not change.
  induction s.globals.toList with
  | nil => exact .nil
  | cons g rest ih =>
    obtain ⟨name, t⟩ := g
    rw [List.map_cons, List.filterMap_cons, List.filterMap_cons]
    rcases t with _ | (c | c | f)
    · exact ih
    · exact ih
    · dsimp only [Option.map_some, Ty.rename]
      rw [ClassType.rename_native?, ClassType.rename_id]
      cases c.native?.isNone with
      | true => exact .cons ⟨rfl, (h.body c).attributes⟩ ih
      | false => exact ih
    · exact ih

/-- What is put back corresponds. -/
theorem restore (h : Mirror ρ s s') (ht : Mirror ρ t t') :
    Mirror ρ (t.restore s.globals s.globalAttributes)
      (t'.restore s'.globals s'.globalAttributes) where
  signatures := ht.signatures
  bodies := by
    have hfields := h.globalAttributes
    have hbodies := ht.bodies
    unfold Checker.restore
    dsimp only
    generalize t.bodies = bs at hbodies ⊢
    generalize t'.bodies = bs' at hbodies ⊢
    generalize s.globalAttributes = fields at hfields ⊢
    generalize s'.globalAttributes = fields' at hfields ⊢
    -- On the classes whose fields are put back; each goes to the renamed place.
    induction hfields generalizing bs bs' with
    | nil => exact hbodies
    | @cons p p' _ _ hp _ ih =>
      rw [List.foldl_cons, List.foldl_cons]
      refine ih _ _ ?_
      rw [hp.1]
      exact hbodies.modify ρ.cls_injective p.1 fun b b' hb => ⟨hb.members, hp.2⟩
  globals := h.globals
  locals := ht.locals
  context := ht.context
  nativeMethods := ht.nativeMethods

/-- Between programs the states are mirrors too. -/
theorem idle (h : Mirror ρ s s') : Mirror ρ s.idle s'.idle :=
  ⟨h.signatures, h.bodies, h.globals, rfl, rfl, h.nativeMethods⟩

/-- A program gets the same verdict in mirrored states, and the states are mirrors afterwards. -/
theorem check (h : Mirror ρ s.idle s'.idle) (program : List Stmt) :
    (s'.check program).1 = (s.check program).1 ∧
      Mirror ρ (s.check program).2 (s'.check program).2 := by
  have hrun := (Check.mirrors_stmts program).run h
  unfold Checker.check
  generalize Check.stmts program s.idle = r at hrun ⊢
  generalize Check.stmts program s'.idle = r' at hrun ⊢
  -- An accepted program leaves mirrors, and any other one is taken back on both sides.
  cases hrun with
  | ok hs => exact ⟨rfl, hs⟩
  | @error e _ _ hs =>
    have hrestored := (h.restore hs).idle
    cases e with
    | rejected error => exact ⟨rfl, hrestored⟩
    | endless => exact ⟨rfl, hrestored⟩
    | fault => exact ⟨rfl, hrestored⟩

end Mirror

end ClassScript.Typing
