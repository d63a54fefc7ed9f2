import Mathlib.Logic.Relation
import ClassScript.Typing.Check

/-!
# What a step of the checker changes

Most steps of a check leave the scopes alone. `Edit` lists the changes they make: a node gets a
type, a signature is made, a native signature is kept for later, a field of a class gets a type, a
method is marked, and the result of a function is noted. A step that makes only such changes
`Edits`, and what edits cannot do, such a step cannot do. All of these steps but the one that
records a type are `Quiet`: they give no node a type.
-/

namespace ClassScript.Typing

namespace Check

variable {α β : Type}

/-- The state that a step ends in, early or not. -/
def final (x : Check α) (s : Checker) : Checker :=
  match x s with
  | .ok _ s' => s'
  | .error _ s' => s'

/-- A step that goes through ends in the state behind its value. -/
theorem final_ok {x : Check α} {s s' : Checker} {a : α} (h : x s = .ok a s') : x.final s = s' := by
  unfold final
  rw [h]

/-- A step that stops ends in the state behind its reason. -/
theorem final_error {x : Check α} {s s' : Checker} {e : Stop} (h : x s = .error e s') :
    x.final s = s' := by
  unfold final
  rw [h]

/-- A change of the state goes through. -/
theorem modify_apply (f : Checker → Checker) (s : Checker) :
    (modify f : Check PUnit) s = .ok () (f s) := rfl

/-- The second of two steps runs where the first one goes through. -/
theorem bind_apply (x : Check α) (f : α → Check β) (s : Checker) :
    (x >>= f) s =
      match x s with
      | .ok a s' => f a s'
      | .error e s' => .error e s' := by
  change EStateM.bind x f s = _
  unfold EStateM.bind
  cases x s <;> rfl

/-- A look at the state changes nothing. -/
theorem getBind_apply (f : Checker → Check β) (s : Checker) :
    (MonadState.get >>= f) s = f s s := rfl

/-- Two steps go through if both do, one behind the other. -/
theorem bind_eq_ok {x : Check α} {f : α → Check β} {s s'' : Checker} {b : β} :
    (x >>= f) s = .ok b s'' ↔ ∃ a s', x s = .ok a s' ∧ f a s' = .ok b s'' := by
  rw [bind_apply]
  cases x s with
  | ok a s' =>
    constructor
    · exact fun h => ⟨a, s', rfl, h⟩
    · rintro ⟨_, _, ⟨⟩, h⟩
      exact h
  | error e s' =>
    constructor
    · exact fun h => nomatch h
    · exact fun ⟨_, _, h, _⟩ => nomatch h

/-- Two steps end where the second one does, or where the first one stops. -/
theorem final_bind (x : Check α) (f : α → Check β) (s : Checker) :
    (x >>= f).final s =
      match x s with
      | .ok a s' => (f a).final s'
      | .error _ s' => s' := by
  unfold final
  rw [bind_apply]
  cases x s <;> rfl

/-- Steps in a row, each of which makes changes of one kind. -/
theorem reaches_bind {R : Checker → Checker → Prop} {x : Check α} {f : α → Check β}
    (hx : ∀ s, Relation.ReflTransGen R s (x.final s))
    (hf : ∀ a s, Relation.ReflTransGen R s ((f a).final s)) (s : Checker) :
    Relation.ReflTransGen R s ((x >>= f).final s) := by
  have h := hx s
  rw [final_bind]
  cases hr : x s with
  | ok a s' =>
    rw [final_ok hr] at h
    exact h.trans (hf a s')
  | error e s' =>
    rw [final_error hr] at h
    exact h

/-- A question leaves the state as it is, with an answer or without. -/
theorem answer_apply {α : Type} (question : Checker → Option α) (s : Checker) :
    answer question s =
      match question s with
      | some a => .ok a s
      | none => .error .endless s := by
  change (match question s with
    | some a => Pure.pure a
    | none => MonadExcept.throw Stop.endless : Check α) s = _
  cases question s <;> rfl

end Check

/-- One change of the checker's state that leaves the scopes alone. -/
inductive Edit : Checker → Checker → Prop where
  /-- A node gets a type. -/
  | type (s : Checker) (id : NodeId) (t : Ty) : Edit s { s with types := s.types.insert id t }
  /-- A signature is made. -/
  | sign (s : Checker) (sig : Signature) : Edit s { s with signatures := s.signatures.push sig }
  /-- A native signature is kept. -/
  | keep (s : Checker) (op : Operation) (f : SignatureId) :
    Edit s { s with nativeMethods := (op, f) :: s.nativeMethods }
  /-- A field of a class gets a type. -/
  | field (s : Checker) (c : ClassType) (name : String) (t : Ty) :
    Edit s { s with
      bodies := s.bodies.modify c.id fun b => { b with attributes := b.attributes.insert name t } }
  /-- The method around the place is marked as using the superclasses. -/
  | mark (s : Checker) (f : SignatureId) (h : s.context.bind Context.method? = some f) :
    Edit s { s with signatures := s.signatures.modify f ({ · with callsSuper := true }) }
  /-- The result of a function is noted. -/
  | result (s : Checker) (t : Ty) (keyword : Token) :
    Edit s { s with
      context := s.context.map fun c => { c with returns := (t, keyword) :: c.returns } }

/-- Changes in a row. -/
abbrev Edits : Checker → Checker → Prop := Relation.ReflTransGen Edit

/-- A step that makes only changes that leave the scopes alone. -/
structure Check.Edits {α : Type} (x : Check α) : Prop where
  /-- The state at the end comes from the one at the start by such changes. -/
  edits : ∀ s, Typing.Edits s (x.final s)

/-- A change that gives no node a type. -/
def QuietEdit (s s' : Checker) : Prop := Edit s s' ∧ s'.types = s.types

/-- A step that makes only changes that leave the scopes and the types of nodes alone. -/
structure Check.Quiet {α : Type} (x : Check α) : Prop where
  /-- The state at the end comes from the one at the start by such changes. -/
  reaches : ∀ s, Relation.ReflTransGen QuietEdit s (x.final s)

namespace Check.Edits

variable {α β : Type} {x : Check α}

/-- A value changes nothing. -/
theorem pure (a : α) : (Pure.pure a : Check α).Edits := ⟨fun _ => .refl⟩

/-- A look at the state changes nothing. -/
theorem get : (MonadState.get : Check Checker).Edits := ⟨fun _ => .refl⟩

/-- A change is an edit if it is one in every state. -/
theorem change {f : Checker → Checker} (h : ∀ s, Edit s (f s)) : (modify f : Check Unit).Edits :=
  ⟨fun s => .single (h s)⟩

/-- Edits go on one behind the other. -/
theorem bind {f : α → Check β} (hx : x.Edits) (hf : ∀ a, (f a).Edits) : (x >>= f).Edits :=
  ⟨reaches_bind hx.edits fun a => (hf a).edits⟩

/-- Looks at the state and goes on. -/
theorem getBind {f : Checker → Check β} (hf : ∀ s, (f s).Edits) :
    (MonadState.get >>= f).Edits :=
  get.bind hf

end Check.Edits

namespace Check.Quiet

variable {α β : Type} {x : Check α}

/-- What gives no node a type makes only edits. -/
theorem edits (h : x.Quiet) : x.Edits :=
  ⟨fun s => Relation.ReflTransGen.mono (fun _ _ (he : QuietEdit _ _) => he.1) _ _ (h.reaches s)⟩

/-- A quiet step leaves the types of nodes as they are. -/
theorem types (h : x.Quiet) (s : Checker) : (x.final s).types = s.types := by
  have hreaches := h.reaches s
  generalize x.final s = s' at hreaches ⊢
  induction hreaches with
  | refl => rfl
  | tail _ he ih => exact he.2.trans ih

/-! ### Rules -/

/-- A value gives no node a type. -/
theorem pure (a : α) : (Pure.pure a : Check α).Quiet := ⟨fun _ => .refl⟩

/-- Neither does a stop. -/
theorem throw (e : Stop) : (MonadExcept.throw e : Check α).Quiet := ⟨fun _ => .refl⟩

/-- A change is quiet if it gives no node a type in any state. -/
theorem change {f : Checker → Checker} (h : ∀ s, QuietEdit s (f s)) :
    (modify f : Check Unit).Quiet :=
  ⟨fun s => .single (h s)⟩

/-- Quiet steps go on one behind the other. -/
theorem bind {f : α → Check β} (hx : x.Quiet) (hf : ∀ a, (f a).Quiet) : (x >>= f).Quiet :=
  ⟨reaches_bind hx.reaches fun a => (hf a).reaches⟩

/-- Looks at the state and goes on. -/
theorem getBind {f : Checker → Check β} (hf : ∀ s, (f s).Quiet) :
    (MonadState.get >>= f).Quiet :=
  ⟨fun s => (hf s).reaches s⟩

/-- A test in front of a step, which is left early or goes on. -/
theorem guard {c : Prop} [Decidable c] {x : Check PUnit} {k : PUnit → Check β} (hx : x.Quiet)
    (hk : ∀ r, (k r).Quiet) : (if c then x >>= k else k ()).Quiet := by
  split
  · exact hx.bind hk
  · exact hk ()

/-- A test in front of a step, the other way round. -/
theorem guardNot {c : Prop} [Decidable c] {x : Check PUnit} {k : PUnit → Check β} (hx : x.Quiet)
    (hk : ∀ r, (k r).Quiet) : (if c then k () else x >>= k).Quiet := by
  split
  · exact hk ()
  · exact hx.bind hk

end Check.Quiet

namespace Check

/-! ### Types of members and calls -/

/-- A complaint changes nothing. -/
theorem quiet_reject {α : Type} (token : Token) (fault : Fault) :
    (reject token fault : Check α).Quiet :=
  .throw _

/-- A question changes nothing. -/
theorem quiet_answer {α : Type} (question : Checker → Option α) : (answer question).Quiet := by
  refine .getBind fun s => ?_
  split
  · exact .pure _
  · exact .throw _

/-- The text of a type changes nothing. -/
theorem quiet_text (t : Ty) : (text t).Quiet := quiet_answer _

/-- A declared type is only looked up. -/
theorem quiet_declaredType (token : Token) : (declaredType token).Quiet := by
  refine .getBind fun s => ?_
  split
  · exact .pure _
  · exact quiet_reject ..

/-- A new function is no node with a type. -/
theorem quiet_newSignature (sig : Signature) : (newSignature sig).Quiet :=
  ⟨fun s => .single ⟨.sign s sig, rfl⟩⟩

/-- The signature that a native method gets where it is first used. -/
def nativeMethodSignature (s : Checker) (m : NativeMethod) : Signature :=
  { nativeSignature s m.name m.params m.returns with
    returnsByArg := m.returnsByArg.map fun (arg, ret) => (arg, globalType s ret) }

/-- A native method is made where it is first used, and found later. -/
theorem nativeMethod_apply (m : NativeMethod) (s : Checker) :
    nativeMethod m s =
      match s.nativeMethods.lookup m.operation with
      | some f => .ok (.function f) s
      | none => .ok (.function s.signatures.size)
          { s with
            signatures := s.signatures.push (nativeMethodSignature s m)
            nativeMethods := (m.operation, s.signatures.size) :: s.nativeMethods } := by
  unfold nativeMethod
  rw [bind_apply]
  dsimp only [MonadState.get, getThe, MonadStateOf.get, EStateM.get]
  cases s.nativeMethods.lookup m.operation <;> rfl

/-- A native method that is made gives no node a type. -/
theorem quiet_nativeMethod (m : NativeMethod) : (nativeMethod m).Quiet := by
  refine .getBind fun s => ?_
  split
  · exact .pure _
  · refine (quiet_newSignature _).bind fun f => ?_
    exact (Quiet.change fun s => ⟨.keep s m.operation f, rfl⟩).bind fun _ => .pure _

/-- A rejection whose text names a type. -/
theorem quiet_complain {α : Type} (token : Token) (t : Ty) (fault : String → Fault) :
    (do reject token (fault (← text t)) : Check α).Quiet :=
  (quiet_text t).bind fun _ => quiet_reject ..

/-- Neither does a member that all objects have. -/
theorem quiet_objectMember (t : Ty) (name : Token) : (objectMember t name).Quiet := by
  unfold objectMember
  split
  · exact quiet_nativeMethod _
  · exact quiet_complain name t (.undefinedProperty name.lexeme)

/-- Neither does a member of any type. -/
theorem quiet_member (t : Ty) (name : Token) : (member t name).Quiet := by
  unfold member
  -- Every way through ends in an answer or in a rejection.
  split
  · exact .pure _
  · split
    · split
      · split
        · exact quiet_nativeMethod _
        · split
          · exact .getBind fun _ => .pure _
          · exact quiet_objectMember ..
      · refine .getBind fun s => ?_
        split
        · exact .pure _
        · exact quiet_reject ..
        · refine .getBind fun s => ?_
          split
          · exact .pure _
          · exact quiet_reject ..
          · exact quiet_objectMember ..
    · exact quiet_objectMember ..

/-- A field gets a type, and no node does. -/
theorem quiet_putAttribute (c : ClassType) (name : String) (t : Ty) :
    (putAttribute c name t).Quiet :=
  .change fun s => ⟨.field s c name t, rfl⟩

/-- An assignment to a field gives only the field a type. -/
theorem quiet_setAttribute (t : Ty) (name : Token) (value : Ty) :
    (setAttribute t name value).Quiet := by
  unfold setAttribute
  split
  · exact .pure _
  · split
    · refine .guard (quiet_reject ..) fun _ => .getBind fun s => ?_
      split
      · exact quiet_reject ..
      · exact quiet_putAttribute ..
      · refine (quiet_answer _).bind fun u => ?_
        split
        · exact (quiet_text _).bind fun _ => (quiet_text _).bind fun _ => quiet_reject ..
        · refine .getBind fun s => ?_
          split
          · exact quiet_putAttribute ..
          · exact .pure _
    · exact quiet_reject ..

/-- An argument is only compared. -/
theorem quiet_argument (site : Token) (sig : Signature) (p : Nat) (arg : Ty) :
    (argument site sig p arg).Quiet := by
  unfold argument
  split
  · refine (quiet_answer _).bind fun fits => ?_
    split
    · exact .pure _
    · exact (quiet_text _).bind fun _ => (quiet_text _).bind fun _ => quiet_reject ..
  · exact .throw _

/-- So are arguments in order. -/
theorem quiet_positional (site : Token) (sig : Signature) (i : Nat) (args : List Ty)
    (given : List Nat) : (positional site sig i args given).Quiet := by
  induction args generalizing i given with
  | nil => exact .pure _
  | cons arg rest ih => exact (quiet_argument ..).bind fun _ => ih ..

/-- So are named arguments. -/
theorem quiet_byName (sig : Signature) (named : List (Token × Ty)) (given : List Nat) :
    (byName sig named given).Quiet := by
  induction named generalizing given with
  | nil => exact .pure _
  | cons a rest ih =>
    obtain ⟨name, arg⟩ := a
    unfold byName
    split
    · exact quiet_reject ..
    · refine .guard (quiet_reject ..) fun _ => .guard (quiet_reject ..) fun _ => ?_
      exact (quiet_argument ..).bind fun _ => ih _

/-- So are all arguments. -/
theorem quiet_arguments (site : Token) (sig : Signature) (args : List Ty)
    (named : List (Token × Ty)) : (arguments site sig args named).Quiet := by
  refine .guardNot (quiet_reject ..) fun _ => ?_
  refine (quiet_positional ..).bind fun _ => (quiet_byName ..).bind fun given => ?_
  dsimp only
  split
  · exact quiet_reject ..
  · exact .pure _

/-- The constructor of a class is only looked up. -/
theorem quiet_constructor (site : Token) (c : ClassType) : (constructor site c).Quiet := by
  unfold constructor
  split
  · split
    · exact quiet_reject ..
    · exact .getBind fun _ => .pure _
  · refine .getBind fun s => ?_
    split
    · exact .getBind fun _ => .pure _
    · exact quiet_reject ..
    · exact .pure _

/-- The result of a call gives no node a type yet. -/
theorem quiet_callType (site : Token) (callee : Ty) (args : List Ty) (named : List (Token × Ty)) :
    (callType site callee args named).Quiet := by
  unfold callType
  split
  · exact .pure _
  · split
    · exact .getBind fun _ => (quiet_arguments ..).bind fun _ => .pure _
    · exact (quiet_constructor ..).bind fun _ => (quiet_arguments ..).bind fun _ => .pure _
    · exact quiet_reject ..

/-- A member is looked for first; where that fails, the message is at fault. -/
theorem send_apply (site : Token) (receiver : Ty) (name : String) (args : List Ty) (s : Checker) :
    send site receiver name args s =
      match member receiver { site with lexeme := name } s with
      | .ok m s' => callType site m args [] s'
      | .error (.rejected e) s' => .error (.rejected ⟨site, e.fault⟩) s'
      | .error e s' => .error e s' := by
  unfold send
  rw [bind_apply]
  dsimp only [MonadState.get, getThe, MonadStateOf.get, EStateM.get]
  cases member receiver { site with lexeme := name } s with
  | ok m s' => rfl
  | error e s' => cases e <;> rfl

/-- Neither does that of a method that an operator stands for. -/
theorem quiet_send (site : Token) (receiver : Ty) (name : String) (args : List Ty) :
    (send site receiver name args).Quiet where
  reaches s := by
    have hmember := (quiet_member receiver { site with lexeme := name }).reaches s
    unfold Check.final at *
    rw [send_apply]
    cases hr : member receiver { site with lexeme := name } s with
    | ok m s' =>
      rw [hr] at hmember
      exact hmember.trans ((quiet_callType site m args []).reaches s')
    | error e s' =>
      -- The error is replaced by one about the operator; the state stays.
      rw [hr] at hmember
      cases e <;> exact hmember

/-- The type of a method of given superclasses, or of one that every object has. -/
def superNamed (supers : List ClassType) (name : String) (keyword : Token) : Check Ty := do
  match (← get).methods.lookupSupers name supers with
  | .found f _ => return .function f
  | .ambiguous branches => reject keyword (.ambiguous name branches)
  | .absent =>
    match NativeClass.object.ownMethod? name with
    | some m => nativeMethod m
    | none => reject keyword (.undefinedSuper name)

/-- A member of superclasses is looked up, and its native method may be made. -/
theorem quiet_superNamed (supers : List ClassType) (name : String) (keyword : Token) :
    (superNamed supers name keyword).Quiet := by
  refine .getBind fun s => ?_
  split
  · exact .pure _
  · exact quiet_reject ..
  · split
    · exact quiet_nativeMethod _
    · exact quiet_reject ..

/-- A use of `super` marks the method around it, and gives no node a type yet. -/
theorem quiet_superType (keyword : Token) (method : Option Token) :
    (superType keyword method).Quiet where
  reaches s := by
    have hrest := fun home (c : ClassType) =>
      (quiet_superNamed c.supers ((method.map Token.lexeme).getD home) keyword).reaches
    unfold Check.final superType at *
    rw [bind_apply]
    dsimp only [MonadState.get, getThe, MonadStateOf.get, EStateM.get]
    cases hc : s.context with
    | none => exact .refl
    | some context =>
      obtain ⟨returns, isInitializer, home, enclosing, around⟩ := context
      cases around with
      | none => exact .refl
      | some c =>
        -- Only a use inside a function marks it, and the rest is the same.
        cases enclosing with
        | none => exact hrest home c s
        | some f => exact .head ⟨.mark s f (by rw [hc]; rfl), rfl⟩ (hrest home c _)

/-! ### Types of expressions -/

/-- The result of an operator gives no node a type yet. -/
theorem quiet_binaryType (op : Token) (left right : Ty) : (binaryType op left right).Quiet :=
  (quiet_send ..).bind fun _ => .pure _

/-- Neither does the more general type of both sides. -/
theorem quiet_logicalType (left right : Ty) : (logicalType left right).Quiet :=
  (quiet_answer _).bind fun _ => .pure _

/-- Neither does the type of the elements of a loop. -/
theorem quiet_elementType (keyword : Token) (t : Ty) : (elementType keyword t).Quiet := by
  unfold elementType
  split
  · exact .pure _
  · split
    · split
      · split
        · exact .getBind fun _ => .pure _
        · exact quiet_reject ..
      · refine .getBind fun s => ?_
        split
        · exact .pure _
        · exact quiet_reject ..
        · exact quiet_reject ..
    · exact quiet_complain keyword _ .notIterable

/-- A return is noted in the context. -/
theorem quiet_noteReturn (keyword : Token) (t : Ty) : (noteReturn keyword t).Quiet :=
  .change fun s => ⟨.result s t keyword, rfl⟩

/-- The returns of a function are only compared. -/
theorem quiet_settle (name : String) (ret : Ty) (rest : List (Ty × Token)) :
    (settle name ret rest).Quiet := by
  induction rest generalizing ret with
  | nil => exact .pure _
  | cons r rest ih =>
    obtain ⟨t, keyword⟩ := r
    refine (quiet_answer _).bind fun u => ?_
    split
    · exact (quiet_text _).bind fun _ => (quiet_text _).bind fun _ => quiet_reject ..
    · exact ih _

/-- So is the result of a function found. -/
theorem quiet_resultType (name : String) (c : Context) : (resultType name c).Quiet := by
  unfold resultType
  split
  · exact .pure _
  · split
    · exact .pure _
    · exact quiet_settle ..

/-! ### The changes of all these steps -/

/-- The type of a node is an edit, though not a quiet one. -/
theorem edits_record (id : NodeId) (t : Ty) : (record id t).Edits :=
  (Edits.change fun s => .type s id t).bind fun _ => .pure t

/-- A complaint makes no edits. -/
theorem edits_reject {α : Type} (token : Token) (fault : Fault) :
    (reject token fault : Check α).Edits :=
  (quiet_reject token fault).edits

/-- A question makes no edits. -/
theorem edits_answer {α : Type} (question : Checker → Option α) : (answer question).Edits :=
  (quiet_answer question).edits

/-- The text of a type makes no edits. -/
theorem edits_text (t : Ty) : (text t).Edits := (quiet_text t).edits

/-- A declared type makes no edits. -/
theorem edits_declaredType (token : Token) : (declaredType token).Edits :=
  (quiet_declaredType token).edits

/-- A new function is an edit. -/
theorem edits_newSignature (sig : Signature) : (newSignature sig).Edits :=
  (quiet_newSignature sig).edits

/-- A member of a type makes only edits. -/
theorem edits_member (t : Ty) (name : Token) : (member t name).Edits := (quiet_member t name).edits

/-- An assignment to a field makes only edits. -/
theorem edits_setAttribute (t : Ty) (name : Token) (value : Ty) :
    (setAttribute t name value).Edits :=
  (quiet_setAttribute t name value).edits

/-- A call makes only edits. -/
theorem edits_callType (site : Token) (callee : Ty) (args : List Ty) (named : List (Token × Ty)) :
    (callType site callee args named).Edits :=
  (quiet_callType site callee args named).edits

/-- So does a method that an operator stands for. -/
theorem edits_send (site : Token) (receiver : Ty) (name : String) (args : List Ty) :
    (send site receiver name args).Edits :=
  (quiet_send site receiver name args).edits

/-- So does a use of `super`. -/
theorem edits_superType (keyword : Token) (method : Option Token) :
    (superType keyword method).Edits :=
  (quiet_superType keyword method).edits

/-- So does an operator. -/
theorem edits_binaryType (op : Token) (left right : Ty) : (binaryType op left right).Edits :=
  (quiet_binaryType op left right).edits

/-- So do both sides together. -/
theorem edits_logicalType (left right : Ty) : (logicalType left right).Edits :=
  (quiet_logicalType left right).edits

/-- So do the elements of a loop. -/
theorem edits_elementType (keyword : Token) (t : Ty) : (elementType keyword t).Edits :=
  (quiet_elementType keyword t).edits

/-- A return that is noted is an edit. -/
theorem edits_noteReturn (keyword : Token) (t : Ty) : (noteReturn keyword t).Edits :=
  (quiet_noteReturn keyword t).edits

/-- The result of a function makes only edits. -/
theorem edits_resultType (name : String) (c : Context) : (resultType name c).Edits :=
  (quiet_resultType name c).edits

/-! ### Bodies of functions -/

/-- A body is checked in a scope with the parameters and in a context of its own, and then the type
of the result is settled. -/
theorem functionBody_apply (id : NodeId) (params : List Param) (f : SignatureId)
    (context : Context) (body : Check Unit) (s : Checker) :
    functionBody id params f context body s =
      match paramVars params (s.signature f).paramTypes with
      | none => .error .fault s
      | some vars =>
        match inScope { origin := .call id, vars := vars.reverse } body
          { s with context := some context } with
        | .error e s₁ => .error e s₁
        | .ok _ s₁ =>
          match resultType (s.signature f).name (s₁.context.getD context) s₁ with
          | .error e s₂ => .error e s₂
          | .ok result s₂ => .ok () { s₂ with
              signatures := s₂.signatures.modify f ({ · with returns := some result })
              context := s.context } := by
  unfold functionBody
  rw [getBind_apply]
  -- Step by step through the body's own scope, the check of it and the type of its result.
  cases paramVars params (s.signature f).paramTypes with
  | none => rfl
  | some vars =>
    dsimp only
    rw [getBind_apply, bind_apply, modify_apply]
    dsimp only
    rw [bind_apply]
    cases inScope { origin := .call id, vars := vars.reverse } body
        { s with context := some context } with
    | error e s₁ => rfl
    | ok _ s₁ =>
      dsimp only
      rw [getBind_apply, bind_apply]
      cases resultType (s.signature f).name (s₁.context.getD context) s₁ <;> rfl

end Check

end ClassScript.Typing
