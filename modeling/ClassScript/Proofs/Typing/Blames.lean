import ClassScript.Proofs.Parse.Keeps
import ClassScript.Proofs.Typing.Edits

/-!
# What a check blames is in the program, and so is what it names

A program that consists of given tokens is rejected at one of them, and the global names that it
makes are spelled like identifiers among them. Some faults are found later than the token they are
put at: the results of a function are compared at its end, so their keywords are part of the state.
`Check.Blames` says of one step what it keeps of the state and which tokens it can be rejected at.
-/

namespace ClassScript.Typing

open Node (AllWithin)

/-- A name that a program of given tokens can make global. -/
def Nameable (ts : List Token) (name : String) : Prop :=
  name = "lambda" ∨ ∃ t : Token, t.NameIn ts ∧ t.lexeme = name

namespace Nameable

variable {ts : List Token}

/-- An identifier of the program can be the name of something global. -/
theorem of_nameIn {t : Token} (h : t.NameIn ts) : Nameable ts t.lexeme := .inr ⟨t, h, rfl⟩

/-- The name that a function goes by. -/
theorem title {name : Option Token} (h : ∀ t ∈ name, t.NameIn ts) :
    Nameable ts ((name.map Token.lexeme).getD "lambda") := by
  cases name with
  | none => exact .inl rfl
  | some t => exact of_nameIn (h t rfl)

end Nameable

/-- A state of the check of a program of given tokens, that began with given global names. -/
structure Checker.Within (s old : Checker) (ts : List Token) : Prop where
  /-- The results of a function belong to keywords of the program. -/
  returns : ∀ c ∈ s.context, ∀ r ∈ c.returns, r.2 ∈ ts
  /-- A new global name can be made by the program. -/
  globals : ∀ name ∈ s.globals, name ∈ old.globals ∨ Nameable ts name

/-- A step of the check of a program of tokens `ts` that is rejected at tokens of `us` only. -/
structure Check.Blames {α : Type} (old : Checker) (ts us : List Token) (x : Check α) : Prop where
  /-- The step ends with a result. -/
  ok : ∀ {s s' : Checker} {a : α}, s.Within old ts → x s = .ok a s' → s'.Within old ts
  /-- The program is rejected. -/
  error : ∀ {s s' : Checker} {e : Error}, s.Within old ts → x s = .error (.rejected e) s' →
    e.token ∈ us

namespace Check

variable {α β : Type} {old : Checker} {ts us : List Token} {site : Token}

namespace Blames

variable {x : Check α}

/-! ### Rules -/

/-- A value blames nothing. -/
theorem pure (a : α) : Blames old ts us (Pure.pure a : Check α) where
  ok := by
    rintro s _ _ hs ⟨⟩
    exact hs
  error := by
    rintro _ _ _ _ ⟨⟩

/-- A check that goes wrong without blaming anything. -/
theorem throw {e : Stop} (h : ∀ error, e ≠ .rejected error) :
    Blames old ts us (MonadExcept.throw e : Check α) where
  ok := by
    rintro _ _ _ _ ⟨⟩
  error := by
    rintro _ _ error _ ⟨⟩
    exact absurd rfl (h error)

/-- What has no end blames nothing. -/
theorem endless : Blames old ts us (MonadExcept.throw Stop.endless : Check α) :=
  throw fun _ => Stop.noConfusion

/-- What breaks down blames nothing. -/
theorem fault : Blames old ts us (MonadExcept.throw Stop.fault : Check α) :=
  throw fun _ => Stop.noConfusion

/-- A complaint blames the token that it is about. -/
theorem reject (h : site ∈ us) (fault : Fault) :
    Blames old ts us (Check.reject site fault : Check α) where
  ok := by
    rintro _ _ _ _ ⟨⟩
  error := by
    rintro _ _ _ _ ⟨⟩
    exact h

/-- A change of the state. -/
theorem change {f : Checker → Checker} (h : ∀ s : Checker, s.Within old ts → (f s).Within old ts) :
    Blames old ts us (modify f : Check Unit) where
  ok := by
    rintro s _ _ hs ⟨⟩
    exact h s hs
  error := by
    rintro _ _ _ _ ⟨⟩

/-- A change that leaves the global names and the results of the function alone. -/
theorem touch {f : Checker → Checker}
    (h : ∀ s : Checker, (f s).context = s.context ∧ (f s).globals = s.globals) :
    Blames old ts us (modify f : Check Unit) :=
  change fun s hs => ⟨(h s).1 ▸ hs.returns, (h s).2 ▸ hs.globals⟩

/-- Steps in a row, of which the second one may depend on where the first one ended. -/
theorem bindOk {f : α → Check β} (hx : Blames old ts us x)
    (hf : ∀ s a s', x s = .ok a s' → Blames old ts us (f a)) : Blames old ts us (x >>= f) where
  ok hs h := by
    obtain ⟨a, s', hx', hf'⟩ := bind_eq_ok.1 h
    exact (hf _ a s' hx').ok (hx.ok hs hx') hf'
  -- The first step went through and the second one failed, or the first one failed.
  error {s s' e} hs h := by
    rw [bind_apply] at h
    cases hx' : x s with
    | ok a s₁ =>
      rw [hx'] at h
      exact (hf s a s₁ hx').error (hx.ok hs hx') h
    | error e₁ s₁ =>
      rw [hx'] at h
      cases h
      exact hx.error hs hx'

/-- Two steps blame what either of them blames. -/
theorem bind {f : α → Check β} (hx : Blames old ts us x) (hf : ∀ a, Blames old ts us (f a)) :
    Blames old ts us (x >>= f) :=
  hx.bindOk fun _ a _ _ => hf a

/-- Looks at the state and goes on. -/
theorem getBind {f : Checker → Check β} (hf : ∀ s, Blames old ts us (f s)) :
    Blames old ts us (MonadState.get >>= f) where
  ok {s _ _} hs h := (hf s).ok hs h
  error {s _ _} hs h := (hf s).error hs h

/-- A test in front of a step, which is left early or goes on. -/
theorem guard {c : Prop} [Decidable c] {x : Check PUnit} {k : PUnit → Check β}
    (hx : Blames old ts us x) (hk : ∀ r, Blames old ts us (k r)) :
    Blames old ts us (if c then x >>= k else k ()) := by
  split
  · exact hx.bind hk
  · exact hk ()

/-- A test in front of a step, the other way round. -/
theorem guardNot {c : Prop} [Decidable c] {x : Check PUnit} {k : PUnit → Check β}
    (hx : Blames old ts us x) (hk : ∀ r, Blames old ts us (k r)) :
    Blames old ts us (if c then k () else x >>= k) := by
  split
  · exact hk ()
  · exact hx.bind hk

end Blames

/-! ### Types of members and calls -/

/-- A question blames nothing. -/
theorem blames_answer (question : Checker → Option α) : Blames old ts us (answer question) := by
  refine .getBind fun s => ?_
  split
  · exact .pure _
  · exact .endless

/-- The text of a type blames nothing. -/
theorem blames_text (t : Ty) : Blames old ts us (text t) := blames_answer _

/-- A rejection whose text names a type. -/
theorem blames_complain (h : site ∈ us) (t : Ty) (fault : String → Fault) :
    Blames old ts us (do reject site (fault (← text t)) : Check α) :=
  (blames_text t).bind fun _ => .reject h _

/-- A rejection whose text names two types. -/
theorem blames_clash (h : site ∈ us) (t u : Ty) (fault : String → String → Fault) :
    Blames old ts us (do reject site (fault (← text t) (← text u)) : Check α) :=
  (blames_text t).bind fun _ => (blames_text u).bind fun _ => .reject h _

/-- To record a type blames nothing. -/
theorem blames_record (id : NodeId) (t : Ty) : Blames old ts us (record id t) :=
  .bind (.touch fun _ => ⟨rfl, rfl⟩) fun _ => .pure t

/-- To note a use of a name blames nothing. -/
theorem blames_noteUse (id : NodeId) (name : String) : Blames old ts us (noteUse id name) :=
  .touch fun _ => ⟨rfl, rfl⟩

/-- A name gets a type. -/
theorem blames_defineAt (place : Place) {name : String} (h : Nameable ts name) (t : Option Ty) :
    Blames old ts us (defineAt place name t) := by
  refine .change fun s hs => ?_
  cases place with
  | «local» i => exact ⟨hs.returns, hs.globals⟩
  | global =>
    refine ⟨hs.returns, fun other hother => ?_⟩
    rcases Std.TreeMap.mem_insert.1 hother with heq | hother
    · exact .inr (Std.LawfulEqCmp.eq_of_compare heq ▸ h)
    · exact hs.globals other hother

/-- A name of the program may be defined. -/
theorem blames_define {name : String} (h : Nameable ts name) (t : Option Ty) :
    Blames old ts us (define name t) :=
  .getBind fun _ => blames_defineAt _ h t

/-- A scope around a step blames what the step does. -/
theorem blames_inScope (scope : StaticScope) {x : Check α} (hx : Blames old ts us x) :
    Blames old ts us (inScope scope x) :=
  .bind (.touch fun _ => ⟨rfl, rfl⟩) fun _ => hx.bind fun a =>
    .bind (.touch fun _ => ⟨rfl, rfl⟩) fun _ => .pure a

/-- A type that the source does not have is never unknown. -/
theorem blames_declaredType {type : Token} (h : type.isImplied = false → type ∈ us) :
    Blames old ts us (declaredType type) := by
  refine .getBind fun s => ?_
  split
  · exact .pure _
  · next hnone =>
    refine .reject (h ?_) _
    -- A type that is implied is `Object`, and that is known on every checker.
    rw [Token.isImplied, Bool.and_eq_false_iff]
    right
    rw [decide_eq_false_iff_not]
    intro hobject
    have hsome : named? ((lookup? s type.lexeme).map Prod.snd) type.lexeme = some objectType := by
      unfold named?
      rw [if_pos (by simp [hobject])]
    cases hsome.symm.trans hnone

/-- A new function blames nothing. -/
theorem blames_newSignature (sig : Signature) : Blames old ts us (newSignature sig) where
  ok := by
    rintro s _ _ hs ⟨⟩
    exact ⟨hs.returns, hs.globals⟩
  error := by
    rintro _ _ _ _ ⟨⟩

/-- A native method blames nothing. -/
theorem blames_nativeMethod (m : NativeMethod) : Blames old ts us (nativeMethod m) := by
  refine .getBind fun s => ?_
  split
  · exact .pure _
  · refine (blames_newSignature _).bind fun f => ?_
    exact .bind (.touch fun _ => ⟨rfl, rfl⟩) fun _ => .pure _

/-- A member that an object does not have is blamed on its name. -/
theorem blames_objectMember (t : Ty) (h : site ∈ us) : Blames old ts us (objectMember t site) := by
  unfold objectMember
  split
  · exact blames_nativeMethod _
  · exact blames_complain h t (.undefinedProperty site.lexeme)

/-- So is a member that a type does not have. -/
theorem blames_member (t : Ty) (h : site ∈ us) : Blames old ts us (member t site) := by
  unfold member
  split
  · exact .pure _
  · split
    · -- The one class that is no user's: a method of its own, or what every object has.
      split
      · split
        · exact blames_nativeMethod _
        · split
          · exact .getBind fun _ => .pure _
          · exact blames_objectMember _ h
      · -- A user's class: an attribute first, then a method, both along the superclasses.
        refine .getBind fun s => ?_
        split
        · exact .pure _
        · exact .reject h _
        · refine .getBind fun s => ?_
          split
          · exact .pure _
          · exact .reject h _
          · exact blames_objectMember _ h
    · exact blames_objectMember _ h

/-- A field that gets a type blames nothing. -/
theorem blames_putAttribute (c : ClassType) (name : String) (t : Ty) :
    Blames old ts us (putAttribute c name t) :=
  .touch fun _ => ⟨rfl, rfl⟩

/-- An assignment to a field is blamed on the name of the field. -/
theorem blames_setAttribute (t : Ty) (h : site ∈ us) (value : Ty) :
    Blames old ts us (setAttribute t site value) := by
  unfold setAttribute
  split
  · exact .pure _
  · split
    · -- Native objects have no fields. A field of a user's object is new, or its type is unified.
      refine .guard (.reject h _) fun _ => .getBind fun s => ?_
      split
      · exact .reject h _
      · exact blames_putAttribute ..
      · refine (blames_answer _).bind fun u => ?_
        split
        · exact blames_clash h _ _ .redefinedAttribute
        · refine .getBind fun s => ?_
          split
          · exact blames_putAttribute ..
          · exact .pure _
    · exact .reject h _

/-- An argument that does not fit is blamed on the call. -/
theorem blames_argument (h : site ∈ us) (sig : Signature) (p : Nat) (arg : Ty) :
    Blames old ts us (argument site sig p arg) := by
  unfold argument
  split
  · next want param _ _ =>
    refine (blames_answer _).bind fun fits => ?_
    split
    · exact .pure _
    · exact blames_clash h want arg fun want got =>
        .badArgument want param.name.lexeme sig.name got
  · exact .fault

/-- So are arguments in order. -/
theorem blames_positional (h : site ∈ us) (sig : Signature) (i : Nat) (args : List Ty)
    (given : List Nat) : Blames old ts us (positional site sig i args given) := by
  induction args generalizing i given with
  | nil => exact .pure _
  | cons arg rest ih => exact (blames_argument h ..).bind fun _ => ih ..

/-- A named argument that does not fit is blamed on its name. -/
theorem blames_byName (sig : Signature) {named : List (Token × Ty)} (h : ∀ n ∈ named, n.1 ∈ us)
    (given : List Nat) : Blames old ts us (byName sig named given) := by
  induction named generalizing given with
  | nil => exact .pure _
  | cons a rest ih =>
    obtain ⟨name, arg⟩ := a
    obtain ⟨hname, hrest⟩ := List.forall_mem_cons.1 h
    unfold byName
    split
    · exact .reject hname _
    · refine .guard (.reject hname _) fun _ => .guard (.reject hname _) fun _ => ?_
      exact (blames_argument hname ..).bind fun _ => ih hrest _

/-- Arguments are blamed on the call or on their names. -/
theorem blames_arguments (h : site ∈ us) (sig : Signature) (args : List Ty)
    {named : List (Token × Ty)} (hnamed : ∀ n ∈ named, n.1 ∈ us) :
    Blames old ts us (arguments site sig args named) := by
  refine .guardNot (.reject h _) fun _ => ?_
  refine (blames_positional h ..).bind fun _ => (blames_byName _ hnamed _).bind fun given => ?_
  dsimp only
  split
  · exact .reject h _
  · exact .pure _

/-- A class without a constructor for a call is blamed on the call. -/
theorem blames_constructor (h : site ∈ us) (c : ClassType) :
    Blames old ts us (constructor site c) := by
  unfold constructor
  split
  · split
    · exact .reject h _
    · exact .getBind fun _ => .pure _
  · refine .getBind fun s => ?_
    split
    · exact .getBind fun _ => .pure _
    · exact .reject h _
    · exact .pure _

/-- A call blames itself or the names of its arguments. -/
theorem blames_callType (h : site ∈ us) (callee : Ty) (args : List Ty)
    {named : List (Token × Ty)} (hnamed : ∀ n ∈ named, n.1 ∈ us) :
    Blames old ts us (callType site callee args named) := by
  unfold callType
  split
  · exact .pure _
  · split
    · exact .getBind fun _ => (blames_arguments h _ _ hnamed).bind fun _ => .pure _
    · exact (blames_constructor h _).bind fun _ =>
        (blames_arguments h _ _ hnamed).bind fun _ => .pure _
    · exact .reject h _

/-- A message is at fault where its member is. -/
theorem blames_send (h : site ∈ us) (receiver : Ty) (name : String) (args : List Ty) :
    Blames old ts us (send site receiver name args) := by
  have hmember : Blames old ts [{ site with lexeme := name }]
      (member receiver { site with lexeme := name }) :=
    blames_member receiver (List.mem_singleton_self _)
  have hcall m : Blames old ts us (callType site m args []) :=
    blames_callType h m args (List.forall_mem_nil _)
  -- The message carries another name than the site, so the member blames that, and the call the
  -- site.
  constructor
  · intro s s' a hs hr
    rw [send_apply] at hr
    split at hr
    · next m s₁ hm => exact (hcall m).ok (hmember.ok hs hm) hr
    · cases hr
    · cases hr
  · intro s s' e hs hr
    rw [send_apply] at hr
    split at hr
    · next m s₁ hm => exact (hcall m).error (hmember.ok hs hm) hr
    · cases hr
      exact h
    · next e₁ s₁ hne hm =>
      cases hr
      exact absurd rfl (hne e)

/-- A use of `super` is blamed on the keyword. -/
theorem blames_superType (h : site ∈ us) (method : Option Token) :
    Blames old ts us (superType site method) := by
  refine .getBind fun s => ?_
  split
  · next home enclosing c _ =>
    -- What follows is the same whether or not a function around the keyword is marked first.
    have hrest := fun home : String => show Blames old ts us (superNamed c.supers home site) from by
      refine .getBind fun s => ?_
      split
      · exact .pure _
      · exact .reject h _
      · split
        · exact blames_nativeMethod _
        · exact .reject h _
    cases enclosing with
    | none => exact hrest _
    | some f =>
      exact .bind (.touch fun _ => ⟨rfl, rfl⟩) fun _ => hrest _
  · exact .pure _

/-! ### Pieces of expressions and statements -/

/-- An operator that has no result is blamed on itself. -/
theorem blames_binaryType (h : site ∈ us) (left right : Ty) :
    Blames old ts us (binaryType site left right) :=
  (blames_send h ..).bind fun _ => .pure _

/-- Both sides together blame nothing. -/
theorem blames_logicalType (left right : Ty) : Blames old ts us (logicalType left right) :=
  (blames_answer _).bind fun _ => .pure _

/-- A use of a name blames nothing. -/
theorem blames_useVariable (use : NameUse) : Blames old ts us (useVariable use) :=
  (blames_noteUse ..).bind fun _ => .getBind fun _ => blames_record ..

/-- An assignment is blamed on the name, which may become a global one. -/
theorem blames_assign {name : Token} (h : name ∈ us) (hname : name.NameIn ts) (value : Ty) :
    Blames old ts us (assign name value) := by
  have hdefine (place : Place) (t : Option Ty) :
      Blames old ts us (defineAt place name.lexeme t) :=
    blames_defineAt place (.of_nameIn hname) t
  refine .getBind fun s => ?_
  -- A new name, one without a type yet, or one whose type has to go with the new one.
  split
  · exact hdefine ..
  · exact hdefine ..
  · refine (blames_answer _).bind fun u => ?_
    split
    · exact blames_clash h _ _ .redefinedVariable
    · exact hdefine ..

/-- A loop over what has no elements is blamed on its keyword. -/
theorem blames_elementType (h : site ∈ us) (t : Ty) : Blames old ts us (elementType site t) := by
  unfold elementType
  -- Objects of native classes and of declared ones are asked for their elements in different ways.
  split
  · exact .pure _
  · split
    · split
      · split
        · exact .getBind fun _ => .pure _
        · exact .reject h _
      · refine .getBind fun s => ?_
        split
        · exact .pure _
        · exact .reject h _
        · exact .reject h _
    · exact blames_complain h _ .notIterable

/-- A return is noted with its keyword, which is one of the program. -/
theorem blames_noteReturn {keyword : Token} (h : keyword ∈ ts) (t : Ty) :
    Blames old ts us (noteReturn keyword t) := by
  refine .change fun s hs => ⟨fun c hc => ?_, hs.globals⟩
  obtain ⟨outer, houter, rfl⟩ := Option.map_eq_some_iff.1 hc
  exact List.forall_mem_cons.2 ⟨h, hs.returns outer houter⟩

/-- Returns that clash are blamed on one of their keywords. -/
theorem blames_settle (name : String) (ret : Ty) {rest : List (Ty × Token)}
    (h : ∀ r ∈ rest, r.2 ∈ us) : Blames old ts us (settle name ret rest) := by
  induction rest generalizing ret with
  | nil => exact .pure _
  | cons r rest ih =>
    obtain ⟨t, keyword⟩ := r
    obtain ⟨hkeyword, hrest⟩ := List.forall_mem_cons.1 h
    refine (blames_answer _).bind fun u => ?_
    split
    · exact blames_clash hkeyword _ _ (.multipleReturns name)
    · exact ih _ hrest

/-- So is the result of a function whose returns clash. -/
theorem blames_resultType (name : String) {c : Context} (h : ∀ r ∈ c.returns, r.2 ∈ us) :
    Blames old ts us (resultType name c) := by
  unfold resultType
  split
  · exact .pure _
  · split
    · exact .pure _
    · next t keyword rest hreturns =>
      refine blames_settle name t fun r hr => h r (List.mem_reverse.1 ?_)
      rw [hreturns]
      exact List.mem_cons_of_mem _ hr

/-- A function is checked in a context without results, and the one around it comes back. -/
theorem blames_functionBody (id : NodeId) (params : List Param) (f : SignatureId)
    {context : Context} (hcontext : context.returns = []) {body : Check Unit}
    (hbody : Blames old ts ts body) :
    Blames old ts ts (functionBody id params f context body) := by
  -- The body starts without recorded results, so those that it ends with are its own.
  have hstart : ∀ s : Checker, s.Within old ts →
      Checker.Within { s with context := some context } old ts := by
    refine fun s hs => ⟨?_, hs.globals⟩
    rintro _ ⟨⟩
    rw [hcontext]
    exact List.forall_mem_nil _
  have hin := fun vars => blames_inScope { origin := .call id, vars } hbody
  have hresult : ∀ s₁ : Checker, s₁.Within old ts → ∀ name,
      Blames old ts ts (resultType name (s₁.context.getD context)) := by
    intro s₁ hs₁ name
    refine blames_resultType name ?_
    cases hc : s₁.context with
    | none =>
      rw [Option.getD_none, hcontext]
      exact List.forall_mem_nil _
    | some c => exact hs₁.returns c hc
  constructor
  · intro s s' a hs hr
    rw [functionBody_apply] at hr
    split at hr
    · cases hr
    · split at hr
      · cases hr
      · next s₁ h₁ =>
        have hs₁ := (hin _).ok (hstart s hs) h₁
        split at hr
        · cases hr
        · next result s₂ h₂ =>
          cases hr
          -- The results are again those of the context around; the globals are those of the body.
          exact ⟨hs.returns, ((hresult s₁ hs₁ _).ok hs₁ h₂).globals⟩
  · intro s s' e hs hr
    rw [functionBody_apply] at hr
    split at hr
    · cases hr
    · split at hr
      · next e₁ s₁ h₁ =>
        cases hr
        exact (hin _).error (hstart s hs) h₁
      · next s₁ h₁ =>
        have hs₁ := (hin _).ok (hstart s hs) h₁
        split at hr
        · next e₂ s₂ h₂ =>
          cases hr
          exact (hresult s₁ hs₁ _).error hs₁ h₂
        · cases hr

/-- The context of a function inside has no returns yet. -/
theorem returns_childContext (s : Checker) : (childContext s).returns = [] := by
  unfold childContext
  split <;> rfl

/-- A method that is put in a class blames nothing. -/
theorem blames_putMember (c : ClassType) (name : String) (f : SignatureId) :
    Blames old ts us (putMember c name f) :=
  .touch fun _ => ⟨rfl, rfl⟩

/-- A new class blames nothing. -/
theorem blames_newClass (name : String) (supers : List ClassType) :
    Blames old ts us (newClass name supers) where
  ok := by
    rintro s _ _ hs ⟨⟩
    exact ⟨hs.returns, hs.globals⟩
  error := by
    rintro _ _ _ _ ⟨⟩

/-- A superclass that is none is blamed on its name. -/
theorem blames_superclasses {supers : List NameUse} (h : ∀ use ∈ supers, use.name ∈ us) :
    Blames old ts us (superclasses supers) := by
  induction supers with
  | nil => exact .pure _
  | cons use rest ih =>
    obtain ⟨huse, hrest⟩ := List.forall_mem_cons.1 h
    refine (blames_useVariable use).bind fun t => ?_
    split
    · exact .guard (.reject huse _) fun _ => (ih hrest).bind fun _ => .pure _
    · exact .reject huse _

/-! ### The syntax -/

/-- Named arguments keep their names. -/
theorem names_of_namedArgs {args : List NamedArg} {s s' : Checker} {named : List (Token × Ty)}
    (h : namedArgs args s = .ok named s') : named.map Prod.fst = args.map (·.name) := by
  induction args generalizing s named with
  | nil =>
    cases h
    rfl
  | cons a rest ih =>
    obtain ⟨name, value⟩ := a
    rw [namedArgs] at h
    obtain ⟨t, s₁, -, h⟩ := bind_eq_ok.1 h
    obtain ⟨named, s₂, hrest, h⟩ := bind_eq_ok.1 h
    cases h
    rw [List.map_cons, List.map_cons, ih hrest]

mutual

/-- An expression blames its tokens. -/
theorem blames_expr : ∀ e : Expr, AllWithin ts (e.nodes everywhere) → Blames old ts ts (expr e)
  | .literal .., _ => blames_record ..
  | .group _ _ inner, h => (blames_expr inner h.tail).bind fun _ => blames_record ..
  | .list _ _ elements, h => (blames_exprs elements h.tail).bind fun _ => blames_record ..
  | .var use, _ => blames_useVariable use
  | .self .., _ => .getBind fun _ => blames_record ..
  | .assign _ name value, h =>
    (blames_expr value h.tail).bind fun t => (blames_noteUse ..).bind fun _ =>
      (blames_assign h.head.token (h.head.names name List.mem_cons_self) t).bind fun _ =>
        blames_record ..
  | .super _ _ method, h => (blames_superType h.head.token method).bind fun _ => blames_record ..
  | .unary _ _ right, h =>
    (blames_expr right h.tail).bind fun _ => (blames_send h.head.token ..).bind fun _ =>
      blames_record ..
  | .binary _ left _ right, h =>
    (blames_expr left h.tail.left).bind fun _ => (blames_expr right h.tail.right).bind fun _ =>
      (blames_binaryType h.head.token ..).bind fun _ => blames_record ..
  | .logical _ left _ right, h =>
    (blames_expr left h.tail.left).bind fun _ => (blames_expr right h.tail.right).bind fun _ =>
      (blames_logicalType ..).bind fun _ => blames_record ..
  | .call _ callee _ args named, h =>
    (blames_expr callee h.tail.left.left).bind fun fn =>
      (blames_exprs args h.tail.left.right).bind fun types =>
        (blames_namedArgs named h.tail.right).bindOk fun _ ns _ hns => by
          -- The names of the arguments that were checked are those of the call's node.
          have hnames : ∀ n ∈ ns, n.1 ∈ ts := by
            intro n hn
            have hmem : n.1 ∈ named.map (·.name) :=
              names_of_namedArgs hns ▸ List.mem_map_of_mem hn
            exact (h.head.names n.1 (List.mem_append_left _ (List.mem_append_left _ hmem))).1
          exact (blames_callType h.head.token fn types hnames).bind fun _ => blames_record ..
  | .get _ object _, h =>
    (blames_expr object h.tail).bind fun _ => (blames_member _ h.head.token).bind fun _ =>
      blames_record ..
  | .set _ object _ value, h =>
    (blames_expr object h.tail.left).bind fun _ => (blames_expr value h.tail.right).bind fun _ =>
      (blames_setAttribute _ h.head.token _).bind fun _ => blames_record ..
  | .lambda ⟨id, _, _, params, body⟩, h => by
    refine (blames_paramTypes params (fun p hp => (h.head.params p hp).1)
      (fun p hp himplied => (h.head.types p hp himplied).1) h.tail.left).bind fun types => ?_
    refine (blames_newSignature _).bind fun f => .getBind fun s => ?_
    exact (blames_functionBody id params f (returns_childContext s)
      (blames_stmts body h.tail.right)).bind fun _ => blames_record ..

/-- Expressions in a row blame tokens of their own. -/
theorem blames_exprs : ∀ es : List Expr, AllWithin ts (Expr.nodesOf everywhere es) →
    Blames old ts ts (exprs es)
  | [], _ => .pure []
  | e :: rest, h =>
    (blames_expr e h.left).bind fun _ => (blames_exprs rest h.right).bind fun _ => .pure _

/-- So do named arguments. -/
theorem blames_namedArgs : ∀ args : List NamedArg, AllWithin ts (NamedArg.nodesOf everywhere args) →
    Blames old ts ts (namedArgs args)
  | [], _ => .pure []
  | ⟨_, value⟩ :: rest, h =>
    (blames_expr value h.left).bind fun _ => (blames_namedArgs rest h.right).bind fun _ => .pure _

/-- So do the types and defaults of parameters. -/
theorem blames_paramTypes : ∀ params : List Param, (∀ p ∈ params, p.name ∈ ts) →
    (∀ p ∈ params, p.type.isImplied = false → p.type ∈ ts) →
    AllWithin ts (Param.nodesOf everywhere params) → Blames old ts ts (paramTypes params)
  | [], _, _, _ => .pure []
  | ⟨_, _, none, _⟩ :: rest, hnames, htypes, h => by
    obtain ⟨htype, htypes⟩ := List.forall_mem_cons.1 htypes
    exact (blames_declaredType htype).bind fun _ =>
      (blames_paramTypes rest (List.forall_mem_cons.1 hnames).2 htypes h).bind fun _ => .pure _
  | ⟨_, _, some value, _⟩ :: rest, hnames, htypes, h => by
    obtain ⟨hname, hnames⟩ := List.forall_mem_cons.1 hnames
    obtain ⟨htype, htypes⟩ := List.forall_mem_cons.1 htypes
    refine (blames_declaredType htype).bind fun t => (blames_expr value h.left).bind fun d =>
      (blames_answer _).bind fun fits => ?_
    -- The other parameters are checked whether or not the default fits.
    have hrest : Blames old ts ts (do return t :: (← paramTypes rest)) :=
      (blames_paramTypes rest hnames htypes h.right).bind
      fun types => .pure (t :: types)
    split
    · exact hrest
    · exact (blames_text t).bind fun _ => (blames_text d).bind fun _ =>
        (Blames.reject hname _).bind fun _ => hrest

/-- So do the signatures of methods. -/
theorem blames_declareMethods (c : ClassType) : ∀ methods : List Lambda,
    AllWithin ts (Lambda.nodesOf everywhere methods) → Blames old ts ts (declareMethods c methods)
  | [], _ => .pure _
  | ⟨id, _, _, params, _⟩ :: rest, h => by
    refine (blames_paramTypes params (fun p hp => (h.left.head.params p hp).1)
      (fun p hp himplied => (h.left.head.types p hp himplied).1) h.left.tail.left).bind
        fun types => ?_
    exact (blames_newSignature _).bind fun f => (blames_putMember ..).bind fun _ =>
      (blames_record ..).bind fun _ => blames_declareMethods c rest h.right

/-- So does the body of a method. -/
theorem blames_methodBody (c : ClassType) : ∀ fn : Lambda, AllWithin ts (fn.nodes everywhere) →
    Blames old ts ts (methodBody c fn)
  | ⟨id, _, _, params, body⟩, h => by
    refine .getBind fun s => ?_
    split
    · exact .fault
    · exact blames_functionBody id params _ rfl (blames_stmts body h.tail.right)

/-- So do the bodies of the initializers. -/
theorem blames_initializerBodies (c : ClassType) : ∀ methods : List Lambda,
    AllWithin ts (Lambda.nodesOf everywhere methods) →
    Blames old ts ts (initializerBodies c methods)
  | [], _ => .pure _
  | fn :: rest, h => (blames_initializerBodies c rest h.right).bind fun _ => by
    split
    · exact blames_methodBody c fn h.left
    · exact .pure _

/-- So do the bodies of the other methods. -/
theorem blames_otherBodies (c : ClassType) : ∀ methods : List Lambda,
    AllWithin ts (Lambda.nodesOf everywhere methods) → Blames old ts ts (otherBodies c methods)
  | [], _ => .pure _
  | fn :: rest, h =>
    .guard (blames_methodBody c fn h.left) fun _ => blames_otherBodies c rest h.right

/-- So does a block. -/
theorem blames_block : ∀ b : Block, AllWithin ts (b.nodes everywhere) → Blames old ts ts (block b)
  | ⟨_, _, body⟩, h =>
    (blames_record ..).bind fun _ => blames_inScope _ (blames_stmts body h.tail)

/-- A statement blames its tokens. -/
theorem blames_stmt : ∀ s : Stmt, AllWithin ts (s.nodes everywhere) → Blames old ts ts (stmt s)
  | .expr _ value, h =>
    (blames_expr value h.tail).bind fun _ => (blames_record ..).bind fun _ => .pure _
  | .varDecl _ name none, h =>
    (blames_define (.of_nameIn (h.head.names name List.mem_cons_self)) none).bind fun _ =>
      (blames_record ..).bind fun _ => .pure _
  | .varDecl _ name (some value), h =>
    (blames_expr value h.tail).bind fun t =>
      (blames_define (.of_nameIn (h.head.names name List.mem_cons_self)) (some t)).bind fun _ =>
        (blames_record ..).bind fun _ => .pure _
  | .function _ ⟨fid, _, _, params, body⟩, h => by
    refine (blames_paramTypes params (fun p hp => (h.tail.head.params p hp).1)
      (fun p hp himplied => (h.tail.head.types p hp himplied).1) h.tail.tail.left).bind
        fun types => ?_
    refine (blames_newSignature _).bind fun f => ?_
    -- A function is named by its title, which is a token or the word itself.
    refine (blames_define (.title h.tail.head.title) _).bind fun _ => ?_
    refine (blames_record ..).bind fun _ => .getBind fun s => ?_
    exact blames_functionBody fid params f (returns_childContext s)
      (blames_stmts body h.tail.tail.right)
  | .classDecl _ name supers methods, h => by
    refine (blames_superclasses h.tail.left.supers).bind fun cs => ?_
    refine (blames_newClass ..).bind fun c => ?_
    refine (blames_define (.of_nameIn (h.head.names name List.mem_cons_self)) _).bind fun _ => ?_
    refine (blames_record ..).bind fun _ => blames_inScope _ ?_
    exact (blames_declareMethods c methods h.tail.right).bind fun _ =>
      (blames_initializerBodies c methods h.tail.right).bind fun _ =>
        blames_otherBodies c methods h.tail.right
  | .block b, h => blames_block b h
  | .ifElse _ _ condition body none, h =>
    (blames_record ..).bind fun _ => (blames_expr condition h.tail.left).bind fun _ =>
      blames_block body h.tail.right
  | .ifElse _ _ condition body (some otherwise), h =>
    (blames_record ..).bind fun _ => (blames_expr condition h.tail.left.left).bind fun _ =>
      (blames_block body h.tail.left.right).bind fun _ => blames_stmt otherwise h.tail.right
  | .whileLoop _ _ condition body, h =>
    (blames_record ..).bind fun _ => (blames_expr condition h.tail.left).bind fun _ =>
      blames_block body h.tail.right
  | .forIn _ _ _ iterable body, h =>
    (blames_record ..).bind fun _ => (blames_expr iterable h.tail.left).bind fun _ =>
      (blames_elementType h.head.token _).bind fun _ =>
        blames_inScope _ (blames_block body h.tail.right)
  | .ret _ _ none, h => (blames_record ..).bind fun _ => blames_noteReturn h.head.token _
  | .ret _ _ (some value), h =>
    (blames_expr value h.tail).bind fun _ => (blames_record ..).bind fun _ =>
      blames_noteReturn h.head.token _

/-- So do statements in a row. -/
theorem blames_stmts : ∀ body : List Stmt, AllWithin ts (Stmt.nodesOf everywhere body) →
    Blames old ts ts (stmts body)
  | [], _ => .pure _
  | s :: rest, h => (blames_stmt s h.left).bind fun _ => blames_stmts rest h.right

end

end Check

/-- A program is rejected at one of its tokens, and makes no global names but those of its
identifiers. -/
theorem Checker.blames_check (s : Checker) {ts : List Token} {program : List Stmt}
    (h : AllWithin ts (allNodes program)) :
    (∀ e, (s.check program).1 = .rejected e → e.token ∈ ts) ∧
      ∀ name ∈ (s.check program).2.globals, name ∈ s.globals ∨ Nameable ts name := by
  have hblames : Check.Blames s ts ts (Check.stmts program) := Check.blames_stmts program h
  -- At the start there is no context, and every global name is an old one.
  have hstart : s.idle.Within s ts := by
    refine ⟨fun _ hc => ?_, fun _ hname => .inl hname⟩
    cases hc
  unfold check
  cases hr : Check.stmts program s.idle with
  | ok a s' => exact ⟨fun _ => Verdict.noConfusion, (hblames.ok hstart hr).globals⟩
  | error e s' =>
    cases e with
    | rejected error =>
      refine ⟨?_, fun _ hname => .inl hname⟩
      rintro _ ⟨⟩
      exact hblames.error hstart hr
    | endless => exact ⟨fun _ => Verdict.noConfusion, fun _ hname => .inl hname⟩
    | fault => exact ⟨fun _ => Verdict.noConfusion, fun _ hname => .inl hname⟩

end ClassScript.Typing
