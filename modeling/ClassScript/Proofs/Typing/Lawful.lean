import ClassScript.Proofs.Typing.Laws

/-!
# Steps of a check that keep a law

A step that makes no class keeps every law: a state of which the law holds leads to such a state,
and to types of classes under the law. `Check.Lawful` says so of one step, and there is a lemma for
every such function of the checker.
-/

namespace ClassScript.Typing

namespace Check

variable {α β : Type} {L : Law}

/-- A step that keeps a law, and whose value has a property. -/
structure Lawful (L : Law) (A : α → Prop) (x : Check α) : Prop where
  /-- The law holds where the step ends, early or not. -/
  state : ∀ s, L.Holds s → L.Holds (x.final s)
  /-- The value has the property. -/
  value : ∀ {s a s'}, L.Holds s → x s = .ok a s' → A a

/-- The property of a value of which nothing is said. -/
def Whatever (_ : α) : Prop := True

namespace Lawful

variable {A : α → Prop} {B : β → Prop} {x y : Check α}

/-! ### Rules -/

/-- A value is enough if it has the property. -/
theorem pure {a : α} (h : A a) : Lawful L A (Pure.pure a) where
  state _ hs := hs
  value _ hr := by
    cases hr
    exact h

/-- A value of which nothing is said. -/
theorem done (a : α) : Lawful L Whatever (Pure.pure a) := .pure trivial

/-- A step that stops keeps every law. -/
theorem throw (e : Stop) : Lawful L A (MonadExcept.throw e) where
  state _ hs := hs
  value _ hr := nomatch hr

/-- A change of the state has to keep the law. -/
theorem change {f : Checker → Checker} (h : ∀ s, L.Holds s → L.Holds (f s)) :
    Lawful L Whatever (modify f : Check PUnit) where
  state := h
  value _ _ := trivial

/-- One step after another: the second one may rely on the property of the value. -/
theorem bind {f : α → Check β} (hx : Lawful L A x) (hf : ∀ a, A a → Lawful L B (f a)) :
    Lawful L B (x >>= f) where
  state s hs := by
    have hstate := hx.state s hs
    unfold Check.final at *
    rw [bind_apply]
    -- An error ends both; else the second step starts from a state under the law.
    cases hr : x s with
    | error e s' =>
      rw [hr] at hstate
      exact hstate
    | ok a s' =>
      rw [hr] at hstate
      exact (hf a (hx.value hs hr)).state s' hstate
  value {s b s''} hs hr := by
    obtain ⟨a, s', ha, hb⟩ := bind_eq_ok.1 hr
    have hstate := hx.state s hs
    rw [final_ok ha] at hstate
    exact (hf a (hx.value hs ha)).value hstate hb

/-- Looks at the state and goes on. -/
theorem getBind {f : Checker → Check β} (hf : ∀ s, L.Holds s → Lawful L B (f s)) :
    Lawful L B (MonadState.get >>= f) where
  state s hs := (hf s hs).state s hs
  value {s _ _} hs hr := (hf s hs).value hs hr

/-- Both branches of a choice have to keep the law. -/
theorem ite {c : Prop} [Decidable c] (hx : Lawful L A x) (hy : Lawful L A y) :
    Lawful L A (if c then x else y) := by
  split
  · exact hx
  · exact hy

/-- A test in front of a step, which is left early or goes on. -/
theorem guard {c : Prop} [Decidable c] {x : Check PUnit} {k : PUnit → Check β}
    (hx : Lawful L Whatever x) (hk : ∀ r, Lawful L B (k r)) :
    Lawful L B (if c then x >>= k else k ()) :=
  .ite (hx.bind fun r _ => hk r) (hk ())

/-- A test in front of a step, the other way round. -/
theorem guardNot {c : Prop} [Decidable c] {x : Check PUnit} {k : PUnit → Check β}
    (hx : Lawful L Whatever x) (hk : ∀ r, Lawful L B (k r)) :
    Lawful L B (if c then k () else x >>= k) :=
  .ite (hk ()) (hx.bind fun r _ => hk r)

end Lawful

/-! ### Types of members and calls -/

section Members

variable {A : α → Prop}

/-- A complaint stops the check. -/
theorem lawful_reject (token : Token) (fault : Fault) : Lawful L A (reject token fault) := .throw _

/-- An answer has the property if every state of the law gives one that has it. -/
theorem lawful_answer {q : Checker → Option α} (h : ∀ s a, L.Holds s → q s = some a → A a) :
    Lawful L A (answer q) := by
  refine .getBind fun s hs => ?_
  cases hq : q s with
  | none => exact .throw _
  | some a => exact .pure (h s a hs hq)

/-- Nothing is said of a text. -/
theorem lawful_text (t : Ty) : Lawful L Whatever (text t) := lawful_answer fun _ _ _ _ => trivial

/-- Nothing is said of a comparison. -/
theorem lawful_assignable (param arg : Ty) :
    Lawful L Whatever (answer (·.assignable? (some param) (some arg))) :=
  lawful_answer fun _ _ _ _ => trivial

/-- The property of the more general type of two that its class is under a law. -/
def UnifiedOnly (L : Law) (u : Option (Option Ty)) : Prop :=
  ∀ t, u = some (some t) → t.Only L.classes

/-- A rejection whose text names a type. -/
theorem lawful_complain (token : Token) (t : Ty) (fault : String → Fault) :
    Lawful L A (do reject token (fault (← text t))) :=
  (lawful_text t).bind fun _ _ => lawful_reject ..

/-- A rejection whose text names two types. -/
theorem lawful_clash (token : Token) (t u : Ty) (fault : String → String → Fault) :
    Lawful L A (do reject token (fault (← text t) (← text u))) :=
  (lawful_text t).bind fun _ _ => (lawful_text u).bind fun _ _ => lawful_reject ..

/-- A node may get a type of a class under the law. -/
theorem lawful_record (id : NodeId) {t : Ty} (h : t.Only L.classes) :
    Lawful L (Ty.Only L.classes) (record id t) :=
  Lawful.bind (.change fun _ hs => hs.of_eq (hs.only.insertType id h) rfl rfl) fun _ _ => .pure h

/-- A use of a name is noted, which no law speaks of. -/
theorem lawful_noteUse (id : NodeId) (name : String) : Lawful L Whatever (noteUse id name) := by
  refine .change fun s hs => hs.of_eq ?_ rfl rfl
  exact ⟨hs.only.signatures, hs.only.attributes, hs.only.types, hs.only.globals, hs.only.locals,
    hs.only.context⟩

/-- A declared type is of a class under the law. -/
theorem lawful_declaredType (token : Token) :
    Lawful L (Ty.Only L.classes) (declaredType token) := by
  refine .getBind fun s hs => ?_
  cases ht : named? ((lookup? s token.lexeme).map Prod.snd) token.lexeme with
  | none => exact lawful_reject ..
  | some t =>
    refine .pure (Checker.Only.named? L.native (fun u hu => ?_) ht)
    obtain ⟨⟨place, v⟩, hlookup, rfl⟩ := Option.map_eq_some_iff.1 hu
    exact hs.only.lookup? hlookup

/-- A function may be made if its types are under the law, one for each parameter. -/
theorem lawful_newSignature {sig : Signature} (h : sig.Only L.classes)
    (hlength : sig.paramTypes.length = sig.params.length) :
    Lawful L Whatever (newSignature sig) where
  state _ hs := ⟨hs.only.pushSignature h, L.sign hs.tables hlength⟩
  value _ _ := trivial

/-- The types of a native method are under every law. -/
theorem lawful_nativeMethod (m : NativeMethod) :
    Lawful L (Ty.Only L.classes) (nativeMethod m) := by
  refine .getBind fun s hs => ?_
  cases s.nativeMethods.lookup m.operation with
  | some f => exact .pure trivial
  | none =>
    refine (lawful_newSignature (hs.only.nativeMethodSignature L.native m)
      (List.length_map _)).bind fun f _ => ?_
    refine Lawful.bind (.change fun s hs => hs.of_eq ?_ rfl rfl) fun _ _ => .pure trivial
    exact ⟨hs.only.signatures, hs.only.attributes, hs.only.types, hs.only.globals, hs.only.locals,
      hs.only.context⟩

/-- So is a member that all objects have. -/
theorem lawful_objectMember (t : Ty) (name : Token) :
    Lawful L (Ty.Only L.classes) (objectMember t name) := by
  unfold objectMember
  split
  · exact lawful_nativeMethod _
  · exact lawful_complain name t (.undefinedProperty name.lexeme)

/-- A member of a type is of a class under the law. -/
theorem lawful_member (t : Ty) (name : Token) : Lawful L (Ty.Only L.classes) (member t name) := by
  refine .ite (.pure (L.only_builtin .object)) ?_
  cases t with
  | «class» c => exact lawful_objectMember ..
  | function f => exact lawful_objectMember ..
  | «instance» c =>
    -- Only objects have members of their own; the native ones from their tables.
    dsimp only
    split
    · split
      · exact lawful_nativeMethod _
      · split
        · exact .getBind fun s hs => .pure (hs.only.globalType L.native _)
        · exact lawful_objectMember ..
    · refine .getBind fun s hs => ?_
      split
      · next ha => exact .pure (hs.only.lookup_attribute ha)
      · exact lawful_reject ..
      · refine .getBind fun s _ => ?_
        split
        · exact .pure trivial
        · exact lawful_reject ..
        · exact lawful_objectMember ..

/-- A field may get a type of a class under the law. -/
theorem lawful_putAttribute {c : ClassType} (hc : L.classes c) (hn : c.native? = none)
    (name : String) {t : Ty} (h : t.Only L.classes) :
    Lawful L Whatever (putAttribute c name t) := by
  refine .change fun s hs => ⟨hs.only.modifyBody c.id fun b hb x u hu => ?_,
    L.field hs.tables hc hn name t⟩
  dsimp only at hu
  rw [Std.TreeMap.getElem?_insert] at hu
  split at hu
  · cases hu
    exact h
  · exact hb x u hu

/-- The more general of two types is one of them. -/
theorem lawful_unify {a b : Ty} (ha : a.Only L.classes) (hb : b.Only L.classes) :
    Lawful L (UnifiedOnly L) (answer (·.unify? (some a) (some b))) := by
  refine lawful_answer fun s u _ hu t ht => ?_
  subst ht
  rcases eq_of_unify? hu with h | h
  · cases h
    exact ha
  · cases h
    exact hb

/-- An assignment to a field gives it a type of a class under the law. -/
theorem lawful_setAttribute {t : Ty} (ht : t.Only L.classes) (name : Token) {value : Ty}
    (h : value.Only L.classes) : Lawful L Whatever (setAttribute t name value) := by
  refine .ite (.done _) ?_
  cases t with
  | «class» c => exact lawful_reject ..
  | function f => exact lawful_reject ..
  | «instance» c =>
    dsimp only
    by_cases hn : c.native?.isSome
    · rw [if_pos hn]
      exact (lawful_reject (A := fun _ => False) ..).bind fun _ h => h.elim
    · rw [if_neg hn]
      -- A field is put into the body of a user's class only.
      have hput := fun (u : Ty) => lawful_putAttribute (t := u) ht
        (Option.not_isSome_iff_eq_none.1 hn) name.lexeme
      refine .getBind fun s hs => ?_
      split
      · exact lawful_reject ..
      · exact hput value h
      · next existing _ hfound =>
        have hexisting := hs.only.lookup_attribute hfound
        -- The field gets the common type of what it had and the value.
        refine (lawful_unify hexisting h).bind fun u hu => ?_
        cases u with
        | none => exact lawful_clash name existing value .redefinedAttribute
        | some u =>
          refine .getBind fun _ _ => .ite (hput _ ?_) (.done _)
          cases u with
          | none => exact hexisting
          | some u => exact hu u rfl

/-- An argument is only compared. -/
theorem lawful_argument (site : Token) (sig : Signature) (p : Nat) (arg : Ty) :
    Lawful L Whatever (argument site sig p arg) := by
  unfold argument
  split
  · refine (lawful_assignable ..).bind fun fits _ => .ite (.done _) ?_
    exact lawful_clash site _ arg fun want got => .badArgument want _ sig.name got
  · exact .throw _

/-- So are arguments in order. -/
theorem lawful_positional (site : Token) (sig : Signature) (i : Nat) (args : List Ty)
    (given : List Nat) : Lawful L Whatever (positional site sig i args given) := by
  induction args generalizing i given with
  | nil => exact .done _
  | cons arg rest ih => exact (lawful_argument ..).bind fun _ _ => ih ..

/-- So are named arguments. -/
theorem lawful_byName (sig : Signature) (named : List (Token × Ty)) (given : List Nat) :
    Lawful L Whatever (byName sig named given) := by
  induction named generalizing given with
  | nil => exact .done _
  | cons a rest ih =>
    obtain ⟨name, arg⟩ := a
    unfold byName
    split
    · exact lawful_reject ..
    · refine .guard (lawful_reject ..) fun _ => .guard (lawful_reject ..) fun _ => ?_
      exact (lawful_argument ..).bind fun _ _ => ih _

/-- So are all arguments. -/
theorem lawful_arguments (site : Token) (sig : Signature) (args : List Ty)
    (named : List (Token × Ty)) : Lawful L Whatever (arguments site sig args named) := by
  refine .guardNot (lawful_reject ..) fun _ => ?_
  refine (lawful_positional ..).bind fun _ _ => (lawful_byName ..).bind fun given _ => ?_
  dsimp only
  split
  · exact lawful_reject ..
  · exact .done _

/-- The constructor of a class is only looked up. -/
theorem lawful_constructor (site : Token) (c : ClassType) :
    Lawful L Whatever (constructor site c) := by
  unfold constructor
  split
  · split
    · exact lawful_reject ..
    · exact .getBind fun _ _ => .done _
  · refine .getBind fun s _ => ?_
    split
    · exact .getBind fun _ _ => .done _
    · exact lawful_reject ..
    · exact .done _

/-- The result of a function is that for its first argument, or else the usual one. -/
theorem only_result {sig : Signature} (h : sig.Only L.classes) {byArg : Option Ty}
    (hbyArg : ∀ t, byArg = some t → t.Only L.classes) :
    ((byArg <|> sig.returns).getD objectType).Only L.classes := by
  cases byArg with
  | some t => exact hbyArg t rfl
  | none =>
    cases hr : sig.returns with
    | some t => exact h.returns t hr
    | none => exact L.only_builtin .object

/-- The result of a call is of a class under the law. -/
theorem lawful_callType (site : Token) {callee : Ty} (h : callee.Only L.classes) (args : List Ty)
    (named : List (Token × Ty)) :
    Lawful L (Ty.Only L.classes) (callType site callee args named) := by
  refine .ite (.pure (L.only_builtin .object)) ?_
  cases callee with
  | «instance» c => exact lawful_reject ..
  | «class» c =>
    exact (lawful_constructor site c).bind fun _ _ => (lawful_arguments ..).bind fun _ _ => .pure h
  | function f =>
    refine .getBind fun s hs => (lawful_arguments ..).bind fun _ _ => .pure ?_
    have hsig := hs.only.signature f
    -- Only an object as the first argument can select another result.
    rcases args with _ | ⟨c | c | g, rest⟩
    · exact only_result hsig nofun
    · exact only_result hsig fun t ht => hsig.returnsByArg _ (mem_of_lookup ht)
    · exact only_result hsig nofun
    · exact only_result hsig nofun

/-- A member is looked for first; what follows starts where that ended. -/
theorem lawful_send (site : Token) (receiver : Ty) (name : String) (args : List Ty) :
    Lawful L (Ty.Only L.classes) (send site receiver name args) where
  state s hs := by
    have hmember : Lawful L (Ty.Only L.classes) (member receiver { site with lexeme := name }) :=
      lawful_member ..
    -- The state behind the look is under the law also where there is no member.
    have hstate := hmember.state s hs
    unfold Check.final at *
    rw [send_apply]
    cases hr : member receiver { site with lexeme := name } s with
    | ok m s' =>
      rw [hr] at hstate
      exact (lawful_callType site (hmember.value hs hr) args []).state s' hstate
    | error e s' =>
      rw [hr] at hstate
      cases e <;> exact hstate
  value {s t s''} hs hsend := by
    have hmember : Lawful L (Ty.Only L.classes) (member receiver { site with lexeme := name }) :=
      lawful_member ..
    have hstate := hmember.state s hs
    rw [send_apply] at hsend
    cases hr : member receiver { site with lexeme := name } s with
    | ok m s' =>
      rw [hr] at hsend
      rw [Check.final_ok hr] at hstate
      exact (lawful_callType site (hmember.value hs hr) args []).value hstate hsend
    | error e s' =>
      rw [hr] at hsend
      cases e <;> cases hsend

/-- A member of superclasses is of a class under the law. -/
theorem lawful_superNamed (c : ClassType) (name : String) (keyword : Token) :
    Lawful L (Ty.Only L.classes) (superNamed c.supers name keyword) := by
  refine .getBind fun s _ => ?_
  split
  · exact .pure trivial
  · exact lawful_reject ..
  · split
    · exact lawful_nativeMethod _
    · exact lawful_reject ..

/-- So is a member that is reached through `super`. -/
theorem lawful_superType (keyword : Token) (method : Option Token) :
    Lawful L (Ty.Only L.classes) (superType keyword method) := by
  refine .getBind fun s _ => ?_
  cases s.context with
  | none => exact .pure (L.only_builtin .object)
  | some context =>
    obtain ⟨returns, isInitializer, home, enclosing, around⟩ := context
    cases around with
    | none => exact .pure (L.only_builtin .object)
    | some c =>
      cases enclosing with
      | none => exact lawful_superNamed c _ keyword
      | some f =>
        -- To mark the function around the keyword changes none of its types.
        refine Lawful.bind (.change fun s hs => ⟨hs.only.modifySignature f ?_,
          L.mark hs.tables f⟩) fun _ _ => lawful_superNamed c _ keyword
        exact fun _ hsig => ⟨hsig.paramTypes, hsig.returns, hsig.returnsByArg⟩

/-! ### Types of expressions -/

/-- The result of an operator is of a class under the law. -/
theorem lawful_binaryType (op : Token) (left right : Ty) :
    Lawful L (Ty.Only L.classes) (binaryType op left right) := by
  refine (lawful_send ..).bind fun result hresult => .pure ?_
  split
  · exact L.only_builtin .bool
  · exact hresult

/-- So is the more general type of both sides. -/
theorem lawful_logicalType {left right : Ty} (hl : left.Only L.classes)
    (hr : right.Only L.classes) : Lawful L (Ty.Only L.classes) (logicalType left right) := by
  refine (lawful_unify hl hr).bind fun u hu => .pure ?_
  rcases u with _ | _ | t
  · exact L.only_builtin .object
  · exact L.only_builtin .object
  · exact hu t rfl

/-- So is the type of a name in use. -/
theorem lawful_useVariable (use : NameUse) : Lawful L (Ty.Only L.classes) (useVariable use) :=
  (lawful_noteUse ..).bind fun _ _ => .getBind fun _ hs =>
    lawful_record _ (hs.only.variableType L.native _)

/-- A name may get a type of a class under the law, in any scope. -/
theorem lawful_defineAt (place : Place) (name : String) {t : Option Ty}
    (h : ∀ u, t = some u → u.Only L.classes) : Lawful L Whatever (defineAt place name t) := by
  refine .change fun s hs => ?_
  cases place with
  | global => exact hs.of_eq (hs.only.insertGlobal name h) rfl rfl
  | «local» i =>
    refine hs.of_eq (hs.only.withLocals fun sc hsc => ?_) rfl rfl
    obtain ⟨j, hj⟩ := List.mem_iff_getElem?.1 hsc
    rw [List.getElem?_modify] at hj
    obtain ⟨old, hold, rfl⟩ := Option.map_eq_some_iff.1 hj
    have hvars := hs.only.locals old (List.mem_of_getElem? hold)
    split
    · exact List.forall_mem_cons.2 ⟨h, hvars⟩
    · exact hvars

/-- A name may get a type of a class under the law. -/
theorem lawful_define (name : String) {t : Option Ty} (h : ∀ u, t = some u → u.Only L.classes) :
    Lawful L Whatever (define name t) :=
  .getBind fun _ _ => lawful_defineAt _ name h

/-- An assignment gives a name a type of a class under the law. -/
theorem lawful_assign (name : Token) {value : Ty} (h : value.Only L.classes) :
    Lawful L Whatever (assign name value) := by
  refine .getBind fun s hs => ?_
  rcases hl : lookup? s name.lexeme with _ | ⟨place, _ | existing⟩
  · exact lawful_defineAt .global name.lexeme (only_some h)
  · exact lawful_defineAt place name.lexeme (only_some h)
  · refine (lawful_unify (hs.only.lookup? hl) h).bind fun u hu => ?_
    cases u with
    | none => exact lawful_clash name existing value .redefinedVariable
    | some u => exact lawful_defineAt place name.lexeme fun t ht => hu t (congrArg Option.some ht)

/-- The elements that a loop runs over are of a class under the law. -/
theorem lawful_elementType (keyword : Token) (t : Ty) :
    Lawful L (Ty.Only L.classes) (elementType keyword t) := by
  refine .ite (.pure (L.only_builtin .object)) ?_
  cases t with
  | «class» c => exact lawful_complain keyword _ .notIterable
  | function f => exact lawful_complain keyword _ .notIterable
  | «instance» c =>
    dsimp only
    split
    · split
      · exact .getBind fun s hs => .pure (hs.only.globalType L.native _)
      · exact lawful_reject ..
    · refine .getBind fun s _ => ?_
      split
      · exact .pure (L.only_builtin .object)
      · exact lawful_reject ..
      · exact lawful_reject ..

/-- A return may be noted with a type of a class under the law. -/
theorem lawful_noteReturn (keyword : Token) {t : Ty} (h : t.Only L.classes) :
    Lawful L Whatever (noteReturn keyword t) := by
  refine .change fun s hs => hs.of_eq (hs.only.withContext fun c hc => ?_) rfl rfl
  obtain ⟨old, hold, rfl⟩ := Option.map_eq_some_iff.1 hc
  have hcontext := hs.only.context old hold
  exact ⟨List.forall_mem_cons.2 ⟨h, hcontext.returns⟩, hcontext.class?⟩

/-- The common type of returns is of a class under the law if they all are. -/
theorem lawful_settle (name : String) {ret : Ty} (hret : ret.Only L.classes)
    {rest : List (Ty × Token)} (hrest : ∀ p ∈ rest, p.1.Only L.classes) :
    Lawful L (Ty.Only L.classes) (settle name ret rest) := by
  induction rest generalizing ret with
  | nil => exact .pure hret
  | cons r rest ih =>
    obtain ⟨t, keyword⟩ := r
    obtain ⟨ht, hrest⟩ := List.forall_mem_cons.1 hrest
    refine (lawful_unify hret ht).bind fun u hu => ?_
    cases u with
    | none => exact lawful_clash keyword ret t (.multipleReturns name)
    | some u =>
      refine ih ?_ hrest
      cases u with
      | none => exact hret
      | some u => exact hu u rfl

/-- So is the result of a function. -/
theorem lawful_resultType (name : String) {c : Context} (h : c.Only L.classes) :
    Lawful L (Ty.Only L.classes) (resultType name c) := by
  unfold resultType
  split
  · next cls _ hcls => exact .pure (h.class? cls hcls)
  · have hreturns := h.returns
    split
    · exact .pure (L.only_builtin .nil)
    · next t _ rest hreverse =>
      have hall : ∀ p ∈ c.returns.reverse, p.1.Only L.classes := fun p hp =>
        hreturns p (List.mem_reverse.1 hp)
      rw [hreverse] at hall
      obtain ⟨ht, hrest⟩ := List.forall_mem_cons.1 hall
      exact lawful_settle name ht hrest

/-! ### Functions and classes -/

/-- The names of parameters have the declared types. -/
theorem only_paramVars {params : List Param} {types : List Ty}
    {vars : List (String × Option Ty)} (htypes : ∀ t ∈ types, t.Only L.classes)
    (h : paramVars params types = some vars) : VarsOnly L.classes vars := by
  induction params generalizing types vars with
  | nil =>
    cases h
    exact List.forall_mem_nil _
  | cons p rest ih =>
    unfold paramVars at h
    split at h
    · obtain ⟨more, hmore, hvars⟩ := Option.bind_eq_some_iff.1 h
      cases hvars
      -- A variadic parameter has its native type, whatever is in the list.
      refine List.forall_mem_cons.2 ⟨only_some (L.only_builtin .varargs), ?_⟩
      exact ih (fun t ht => htypes t (List.mem_of_mem_tail ht)) hmore
    · split at h
      · cases h
      · obtain ⟨more, hmore, hvars⟩ := Option.bind_eq_some_iff.1 h
        cases hvars
        obtain ⟨ht, hts⟩ := List.forall_mem_cons.1 htypes
        exact List.forall_mem_cons.2 ⟨only_some ht, ih hts hmore⟩

/-- The context of a method is about the class of the method. -/
theorem only_methodContext {c : ClassType} (hc : L.classes c) (name : String) (f : SignatureId) :
    (methodContext c name f).Only L.classes where
  returns := List.forall_mem_nil _
  class? := by
    rintro _ ⟨⟩
    exact hc

/-- A new class may get a method. -/
theorem lawful_putMember {c : ClassType} (hc : L.fresh c) (name : String) (f : SignatureId) :
    Lawful L Whatever (putMember c name f) :=
  .change fun _ hs => ⟨hs.only.modifyBody c.id fun _ hb => hb, L.member hs.tables hc name f⟩

/-- The superclasses of a declaration are under the law, and none of them is native. -/
theorem lawful_superclasses (supers : List NameUse) :
    Lawful L (fun cs => ∀ c ∈ cs, L.classes c ∧ c.native? = none) (superclasses supers) := by
  induction supers with
  | nil => exact .pure (List.forall_mem_nil _)
  | cons use rest ih =>
    refine (lawful_useVariable use).bind fun t ht => ?_
    cases t with
    | «instance» c => exact lawful_reject ..
    | function f => exact lawful_reject ..
    | «class» c =>
      dsimp only
      -- A native class is rejected, so the classes that are kept are users'.
      split
      · exact (lawful_reject (A := fun _ => False) ..).bind fun _ h => h.elim
      · next hnative =>
        refine ih.bind fun cs hcs => .pure (List.forall_mem_cons.2 ⟨⟨ht, ?_⟩, hcs⟩)
        exact Option.not_isSome_iff_eq_none.1 hnative

/-- The types of literals are native ones. -/
theorem only_literalType (value : Literal) : (literalType value).Only L.classes := by
  cases value <;> exact L.only_builtin _

/-- The property of the types of parameters: there is one of a class under a law for each. -/
structure ParamTypesOnly (L : Law) (params : List Param) (types : List Ty) : Prop where
  /-- The classes are under the law. -/
  only : ∀ t ∈ types, t.Only L.classes
  /-- There are as many types as parameters. -/
  length : types.length = params.length

/-- The types of parameters are under a weaker law too. -/
theorem ParamTypesOnly.mono {L L' : Law} {params : List Param} {types : List Ty}
    (hL : ∀ c, L.classes c → L'.classes c) (h : ParamTypesOnly L params types) :
    ParamTypesOnly L' params types :=
  ⟨fun t ht => (h.only t ht).mono hL, h.length⟩

/-- A parameter with a type may be put in front. -/
theorem ParamTypesOnly.cons {p : Param} {params : List Param} {t : Ty} {types : List Ty}
    (ht : t.Only L.classes) (h : ParamTypesOnly L params types) :
    ParamTypesOnly L (p :: params) (t :: types) :=
  ⟨List.forall_mem_cons.2 ⟨ht, h.only⟩, congrArg (· + 1) h.length⟩

/-- A function with parameters whose result is not known yet. -/
theorem ParamTypesOnly.signature {params : List Param} {types : List Ty}
    (h : ParamTypesOnly L params types) (name : String) :
    Signature.Only L.classes { name, params, paramTypes := types, returns := none } :=
  ⟨h.only, nofun, List.forall_mem_nil _⟩

end Members

end Check

end ClassScript.Typing
