import ClassScript.Proofs.Typing.Closed
import ClassScript.Proofs.Typing.Edits

/-!
# The checker makes no reference to what does not exist

A step that starts in a closed state, with arguments that exist, ends in a closed state with a
value that exists, and keeps the functions and methods that are older than the check.
`Check.Closes` says so of one step, and there is a lemma for every function of the checker. What
existed at some moment exists later, as there are never fewer functions and classes.
-/

namespace ClassScript.Typing

namespace Check

variable {α β : Type} {base w : Extent}

/-- A step that starts where at least the extent `w` exists, and whose value has a property that
refers to what exists at its end. -/
structure Closes (base w : Extent) (A : Extent → α → Prop) (x : Check α) : Prop where
  /-- The state stays closed, and older functions and methods are kept. -/
  state : ∀ s, Closed base s.extent s → w ≤ s.extent →
    Closed base (x.final s).extent (x.final s) ∧ Keeps base s (x.final s)
  /-- The value has the property. -/
  value : ∀ {s a s'}, Closed base s.extent s → w ≤ s.extent → x s = .ok a s' → A s'.extent a

/-- The property of a value that refers to nothing. -/
def Plain (_ : Extent) (_ : α) : Prop := True

/-- The property of types that all of them exist. -/
def AllWithin (e : Extent) (ts : List Ty) : Prop := ∀ t ∈ ts, t.Within e

/-- The property of a type that it exists and can be declared. -/
def Declared (e : Extent) (t : Ty) : Prop := t.Within e ∧ t.IsInstance

/-- The property of types that all of them exist and can be declared. -/
def AllDeclared (e : Extent) (ts : List Ty) : Prop := ∀ t ∈ ts, Declared e t

/-- The property of named arguments that their types exist. -/
def NamedWithin (e : Extent) (named : List (Token × Ty)) : Prop := ∀ p ∈ named, p.2.Within e

/-- The property of a function that it exists and is not older than `base`. -/
def NewSignature (base e : Extent) (f : SignatureId) : Prop := f < e.sigs ∧ base.sigs ≤ f

/-- The property of a class that it exists and is not older than `base`. -/
def NewClass (base e : Extent) (c : ClassType) : Prop :=
  c.Within e.classes ∧ base.classes ≤ c.id

/-- Types that exist go on existing. -/
theorem AllWithin.mono {e e' : Extent} {ts : List Ty} (h : AllWithin e ts) (he : e ≤ e') :
    AllWithin e' ts :=
  fun t ht => (h t ht).mono he

/-- A type that can be declared can be declared later. -/
theorem Declared.mono {e e' : Extent} {t : Ty} (h : Declared e t) (he : e ≤ e') : Declared e' t :=
  ⟨h.1.mono he, h.2⟩

/-- Types that can be declared can be declared later. -/
theorem AllDeclared.mono {e e' : Extent} {ts : List Ty} (h : AllDeclared e ts) (he : e ≤ e') :
    AllDeclared e' ts :=
  fun t ht => (h t ht).mono he

/-- The types of named arguments go on existing. -/
theorem NamedWithin.mono {e e' : Extent} {named : List (Token × Ty)} (h : NamedWithin e named)
    (he : e ≤ e') : NamedWithin e' named :=
  fun p hp => (h p hp).mono he

/-- A function that was made since goes on existing. -/
theorem NewSignature.mono {e e' : Extent} {f : SignatureId} (h : NewSignature base e f)
    (he : e ≤ e') : NewSignature base e' f :=
  ⟨Nat.lt_of_lt_of_le h.1 he.1, h.2⟩

/-- A class that was made since goes on existing. -/
theorem NewClass.mono {e e' : Extent} {c : ClassType} (h : NewClass base e c) (he : e ≤ e') :
    NewClass base e' c :=
  ⟨h.1.mono he.2, h.2⟩

namespace Closes

variable {A : Extent → α → Prop} {B : Extent → β → Prop} {x y : Check α}

/-! ### Rules -/

/-- A value is enough if it refers to what exists now or later. -/
theorem pure {a : α} (h : ∀ e, w ≤ e → A e a) : Closes base w A (Pure.pure a) where
  state s hs _ := ⟨hs, .refl base s⟩
  value _ hw hr := by
    cases hr
    exact h _ hw

/-- A value that refers to nothing. -/
theorem done (a : α) : Closes base w Plain (Pure.pure a) := .pure fun _ _ => trivial

/-- A type that exists. -/
theorem type {t : Ty} (h : t.Within w) : Closes base w Ty.Within (Pure.pure t) :=
  .pure fun _ he => h.mono he

/-- A step that stops has no end to look at. -/
theorem throw (e : Stop) : Closes base w A (MonadExcept.throw e) where
  state s hs _ := ⟨hs, .refl base s⟩
  value _ _ hr := nomatch hr

/-- A change of the state has to keep it closed, and to keep what is older. -/
theorem change {f : Checker → Checker} (h : ∀ s, Closed base s.extent s → w ≤ s.extent →
    Closed base (f s).extent (f s) ∧ Keeps base s (f s)) :
    Closes base w Plain (modify f : Check PUnit) where
  state := h
  value _ _ _ := trivial

/-- The members of a class are changed: those of one that is not older than `base`, or only its
fields. -/
theorem changeBody (i : Nat) {u : ClassBody → ClassBody}
    (hu : ∀ e b, w ≤ e → ClassBody.Within base e i b → ClassBody.Within base e i (u b))
    (hm : base.classes ≤ i ∨ ∀ b, (u b).members = b.members) :
    Closes base w Plain
      (modify fun s => { s with bodies := s.bodies.modify i u } : Check PUnit) := by
  refine .change fun s hs hw => ?_
  have hkeeps : Keeps base s { s with bodies := s.bodies.modify i u } := .modifyBody hm
  exact ⟨(hs.modifyBody i fun b hb => hu _ b hw hb).mono hkeeps.extent, hkeeps⟩

/-- A function that is not older than `base` is changed. -/
theorem changeSignature {f : SignatureId} (hf : base.sigs ≤ f) {u : Signature → Signature}
    (hu : ∀ e sig, w ≤ e → Signature.Within e sig → Signature.Within e (u sig)) :
    Closes base w Plain
      (modify fun s => { s with signatures := s.signatures.modify f u } : Check PUnit) := by
  refine .change fun s hs hw => ?_
  have hkeeps : Keeps base s { s with signatures := s.signatures.modify f u } :=
    .modifySignature hf u
  exact ⟨(hs.modifySignature f fun sig hsig => hu _ sig hw hsig).mono hkeeps.extent, hkeeps⟩

/-- One step after another: the second one starts where the value of the first one exists. -/
theorem bind {f : α → Check β} (hx : Closes base w A x)
    (hf : ∀ w' a, w ≤ w' → A w' a → Closes base w' B (f a)) : Closes base w B (x >>= f) where
  state s hs hw := by
    obtain ⟨hclosed, hkeeps⟩ := hx.state s hs hw
    have hvalue : ∀ a s', x s = .ok a s' → A s'.extent a := fun _ _ => hx.value hs hw
    unfold Check.final at *
    rw [bind_apply]
    -- An error ends both; else the second step starts from the extent that the first one reached.
    cases hr : x s with
    | error e s' =>
      rw [hr] at hclosed hkeeps
      exact ⟨hclosed, hkeeps⟩
    | ok a s' =>
      rw [hr] at hclosed hkeeps
      have hrest := (hf s'.extent a (le_trans hw hkeeps.extent) (hvalue a s' hr)).state s' hclosed
        (le_refl _)
      exact ⟨hrest.1, hkeeps.trans hrest.2⟩
  value {s b s''} hs hw hr := by
    obtain ⟨hclosed, hkeeps⟩ := hx.state s hs hw
    rw [bind_apply] at hr
    cases hx' : x s with
    | error e s' =>
      rw [hx'] at hr
      cases hr
    | ok a s' =>
      rw [hx'] at hr
      rw [Check.final_ok hx'] at hclosed hkeeps
      have ha := hx.value hs hw hx'
      exact (hf s'.extent a (le_trans hw hkeeps.extent) ha).value hclosed (le_refl _) hr

/-- Looks at the state and goes on. -/
theorem getBind {f : Checker → Check β}
    (hf : ∀ s, Closed base s.extent s → w ≤ s.extent → Closes base s.extent B (f s)) :
    Closes base w B (MonadState.get >>= f) where
  state s hs hw := (hf s hs hw).state s hs (le_refl _)
  value {s _ _} hs hw hr := (hf s hs hw).value hs (le_refl _) hr

/-- A step that may start early may start later. -/
theorem later {w' : Extent} (hx : Closes base w A x) (hw : w ≤ w') : Closes base w' A x where
  state s hs hw' := hx.state s hs (le_trans hw hw')
  value hs hw' hr := hx.value hs (le_trans hw hw') hr

/-- Both branches of a choice have to be closed. -/
theorem ite {c : Prop} [Decidable c] (hx : Closes base w A x) (hy : Closes base w A y) :
    Closes base w A (if c then x else y) := by
  split
  · exact hx
  · exact hy

/-- A test in front of a step, which is left early or goes on. -/
theorem guard {c : Prop} [Decidable c] {x : Check PUnit} {k : PUnit → Check β}
    (hx : Closes base w Plain x) (hk : ∀ w' r, w ≤ w' → Closes base w' B (k r)) :
    Closes base w B (if c then x >>= k else k ()) :=
  .ite (hx.bind fun w' r hw _ => hk w' r hw) (hk w () (le_refl _))

/-- A test in front of a step, the other way round. -/
theorem guardNot {c : Prop} [Decidable c] {x : Check PUnit} {k : PUnit → Check β}
    (hx : Closes base w Plain x) (hk : ∀ w' r, w ≤ w' → Closes base w' B (k r)) :
    Closes base w B (if c then k () else x >>= k) :=
  .ite (hk w () (le_refl _)) (hx.bind fun w' r hw _ => hk w' r hw)

end Closes

/-! ### Types of members and calls -/

section Members

variable {A : Extent → α → Prop}

/-- A complaint stops the check. -/
theorem closes_reject (token : Token) (fault : Fault) : Closes base w A (reject token fault) :=
  .throw _

/-- An answer of the state is fine if what it refers to exists. -/
theorem closes_answer {q : Checker → Option α}
    (h : ∀ s a, q s = some a → ∀ e, w ≤ e → A e a) : Closes base w A (answer q) := by
  refine .getBind fun s _ hw => ?_
  cases hq : q s with
  | none => exact .throw _
  | some a => exact .pure fun e he => h s a hq e (le_trans hw he)

/-- A text refers to nothing. -/
theorem closes_text (t : Ty) : Closes base w Plain (text t) :=
  closes_answer fun _ _ _ _ _ => trivial

/-- A comparison of types refers to nothing. -/
theorem closes_assignable (param arg : Ty) :
    Closes base w Plain (answer (·.assignable? (some param) (some arg))) :=
  closes_answer fun _ _ _ _ _ => trivial

/-- The more general of two types is one of them. -/
theorem eq_of_unify? {s : Checker} {a b u : Option Ty} (h : s.unify? a b = some (some u)) :
    u = a ∨ u = b := by
  unfold Checker.unify? at h
  cases hsame : s.same? a b with
  | none =>
    rw [hsame] at h
    cases h
  | some equal =>
    rw [hsame] at h
    simp only [Option.bind_eq_bind, Option.bind_some] at h
    -- Each way to an answer gives one of the two back.
    repeat' split at h
    all_goals first
      | exact .inl (Option.some.inj (Option.some.inj h)).symm
      | exact .inr (Option.some.inj (Option.some.inj h)).symm
      | cases h

/-- The property of the more general type of two that it exists. -/
def UnifiedWithin (e : Extent) (u : Option (Option Ty)) : Prop :=
  ∀ t, u = some (some t) → t.Within e

/-- The more general type of two is one of them, so that it exists. -/
theorem closes_unify {a b : Ty} (ha : a.Within w) (hb : b.Within w) :
    Closes base w UnifiedWithin (answer (·.unify? (some a) (some b))) := by
  refine closes_answer fun s u hu e he t ht => ?_
  subst ht
  rcases eq_of_unify? hu with h | h
  · cases h
    exact ha.mono he
  · cases h
    exact hb.mono he

/-- A rejection whose text names a type. -/
theorem closes_complain (token : Token) (t : Ty) (fault : String → Fault) :
    Closes base w A (do reject token (fault (← text t))) :=
  (closes_text t).bind fun _ _ _ _ => closes_reject ..

/-- A rejection whose text names two types. -/
theorem closes_clash (token : Token) (t u : Ty) (fault : String → String → Fault) :
    Closes base w A (do reject token (fault (← text t) (← text u))) :=
  (closes_text t).bind fun _ _ _ _ => (closes_text u).bind fun _ _ _ _ => closes_reject ..

/-- The type of a node is recorded if it exists. -/
theorem closes_record (id : NodeId) {t : Ty} (h : t.Within w) :
    Closes base w Ty.Within (record id t) := by
  refine Closes.bind (.change fun s hs hw => ?_) fun w' _ hw _ => .type (h.mono hw)
  exact ⟨hs.insertType id (h.mono hw), .of_eq rfl rfl⟩

/-- A use of a name that is noted refers to nothing. -/
theorem closes_noteUse (id : NodeId) (name : String) : Closes base w Plain (noteUse id name) :=
  .change fun _ hs _ => ⟨hs.withFound _, .of_eq rfl rfl⟩

/-- A declared type is looked up among names whose types exist. -/
theorem closes_declaredType (token : Token) : Closes base w Declared (declaredType token) := by
  refine .getBind fun s hs _ => ?_
  cases ht : named? ((lookup? s token.lexeme).map Prod.snd) token.lexeme with
  | none => exact closes_reject ..
  | some t =>
    have hwithin : t.Within s.extent := Closed.named? (fun u hu => ?_) ht
    · exact .pure fun _ he => ⟨hwithin.mono he, Closed.isInstance_named? ht⟩
    obtain ⟨⟨place, v⟩, hlookup, rfl⟩ := Option.map_eq_some_iff.1 hu
    exact hs.lookup? hlookup

/-- A function that is made exists from then on, and is new. -/
theorem closes_newSignature {sig : Signature} (h : sig.Within w) :
    Closes base w (NewSignature base) (newSignature sig) where
  state s hs hw := by
    have hkeeps := Keeps.pushSignature hs.base_le sig
    exact ⟨(hs.pushSignature (h.mono hw)).mono hkeeps.extent, hkeeps⟩
  value {s f s'} hs hw hr := by
    cases hr
    refine ⟨?_, hs.base_le.1⟩
    simp [Checker.extent]

/-- The type of a native method exists, whether it was found or is made now. -/
theorem closes_nativeMethod (m : NativeMethod) : Closes base w Ty.Within (nativeMethod m) := by
  refine .getBind fun s hs _ => ?_
  -- The signature was made by an earlier use, or it is made now.
  cases hf : s.nativeMethods.lookup m.operation with
  | some f => exact .type (hs.lookup_native hf)
  | none =>
    have hnative := hs.nativeSignature m.name m.params m.returns
    have hsig : Signature.Within s.extent (nativeMethodSignature s m) := by
      refine ⟨hnative.paramTypes, hnative.declared, hnative.returns, fun p hp => ?_⟩
      obtain ⟨⟨arg, ret⟩, _, rfl⟩ := List.mem_map.1 hp
      exact hs.globalType ret
    refine (closes_newSignature hsig).bind fun w' f _ hf => ?_
    refine Closes.bind (.change fun s hs hw => ?_) fun _ _ hw' _ =>
      .type (Nat.lt_of_lt_of_le hf.1 hw'.1)
    exact ⟨hs.consNative m.operation (Nat.lt_of_lt_of_le hf.1 hw.1), .of_eq rfl rfl⟩

/-- A member that all objects have exists. -/
theorem closes_objectMember (t : Ty) (name : Token) :
    Closes base w Ty.Within (objectMember t name) := by
  unfold objectMember
  split
  · exact closes_nativeMethod _
  · exact closes_complain name t (.undefinedProperty name.lexeme)

/-- A member of a type exists. -/
theorem closes_member (t : Ty) (name : Token) : Closes base w Ty.Within (member t name) := by
  refine .ite (.type (within_objectType w)) ?_
  cases t with
  | «class» c => exact closes_objectMember ..
  | function f => exact closes_objectMember ..
  | «instance» c =>
    -- Only objects have members of their own; classes and functions have those of every object.
    dsimp only
    split
    · split
      · exact closes_nativeMethod _
      · split
        · exact .getBind fun s hs _ => .type (hs.globalType _)
        · exact closes_objectMember ..
    · refine .getBind fun s hs _ => ?_
      split
      · next a _ ha => exact .type (hs.lookup_attribute ha)
      · exact closes_reject ..
      · refine .getBind fun s hs _ => ?_
        split
        · next f _ hf => exact .type (hs.lookup_method hf)
        · exact closes_reject ..
        · exact closes_objectMember ..

/-- An attribute may be given a type that exists. -/
theorem closes_putAttribute (c : ClassType) (name : String) {t : Ty} (h : t.Within w) :
    Closes base w Plain (putAttribute c name t) :=
  .changeBody c.id (fun _ _ he hb => hb.insertAttribute name (h.mono he)) (.inr fun _ => rfl)

/-- An assignment to an attribute puts only the type of the value in. -/
theorem closes_setAttribute (t : Ty) (name : Token) {value : Ty} (h : value.Within w) :
    Closes base w Plain (setAttribute t name value) := by
  refine .ite (.done _) ?_
  cases t with
  | «class» c => exact closes_reject ..
  | function f => exact closes_reject ..
  | «instance» c =>
    refine .guard (closes_reject ..) fun w' _ hw => .getBind fun s hs hw' => ?_
    have hvalue : value.Within s.extent := h.mono (le_trans hw hw')
    split
    · exact closes_reject ..
    · exact closes_putAttribute c name.lexeme hvalue
    · next existing _ hfound =>
      have hexisting := hs.lookup_attribute hfound
      -- The attribute gets the common type of what it had and the value, and both exist.
      refine (closes_unify hexisting hvalue).bind fun w'' u hw'' hu => ?_
      cases u with
      | none => exact closes_clash name existing value .redefinedAttribute
      | some u =>
        refine .getBind fun s' _ hw₃ => .ite (closes_putAttribute c name.lexeme ?_) (.done _)
        cases u with
        | none => exact hexisting.mono (le_trans hw'' hw₃)
        | some u => exact (hu u rfl).mono hw₃

/-- The check of one argument keeps the state closed. -/
theorem closes_argument (site : Token) (sig : Signature) (p : Nat) (arg : Ty) :
    Closes base w Plain (argument site sig p arg) := by
  unfold argument
  split
  · refine (closes_assignable ..).bind fun _ fits _ _ => .ite (.done _) ?_
    exact closes_clash site _ arg fun want got => .badArgument want _ sig.name got
  · exact .throw _

/-- So does the check of arguments in order. -/
theorem closes_positional (site : Token) (sig : Signature) (i : Nat) (args : List Ty)
    (given : List Nat) : Closes base w Plain (positional site sig i args given) := by
  induction args generalizing w i given with
  | nil => exact .done _
  | cons arg rest ih => exact (closes_argument ..).bind fun _ _ _ _ => ih ..

/-- So does the check of named arguments. -/
theorem closes_byName (sig : Signature) (named : List (Token × Ty)) (given : List Nat) :
    Closes base w Plain (byName sig named given) := by
  induction named generalizing w given with
  | nil => exact .done _
  | cons a rest ih =>
    obtain ⟨name, arg⟩ := a
    unfold byName
    split
    · exact closes_reject ..
    · refine .guard (closes_reject ..) fun _ _ _ => .guard (closes_reject ..) fun _ _ _ => ?_
      exact (closes_argument ..).bind fun _ _ _ _ => ih _

/-- So does the check of all arguments. -/
theorem closes_arguments (site : Token) (sig : Signature) (args : List Ty)
    (named : List (Token × Ty)) : Closes base w Plain (arguments site sig args named) := by
  refine .guardNot (closes_reject ..) fun _ _ _ => ?_
  refine (closes_positional ..).bind fun _ _ _ _ => (closes_byName ..).bind fun _ given _ _ => ?_
  dsimp only
  split
  · exact closes_reject ..
  · exact .done _

/-- So does the check of a class that objects are made of. -/
theorem closes_constructor (site : Token) (c : ClassType) :
    Closes base w Plain (constructor site c) := by
  unfold constructor
  split
  · split
    · exact closes_reject ..
    · exact .getBind fun _ _ _ => .done _
  · refine .getBind fun s _ _ => ?_
    split
    · exact .getBind fun _ _ _ => .done _
    · exact closes_reject ..
    · exact .done _

/-- The result of a call exists: that of a function, or the object of a class. -/
theorem closes_callType (site : Token) {callee : Ty} (h : callee.Within w) (args : List Ty)
    (named : List (Token × Ty)) : Closes base w Ty.Within (callType site callee args named) := by
  refine .ite (.type (within_objectType w)) ?_
  cases callee with
  | «instance» c => exact closes_reject ..
  | «class» c =>
    refine (closes_constructor site c).bind fun w' _ hw _ => ?_
    refine (closes_arguments ..).bind fun w'' _ hw' _ => .type ?_
    exact ClassType.Within.mono h (le_trans hw hw').2
  | function f =>
    refine .getBind fun s hs _ => ?_
    have hsig := hs.signature f
    refine (closes_arguments ..).bind fun w' _ hw _ => .type (Ty.Within.mono ?_ hw)
    -- The function says what it returns, for its first argument or in general; a function that does
    -- not say returns any object.
    generalize s.signature f = sig at hsig
    have hreturns : ∀ byArg : Option Ty, (∀ t, byArg = some t → t.Within s.extent) →
        ((byArg <|> sig.returns).getD objectType).Within s.extent := by
      intro byArg hbyArg
      cases byArg with
      | some t => exact hbyArg t rfl
      | none =>
        cases hr : sig.returns with
        | some t => exact hsig.returns t hr
        | none => exact within_objectType _
    rcases args with _ | ⟨c | c | g, rest⟩
    · exact hreturns none nofun
    · exact hreturns _ fun t ht => hsig.returnsByArg _ (mem_of_lookup ht)
    · exact hreturns none nofun
    · exact hreturns none nofun

/-- A member is looked for first; what follows starts where that ended. -/
theorem closes_send (site : Token) (receiver : Ty) (name : String) (args : List Ty) :
    Closes base w Ty.Within (send site receiver name args) where
  state s hs hw := by
    have hmember : Closes base w Ty.Within (member receiver { site with lexeme := name }) :=
      closes_member ..
    -- The state behind the look is closed also where there is no member.
    obtain ⟨hclosed, hkeeps⟩ := hmember.state s hs hw
    unfold Check.final at *
    rw [send_apply]
    cases hr : member receiver { site with lexeme := name } s with
    | ok m s' =>
      rw [hr] at hclosed hkeeps
      have hm := hmember.value hs hw hr
      have hcall := (closes_callType site hm args []).state s' hclosed (le_refl _)
      exact ⟨hcall.1, hkeeps.trans hcall.2⟩
    | error e s' =>
      rw [hr] at hclosed hkeeps
      cases e <;> exact ⟨hclosed, hkeeps⟩
  value {s t s''} hs hw hsend := by
    have hmember : Closes base w Ty.Within (member receiver { site with lexeme := name }) :=
      closes_member ..
    obtain ⟨hclosed, _⟩ := hmember.state s hs hw
    rw [send_apply] at hsend
    cases hr : member receiver { site with lexeme := name } s with
    | ok m s' =>
      rw [hr] at hsend
      rw [Check.final_ok hr] at hclosed
      have hm := hmember.value hs hw hr
      exact (closes_callType site hm args []).value hclosed (le_refl _) hsend
    | error e s' =>
      rw [hr] at hsend
      cases e <;> cases hsend

/-- A member of the superclasses exists. -/
theorem closes_superNamed (c : ClassType) (name : String) (keyword : Token) :
    Closes base w Ty.Within (superNamed c.supers name keyword) := by
  refine .getBind fun s hs _ => ?_
  split
  · next f _ hf => exact .type (hs.lookup_superMethod hf)
  · exact closes_reject ..
  · split
    · exact closes_nativeMethod _
    · exact closes_reject ..

/-- A member that is reached through `super` exists. -/
theorem closes_superType (keyword : Token) (method : Option Token) :
    Closes base w Ty.Within (superType keyword method) := by
  refine .getBind fun s hs _ => ?_
  have hcontext := hs.context
  cases hc : s.context with
  | none => exact .type (within_objectType _)
  | some context =>
    have hmethod := (hcontext context hc).method?
    obtain ⟨returns, isInitializer, home, enclosing, around⟩ := context
    cases around with
    | none => exact .type (within_objectType _)
    | some c =>
      cases enclosing with
      | none => exact closes_superNamed c _ keyword
      | some f =>
        -- The method around the place is not older than the check.
        refine Closes.bind (.changeSignature (hmethod f rfl).2 ?_) fun _ _ _ _ =>
          closes_superNamed c _ keyword
        exact fun _ _ _ hsig => ⟨hsig.paramTypes, hsig.declared, hsig.returns, hsig.returnsByArg⟩

/-! ### Types of expressions -/

/-- The result of an operator exists. -/
theorem closes_binaryType (op : Token) (left right : Ty) :
    Closes base w Ty.Within (binaryType op left right) := by
  refine (closes_send ..).bind fun w' result _ hresult => .type ?_
  split
  · exact within_builtin w' .bool
  · exact hresult

/-- The more general type of both sides exists. -/
theorem closes_logicalType {left right : Ty} (hl : left.Within w) (hr : right.Within w) :
    Closes base w Ty.Within (logicalType left right) := by
  refine (closes_unify hl hr).bind fun w' u _ hu => .type ?_
  rcases u with _ | _ | t
  · exact within_objectType w'
  · exact within_objectType w'
  · exact hu t rfl

/-- The type of a name in use exists. -/
theorem closes_useVariable (use : NameUse) : Closes base w Ty.Within (useVariable use) :=
  (closes_noteUse ..).bind fun _ _ _ _ => .getBind fun _ hs _ =>
    closes_record _ (hs.variableType _)

/-- A name may be given a type that exists, in any scope. -/
theorem closes_defineAt (place : Place) (name : String) {t : Option Ty} (h : OptionWithin w t) :
    Closes base w Plain (defineAt place name t) := by
  refine .change fun s hs hw => ?_
  cases place with
  | global => exact ⟨hs.insertGlobal name (h.mono hw), .of_eq rfl rfl⟩
  | «local» i =>
    -- Of the local scopes only one has another list of names.
    refine ⟨hs.withLocals fun sc hsc => ?_, .of_eq rfl rfl⟩
    obtain ⟨j, hj⟩ := List.mem_iff_getElem?.1 hsc
    rw [List.getElem?_modify] at hj
    obtain ⟨old, hold, rfl⟩ := Option.map_eq_some_iff.1 hj
    have hvars := hs.locals old (List.mem_of_getElem? hold)
    split
    · exact List.forall_mem_cons.2 ⟨h.mono hw, hvars⟩
    · exact hvars

/-- A name may be given a type that exists. -/
theorem closes_define (name : String) {t : Option Ty} (h : OptionWithin w t) :
    Closes base w Plain (define name t) :=
  .getBind fun _ _ hw => closes_defineAt _ name (h.mono hw)

/-- An assignment puts only the type of the value in. -/
theorem closes_assign (name : Token) {value : Ty} (h : value.Within w) :
    Closes base w Plain (assign name value) := by
  refine .getBind fun s hs hw => ?_
  have hvalue := h.mono hw
  rcases hl : lookup? s name.lexeme with _ | ⟨place, _ | existing⟩
  · exact closes_defineAt .global name.lexeme (.some hvalue)
  · exact closes_defineAt place name.lexeme (.some hvalue)
  · refine (closes_unify (hs.lookup? hl) hvalue).bind fun w' u _ hu => ?_
    cases u with
    | none => exact closes_clash name existing value .redefinedVariable
    | some u => exact closes_defineAt place name.lexeme fun t ht => hu t (congrArg Option.some ht)

/-- The elements that a loop runs over have a type that exists. -/
theorem closes_elementType (keyword : Token) (t : Ty) :
    Closes base w Ty.Within (elementType keyword t) := by
  refine .ite (.type (within_objectType w)) ?_
  cases t with
  | «class» c => exact closes_complain keyword _ .notIterable
  | function f => exact closes_complain keyword _ .notIterable
  | «instance» c =>
    dsimp only
    split
    · split
      · exact .getBind fun s hs _ => .type (hs.globalType _)
      · exact closes_reject ..
    · refine .getBind fun s _ _ => ?_
      split
      · exact .type (within_objectType _)
      · exact closes_reject ..
      · exact closes_reject ..

/-- A return may be noted with a type that exists. -/
theorem closes_noteReturn (keyword : Token) {t : Ty} (h : t.Within w) :
    Closes base w Plain (noteReturn keyword t) := by
  refine .change fun s hs hw => ⟨hs.withContext fun c hc => ?_, .of_eq rfl rfl⟩
  obtain ⟨old, hold, rfl⟩ := Option.map_eq_some_iff.1 hc
  have hcontext := hs.context old hold
  exact ⟨List.forall_mem_cons.2 ⟨h.mono hw, hcontext.returns⟩, hcontext.method?, hcontext.class?⟩

/-- The common type of the returns of a function exists. -/
theorem closes_settle (name : String) {ret : Ty} (hret : ret.Within w) {rest : List (Ty × Token)}
    (hrest : ∀ p ∈ rest, p.1.Within w) : Closes base w Ty.Within (settle name ret rest) := by
  -- On the returns that are left. What is settled on so far is one of those in front.
  induction rest generalizing w ret with
  | nil => exact .type hret
  | cons r rest ih =>
    obtain ⟨t, keyword⟩ := r
    obtain ⟨ht, hrest⟩ := List.forall_mem_cons.1 hrest
    refine (closes_unify hret ht).bind fun w' u hw hu => ?_
    cases u with
    | none => exact closes_clash keyword ret t (.multipleReturns name)
    | some u =>
      refine ih ?_ fun p hp => (hrest p hp).mono hw
      cases u with
      | none => exact hret.mono hw
      | some u => exact hu u rfl

/-- The result of a function exists if its returns do. -/
theorem closes_resultType (name : String) {c : Context} (h : c.Within base w) :
    Closes base w Ty.Within (resultType name c) := by
  unfold resultType
  -- An initializer answers its class, and a function without returns answers nil.
  split
  · next cls _ hcls => exact .type (h.class? cls hcls)
  · have hreturns := h.returns
    split
    · exact .type (within_builtin w .nil)
    · next t _ rest hreverse =>
      have hall : ∀ p ∈ c.returns.reverse, p.1.Within w := fun p hp =>
        hreturns p (List.mem_reverse.1 hp)
      rw [hreverse] at hall
      obtain ⟨ht, hrest⟩ := List.forall_mem_cons.1 hall
      exact closes_settle name ht hrest

/-! ### Functions and classes -/

/-- A scope of types that exist may be put around a step. -/
theorem closes_inScope {scope : StaticScope} (hscope : VarsWithin w scope.vars) {x : Check α}
    (hx : Closes base w Plain x) : Closes base w Plain (inScope scope x) := by
  refine Closes.bind (.change fun s hs hw => ?_) fun w' _ hw _ => ?_
  · exact ⟨hs.withLocals (List.forall_mem_cons.2 ⟨hscope.mono hw, hs.locals⟩), .of_eq rfl rfl⟩
  · refine (hx.later hw).bind fun _ _ _ _ => ?_
    refine Closes.bind (.change fun s hs _ => ?_) fun _ _ _ _ => .done _
    exact ⟨hs.withLocals fun sc hsc => hs.locals sc (List.mem_of_mem_tail hsc), .of_eq rfl rfl⟩

/-- The names of parameters have their declared types. -/
theorem within_paramVars {params : List Param} {types : List Ty}
    {vars : List (String × Option Ty)} (htypes : AllWithin w types)
    (h : paramVars params types = some vars) : VarsWithin w vars := by
  induction params generalizing types vars with
  | nil =>
    cases h
    exact nofun
  | cons p rest ih =>
    -- A variadic parameter takes no type of its own from the list.
    unfold paramVars at h
    split at h
    · obtain ⟨more, hmore, hvars⟩ := Option.bind_eq_some_iff.1 h
      cases hvars
      refine List.forall_mem_cons.2 ⟨?_, ih (fun t ht => htypes t (List.mem_of_mem_tail ht)) hmore⟩
      exact OptionWithin.some (within_builtin w .varargs)
    · split at h
      · cases h
      · obtain ⟨more, hmore, hvars⟩ := Option.bind_eq_some_iff.1 h
        cases hvars
        obtain ⟨ht, hts⟩ := List.forall_mem_cons.1 htypes
        exact List.forall_mem_cons.2 ⟨OptionWithin.some ht, ih hts hmore⟩

/-- The body of a function is checked in a context of its own, and only a new function gets a
result. -/
theorem closes_functionBody (id : NodeId) (params : List Param) {f : SignatureId}
    (hf : NewSignature base w f) {context : Context} (hc : context.Within base w)
    {body : Check Unit} (hb : Closes base w Plain body) :
    Closes base w Plain (functionBody id params f context body) := by
  refine .getBind fun s hs hw => ?_
  dsimp only
  split
  · exact .throw _
  · -- The names of the parameters and the types of the function are closed together.
    next vars hvars =>
    have hscope : VarsWithin s.extent vars.reverse := by
      intro p hp
      exact within_paramVars (hs.signature f).paramTypes hvars p (List.mem_reverse.1 hp)
    refine .getBind fun s₁ hs₁ hw₁ => ?_
    refine Closes.bind (.change fun s hs hw₂ => ⟨hs.withContext ?_, .of_eq rfl rfl⟩)
      fun _ _ hw₂ _ => ?_
    · rintro _ ⟨⟩
      exact hc.mono (le_trans hw (le_trans hw₁ hw₂))
    refine (closes_inScope (hscope.mono (le_trans hw₁ hw₂))
      (hb.later (le_trans hw (le_trans hw₁ hw₂)))).bind fun w₃ _ hw₃ _ => ?_
    have hlater := le_trans hw (le_trans hw₁ (le_trans hw₂ hw₃))
    refine .getBind fun s₄ hs₄ hw₄ => ?_
    -- The context at the end is the one the body was entered with, or the one it left.
    have hinner : (s₄.context.getD context).Within base s₄.extent := by
      cases h : s₄.context with
      | none => exact hc.mono (le_trans hlater hw₄)
      | some c => exact hs₄.context c h
    refine (closes_resultType _ hinner).bind fun w₅ result hw₅ hresult => ?_
    refine .change fun s₆ hs₆ hw₆ => ?_
    have hkeeps : Keeps base s₆ { s₆ with
        signatures := s₆.signatures.modify f ({ · with returns := some result }) } :=
      .modifySignature hf.2 _
    have hclosed := hs₆.modifySignature f (u := ({ · with returns := some result }))
      fun sig hsig =>
        ⟨hsig.paramTypes, hsig.declared, OptionWithin.some (hresult.mono hw₆), hsig.returnsByArg⟩
    -- The context in front of the body comes back, and everything in it still exists.
    have hback : ∀ c, s₁.context = some c → c.Within base s₆.extent := fun c h =>
      (hs₁.context c h).mono (le_trans hw₂ (le_trans hw₃ (le_trans hw₄ (le_trans hw₅ hw₆))))
    exact ⟨(hclosed.withContext hback).mono hkeeps.extent, hkeeps.trans (.of_eq rfl rfl)⟩

/-- The context of a method of a new class refers to new things. -/
theorem within_methodContext {c : ClassType} (hc : NewClass base w c) (name : String)
    {f : SignatureId} (hf : NewSignature base w f) :
    (methodContext c name f).Within base w where
  returns := List.forall_mem_nil _
  method? := by
    rintro _ ⟨⟩
    exact hf
  class? := by
    rintro _ ⟨⟩
    exact hc.1

/-- A new class may get a new method. -/
theorem closes_putMember {c : ClassType} (hc : NewClass base w c) (name : String)
    {f : SignatureId} (hf : NewSignature base w f) :
    Closes base w Plain (putMember c name f) :=
  .changeBody c.id (fun _ _ he hb => hb.insertMember name (hf.mono he)) (.inl hc.2)

/-- A class that is made exists from then on, and is new. -/
theorem closes_newClass (name : String) {supers : List ClassType}
    (h : ∀ c ∈ supers, c.Within w.classes ∧ c.native? = none) :
    Closes base w (NewClass base) (newClass name supers) where
  state s hs _ := by
    have hkeeps := Keeps.pushBody hs.base_le {}
    exact ⟨hs.pushBody.mono hkeeps.extent, hkeeps⟩
  value {s c s'} hs hw hr := by
    have hmore := (Keeps.pushBody hs.base_le {}).extent.2
    cases hr
    refine ⟨.mk ?_ (fun c hc => ?_) fun c hc => (h c hc).1.mono (Nat.le_trans hw.2 hmore),
      hs.base_le.2⟩
    · simp [Checker.extent]
    · exact Nat.lt_of_lt_of_le ((h c hc).1.id_lt (h c hc).2) hw.2

/-- The superclasses of a declaration exist, and none of them is native. -/
theorem closes_superclasses (supers : List NameUse) :
    Closes base w (fun e cs => ∀ c ∈ cs, ClassType.Within e.classes c ∧ c.native? = none)
      (superclasses supers) := by
  induction supers generalizing w with
  | nil => exact .pure fun _ _ => List.forall_mem_nil _
  | cons use rest ih =>
    refine (closes_useVariable use).bind fun w' t _ ht => ?_
    cases t with
    | «instance» c => exact closes_reject ..
    | function f => exact closes_reject ..
    | «class» c =>
      dsimp only
      -- A native class is rejected, so the classes that are kept are users'.
      split
      · exact (closes_reject (A := fun _ _ => False) ..).bind fun _ _ _ h => h.elim
      · next hnative =>
        refine ih.bind fun w₂ cs hw₂ hcs => .pure fun e he => List.forall_mem_cons.2
          ⟨⟨ClassType.Within.mono ht (le_trans hw₂ he).2, ?_⟩,
            fun d hd => ⟨(hcs d hd).1.mono he.2, (hcs d hd).2⟩⟩
        exact Option.not_isSome_iff_eq_none.1 hnative

/-! ### Expressions and statements -/

/-- The type of a literal is a native one. -/
theorem within_literalType (e : Extent) (value : Literal) : (literalType value).Within e := by
  cases value <;> exact within_builtin e _

/-- A function with parameters whose result is not known yet. -/
theorem within_declared {name : String} {params : List Param} {types : List Ty}
    (h : AllDeclared w types) :
    Signature.Within w { name, params, paramTypes := types, returns := none } :=
  ⟨fun t ht => (h t ht).1, fun t ht => (h t ht).2, nofun, nofun⟩

mutual

/-- Expressions have types that exist. -/
theorem closes_expr (w : Extent) : ∀ e : Expr, Closes base w Ty.Within (expr e)
  | .literal id token value => closes_record id (within_literalType w value)
  | .group id paren inner => (closes_expr w inner).bind fun _ _ _ ht => closes_record id ht
  | .list id bracket elements =>
    (closes_exprs w elements).bind fun w' _ _ _ => closes_record id (within_builtin w' .list)
  | .var use => closes_useVariable use
  | .self id keyword => .getBind fun _ hs _ => closes_record id hs.selfType
  | .assign id name value =>
    (closes_expr w value).bind fun _ _ _ ht =>
      (closes_noteUse id name.lexeme).bind fun _ _ hw _ =>
        (closes_assign name (ht.mono hw)).bind fun _ _ hw' _ =>
          closes_record id (ht.mono (le_trans hw hw'))
  | .super id keyword method =>
    (closes_superType keyword method).bind fun _ _ _ ht => closes_record id ht
  | .unary id op right =>
    (closes_expr w right).bind fun _ _ _ _ =>
      (closes_send ..).bind fun _ _ _ ht => closes_record id ht
  | .binary id left op right =>
    (closes_expr w left).bind fun _ _ _ _ => (closes_expr _ right).bind fun _ _ _ _ =>
      (closes_binaryType ..).bind fun _ _ _ ht => closes_record id ht
  | .logical id left op right =>
    (closes_expr w left).bind fun _ _ _ hl => (closes_expr _ right).bind fun _ _ hw hr =>
      (closes_logicalType (hl.mono hw) hr).bind fun _ _ _ ht => closes_record id ht
  | .call id callee paren args named =>
    (closes_expr w callee).bind fun _ _ _ hfn => (closes_exprs _ args).bind fun _ _ hw _ =>
      (closes_namedArgs _ named).bind fun _ _ hw' _ =>
        (closes_callType paren (hfn.mono (le_trans hw hw')) _ _).bind fun _ _ _ ht =>
          closes_record id ht
  | .get id object name =>
    (closes_expr w object).bind fun _ _ _ _ =>
      (closes_member ..).bind fun _ _ _ ht => closes_record id ht
  | .set id object name value =>
    (closes_expr w object).bind fun _ _ _ _ => (closes_expr _ value).bind fun _ _ _ hv =>
      (closes_setAttribute _ name hv).bind fun _ _ hw _ => closes_record id (hv.mono hw)
  | .lambda ⟨id, keyword, name, params, body⟩ => by
    refine (closes_paramTypes w params).bind fun w₁ types _ htypes => ?_
    refine (closes_newSignature (within_declared htypes)).bind fun w₂ f _ hf => ?_
    refine .getBind fun s hs hw => ?_
    -- The body is checked in a context below the one around the function.
    have hbody := closes_functionBody id params (hf.mono hw) hs.childContext
      (closes_stmts s.extent body)
    exact hbody.bind fun _ _ hw' _ => closes_record id (hf.mono (le_trans hw hw')).1

/-- So have expressions in a row. -/
theorem closes_exprs (w : Extent) : ∀ es : List Expr, Closes base w AllWithin (exprs es)
  | [] => .pure fun _ _ => List.forall_mem_nil _
  | e :: rest =>
    (closes_expr w e).bind fun _ _ _ ht => (closes_exprs _ rest).bind fun _ _ hw hts =>
      .pure fun _ he => List.forall_mem_cons.2 ⟨ht.mono (le_trans hw he), hts.mono he⟩

/-- So have named arguments. -/
theorem closes_namedArgs (w : Extent) : ∀ args : List NamedArg,
    Closes base w NamedWithin (namedArgs args)
  | [] => .pure fun _ _ => List.forall_mem_nil _
  | ⟨_, value⟩ :: rest =>
    (closes_expr w value).bind fun _ _ _ ht => (closes_namedArgs _ rest).bind fun _ _ hw hts =>
      .pure fun _ he => List.forall_mem_cons.2 ⟨ht.mono (le_trans hw he), hts.mono he⟩

/-- Parameters have types that exist and can be declared. -/
theorem closes_paramTypes (w : Extent) : ∀ params : List Param,
    Closes base w AllDeclared (paramTypes params)
  | [] => .pure fun _ _ => List.forall_mem_nil _
  | ⟨type, _, none, _⟩ :: rest =>
    (closes_declaredType type).bind fun _ _ _ ht => (closes_paramTypes _ rest).bind
      fun _ _ hw hts => .pure fun _ he =>
        List.forall_mem_cons.2 ⟨ht.mono (le_trans hw he), hts.mono he⟩
  | ⟨type, name, some value, _⟩ :: rest => by
    refine (closes_declaredType type).bind fun w₁ t _ ht => ?_
    refine (closes_expr w₁ value).bind fun w₂ d hw₂ _ => ?_
    -- The other parameters are checked whether or not the default fits.
    have hrest : ∀ w', w₁ ≤ w' →
        Closes base w' AllDeclared (do return t :: (← paramTypes rest)) := fun w' hw' =>
      (closes_paramTypes w' rest).bind fun _ _ hw hts => .pure fun _ he =>
        List.forall_mem_cons.2 ⟨ht.mono (le_trans hw' (le_trans hw he)), hts.mono he⟩
    refine (closes_assignable t d).bind fun w₃ fits hw₃ _ => .ite (hrest w₃ (le_trans hw₂ hw₃)) ?_
    refine (closes_text t).bind fun w₄ _ hw₄ _ => (closes_text d).bind fun w₅ _ hw₅ _ => ?_
    refine (closes_reject (A := Plain) ..).bind fun w₆ _ hw₆ _ => hrest w₆ ?_
    exact le_trans hw₂ (le_trans hw₃ (le_trans hw₄ (le_trans hw₅ hw₆)))

/-- The methods of a new class are declared as new functions. -/
theorem closes_declareMethods (w : Extent) {c : ClassType} (hc : NewClass base w c) :
    ∀ methods : List Lambda, Closes base w Plain (declareMethods c methods)
  | [] => .done _
  | ⟨id, _, name, params, _⟩ :: rest => by
    refine (closes_paramTypes w params).bind fun w₁ types hw₁ htypes => ?_
    refine (closes_newSignature (within_declared htypes)).bind fun w₂ f hw₂ hf => ?_
    have hc₂ := hc.mono (le_trans hw₁ hw₂)
    refine (closes_putMember hc₂ _ hf).bind fun w₃ _ hw₃ _ => ?_
    refine (closes_record id (t := .function f) (hf.mono hw₃).1).bind fun w₄ _ hw₄ _ => ?_
    exact closes_declareMethods w₄ (hc₂.mono (le_trans hw₃ hw₄)) rest

/-- The body of a method is checked for a new function, since its class is new. -/
theorem closes_methodBody (w : Extent) {c : ClassType} (hc : NewClass base w c) :
    ∀ fn : Lambda, Closes base w Plain (methodBody c fn)
  | ⟨id, _, name, params, body⟩ => by
    refine .getBind fun s hs hw => ?_
    cases hf : (s.body c).members[(name.map Token.lexeme).getD "lambda"]? with
    | none => exact .throw _
    | some f =>
      -- The methods of a class that is not older than the check are not older either.
      have hmember := (hs.body c).members _ f hf
      have hnew : NewSignature base s.extent f := ⟨hmember.1, hmember.2 hc.2⟩
      exact closes_functionBody id params hnew (within_methodContext (hc.mono hw) _ hnew)
        (closes_stmts s.extent body)

/-- So are the bodies of the initializers. -/
theorem closes_initializerBodies (w : Extent) {c : ClassType} (hc : NewClass base w c) :
    ∀ methods : List Lambda, Closes base w Plain (initializerBodies c methods)
  | [] => .done _
  | fn :: rest =>
    (closes_initializerBodies w hc rest).bind fun _ _ hw _ =>
      .ite (closes_methodBody _ (hc.mono hw) fn) (.done _)

/-- So are the bodies of the other methods. -/
theorem closes_otherBodies (w : Extent) {c : ClassType} (hc : NewClass base w c) :
    ∀ methods : List Lambda, Closes base w Plain (otherBodies c methods)
  | [] => .done _
  | fn :: rest =>
    .guard (closes_methodBody w hc fn) fun _ _ hw => closes_otherBodies _ (hc.mono hw) rest

/-- A block puts an empty scope around its statements. -/
theorem closes_block (w : Extent) : ∀ b : Block, Closes base w Plain (block b)
  | ⟨id, _, body⟩ =>
    (closes_record id (within_builtin w .nil)).bind fun _ _ _ _ =>
      closes_inScope (VarsWithin.nil _) (closes_stmts _ body)

/-- Statements keep the state closed. -/
theorem closes_stmt (w : Extent) : ∀ s : Stmt, Closes base w Plain (stmt s)
  | .expr id value =>
    (closes_expr w value).bind fun _ _ _ ht => (closes_record id ht).bind fun _ _ _ _ => .done _
  | .varDecl id name none =>
    (closes_define name.lexeme (.none w)).bind fun w' _ _ _ =>
      (closes_record id (within_builtin w' .nil)).bind fun _ _ _ _ => .done _
  | .varDecl id name (some value) =>
    (closes_expr w value).bind fun _ _ _ ht =>
      (closes_define name.lexeme (.some ht)).bind fun _ _ hw _ =>
        (closes_record id (ht.mono hw)).bind fun _ _ _ _ => .done _
  | .function id ⟨fid, _, name, params, body⟩ => by
    refine (closes_paramTypes w params).bind fun w₁ types _ htypes => ?_
    refine (closes_newSignature (within_declared htypes)).bind fun w₂ f _ hf => ?_
    have hfun : ∀ w', w₂ ≤ w' → Ty.Within w' (.function f) := fun _ hw => (hf.mono hw).1
    -- The function is known by its name inside its own body.
    refine (closes_define _ (.some (hfun w₂ (le_refl _)))).bind fun w₃ _ hw₃ _ => ?_
    refine (closes_record id (hfun w₃ hw₃)).bind fun w₄ _ hw₄ _ => .getBind fun s hs hw₅ => ?_
    have hf₅ := hf.mono (le_trans hw₃ (le_trans hw₄ hw₅))
    exact closes_functionBody fid params hf₅ hs.childContext (closes_stmts s.extent body)
  | .classDecl id name supers methods => by
    refine (closes_superclasses supers).bind fun w₁ cs _ hcs => ?_
    refine (closes_newClass name.lexeme hcs).bind fun w₂ c _ hc => ?_
    -- The class is known by its name inside its own methods.
    refine (closes_define name.lexeme (t := some (.class c)) (.some hc.1)).bind
      fun w₃ _ hw₃ _ => ?_
    have hc₃ := hc.mono hw₃
    refine (closes_record id (t := .class c) hc₃.1).bind fun w₄ _ hw₄ _ => ?_
    have hc₄ := hc₃.mono hw₄
    have hself := VarsWithin.single "self" (t := .instance c) hc₄.1
    refine closes_inScope hself ?_
    refine (closes_declareMethods w₄ hc₄ methods).bind fun w₅ _ hw₅ _ => ?_
    refine (closes_initializerBodies w₅ (hc₄.mono hw₅) methods).bind fun w₆ _ hw₆ _ => ?_
    exact closes_otherBodies w₆ (hc₄.mono (le_trans hw₅ hw₆)) methods
  | .block b => closes_block w b
  | .ifElse id keyword condition body none =>
    (closes_record id (within_builtin w .nil)).bind fun _ _ _ _ =>
      (closes_expr _ condition).bind fun _ _ _ _ => closes_block _ body
  | .ifElse id keyword condition body (some otherwise) =>
    (closes_record id (within_builtin w .nil)).bind fun _ _ _ _ =>
      (closes_expr _ condition).bind fun _ _ _ _ => (closes_block _ body).bind fun _ _ _ _ =>
        closes_stmt _ otherwise
  | .whileLoop id keyword condition body =>
    (closes_record id (within_builtin w .nil)).bind fun _ _ _ _ =>
      (closes_expr _ condition).bind fun _ _ _ _ => closes_block _ body
  | .forIn id keyword name iterable body => by
    refine (closes_record id (within_builtin w .nil)).bind fun w₁ _ _ _ => ?_
    refine (closes_expr w₁ iterable).bind fun w₂ t _ _ => ?_
    refine (closes_elementType keyword t).bind fun w₃ e _ he => ?_
    exact closes_inScope (VarsWithin.single name.lexeme he) (closes_block w₃ body)
  | .ret id keyword none =>
    (closes_record id (within_builtin w .nil)).bind fun _ _ _ ht => closes_noteReturn keyword ht
  | .ret id keyword (some value) =>
    (closes_expr w value).bind fun _ _ _ ht => (closes_record id ht).bind fun _ _ _ ht' =>
      closes_noteReturn keyword ht'

/-- So do statements in a row. -/
theorem closes_stmts (w : Extent) : ∀ body : List Stmt, Closes base w Plain (stmts body)
  | [] => .done _
  | s :: rest => (closes_stmt w s).bind fun _ _ _ _ => closes_stmts _ rest

end

end Members

end Check

end ClassScript.Typing
