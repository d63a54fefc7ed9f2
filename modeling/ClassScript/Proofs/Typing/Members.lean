import ClassScript.Proofs.Hierarchy.Paths
import ClassScript.Proofs.Typing.Comparison
import ClassScript.Proofs.Typing.Texts

/-!
# Completion offers the members that the checker knows

The names of the members of a value are collected along the superclasses, those of fields only where
the initializers let them through. A member is looked up along the same superclasses. A name is
collected exactly if the lookups do not end without an answer.
-/

namespace ClassScript

/-! ### Lookups without an answer -/

namespace Hierarchy

variable {C M : Type}

/-- A lookup ends without an answer if neither the class nor any superclass has the member. -/
theorem lookup_eq_absent_iff (h : Hierarchy C M) (member : String) (c : C) :
    h.lookup member c = .absent ↔
      h.own c member = none ∧ ∀ p ∈ h.supers c, h.lookup member p = .absent := by
  -- No answer means that no way through the superclasses leads to the member.
  have hreaches : ∀ c, h.lookup member c = .absent ↔ ∀ steps m, ¬h.Reaches member c steps m := by
    intro c
    have hexplains := h.explains_lookup member c
    cases hl : h.lookup member c with
    | absent =>
      rw [hl] at hexplains
      exact iff_of_true rfl hexplains
    | found m depth =>
      rw [hl] at hexplains
      obtain ⟨-, steps, -, hshortest⟩ := hexplains
      exact iff_of_false nofun fun hnone => hnone steps m hshortest.reaches
    | ambiguous names =>
      rw [hl] at hexplains
      obtain ⟨d, hd, steps, _, m, _, hshortest, -⟩ := hexplains
      obtain ⟨steps', hr⟩ := hd.reaches hshortest.reaches
      exact iff_of_false nofun fun hnone => hnone steps' m hr
  constructor
  · -- A way from a superclass is, one step longer, a way from the class.
    intro habsent
    have hnone := (hreaches c).1 habsent
    refine ⟨Option.eq_none_iff_forall_ne_some.2 fun m hm => hnone [] m ⟨c, .here c, hm⟩, ?_⟩
    intro p hp
    obtain ⟨entry, hentry⟩ := List.mem_iff_getElem?.1 hp
    exact (hreaches p).2 fun steps m hr => hnone (entry :: steps) m (hr.up hentry)
  · rintro ⟨hown, hsupers⟩
    refine (hreaches c).2 fun steps m hr => ?_
    obtain ⟨entry, p, steps', hp, -, hr'⟩ := hr.down hown
    exact (hreaches p).1 (hsupers p (List.mem_of_getElem? hp)) steps' m hr'

/-- A lookup finds something, or something ambiguous, if the class has it or the lookup in a
superclass does. -/
theorem lookup_ne_absent_iff (h : Hierarchy C M) (member : String) (c : C) :
    h.lookup member c ≠ .absent ↔
      h.own c member ≠ none ∨ ∃ p ∈ h.supers c, h.lookup member p ≠ .absent := by
  rw [Ne, lookup_eq_absent_iff, not_and_or, not_forall]
  simp only [Classical.not_imp]

end Hierarchy

namespace NativeClass

variable {c : NativeClass} {name : String}

/-- A native class has no method of its own that it does not list. -/
theorem ownMethod?_eq_none_iff :
    c.ownMethod? name = none ↔ name ∉ c.methods.map (·.name) := by
  simp [ownMethod?]

/-- It has no field of its own that it does not list. -/
theorem ownProperty?_eq_none_iff :
    c.ownProperty? name = none ↔ name ∉ c.properties.map (·.name) := by
  simp [ownProperty?]

/-- It has no method that neither it nor its parent nor the root class lists. -/
theorem method?_eq_none_iff : c.method? name = none ↔
    name ∉ c.methods.map (·.name) ∧ (∀ p ∈ c.parent?, name ∉ p.methods.map (·.name)) ∧
      name ∉ object.methods.map (·.name) := by
  unfold method?
  rw [Option.orElse_eq_none, Option.orElse_eq_none, Option.bind_eq_none_iff,
    ownMethod?_eq_none_iff, ownMethod?_eq_none_iff]
  simp only [ownMethod?_eq_none_iff]
  rfl

/-- It has no field that neither it nor its parent lists. -/
theorem property?_eq_none_iff : c.property? name = none ↔
    name ∉ c.properties.map (·.name) ∧
      ∀ p ∈ c.parent?, name ∉ p.properties.map (·.name) := by
  unfold property?
  rw [Option.orElse_eq_none, Option.bind_eq_none_iff, ownProperty?_eq_none_iff]
  simp only [ownProperty?_eq_none_iff]
  rfl

end NativeClass

namespace Typing

open Checker

variable {s : Checker} {T : Roster}

/-! ### Names of members -/

/-- The keys behind some insertions are those before and those that were inserted. -/
theorem mem_keys_foldl_insert (name : String) (names : List String)
    (m : Std.TreeMap String Unit) :
    name ∈ (names.foldl (fun acc name => acc.insert name ()) m).keys ↔ name ∈ names ∨ name ∈ m := by
  induction names generalizing m with
  | nil => simp
  | cons first rest ih =>
    rw [List.foldl_cons, ih, Std.TreeMap.mem_insert, List.mem_cons,
      Std.LawfulEqCmp.compare_eq_iff_eq]
    tauto

namespace Checker

/-- The members of an object are those of every object and those that its class and the superclasses
declare. -/
theorem mem_memberNames_instance (name : String) (c : ClassType) :
    name ∈ s.memberNames (some (.instance c)) ↔
      name ∈ NativeClass.object.methods.map (·.name) ∨ name ∈ s.namesOf true c := by
  unfold memberNames
  rw [mem_keys_foldl_insert, List.mem_append]
  simp

/-- The members of other values are those of every object. -/
theorem mem_memberNames_other (name : String) {t : Ty} (ht : ∀ c, t ≠ .instance c) :
    name ∈ s.memberNames (some t) ↔ name ∈ NativeClass.object.methods.map (·.name) := by
  unfold memberNames
  rw [mem_keys_foldl_insert, List.mem_append]
  cases t with
  | «instance» c => exact absurd rfl (ht c)
  | «class» c => simp
  | function f => simp

/-- What has no value is no key. -/
theorem getElem?_eq_none_iff_not_mem_keys {α : Type} (m : Std.TreeMap String α) (name : String) :
    m[name]? = none ↔ name ∉ m.keys := by
  rw [Std.TreeMap.mem_keys, Std.TreeMap.mem_iff_isSome_getElem?, Option.not_isSome_iff_eq_none]

/-- The names that a class of a program declares itself are those of its methods, and of its fields
where these are collected. -/
theorem mem_ownNames {c : ClassType} (hc : c.native? = none) (name : String)
    (withAttributes : Bool) :
    name ∈ s.ownNames c withAttributes ↔ (s.body c).members[name]? ≠ none ∨
      withAttributes = true ∧ (s.body c).attributes[name]? ≠ none := by
  unfold ownNames
  rw [hc, Ne, Ne, getElem?_eq_none_iff_not_mem_keys, getElem?_eq_none_iff_not_mem_keys]
  cases withAttributes <;> simp

/-- A name is collected along the superclasses exactly if a method of the name is found, or a field
of the name where fields are collected. -/
theorem mem_namesOf {c : ClassType} (hc : c.User) (name : String) (withAttributes : Bool) :
    name ∈ s.namesOf withAttributes c ↔ s.methods.lookup name c ≠ .absent ∨
      withAttributes = true ∧ s.attributes.lookup name c ≠ .absent := by
  -- The flag is general: a class whose initializer does not call the next one turns it off.
  induction c using ClassType.acyclic.induction generalizing withAttributes with
  | _ c ih =>
    have hall : ∀ withFields, name ∈ (c.supers.map (s.namesOf withFields)).flatten ↔
        (∃ d ∈ c.supers, s.methods.lookup name d ≠ .absent) ∨
          withFields = true ∧ ∃ d ∈ c.supers, s.attributes.lookup name d ≠ .absent := by
      intro withFields
      simp only [List.mem_flatten, List.mem_map, exists_exists_and_eq_and]
      rw [exists_congr fun d => and_congr_right fun hd => ih d hd (hc.supers d hd) withFields]
      cases withFields <;> simp [and_or_left, exists_or]
    have hsupers : name ∈ (c.supers.map
        (s.namesOf (withAttributes && s.inheritsAttributes c))).flatten ↔
        (∃ d ∈ c.supers, s.methods.lookup name d ≠ .absent) ∨ withAttributes = true ∧
          ∃ d ∈ s.attributeSupers c, s.attributes.lookup name d ≠ .absent := by
      rw [hall]
      unfold attributeSupers
      cases s.inheritsAttributes c <;> simp
    have hmethods := s.methods.lookup_ne_absent_iff name c
    have hattributes := s.attributes.lookup_ne_absent_iff name c
    rw [namesOf_eq, List.mem_append, mem_ownNames hc.native?, hsupers, hmethods, hattributes]
    exact or_or_or_comm.trans (or_congr_right and_or_left.symm)

/-- The names of a native class are those that the class itself or its superclass declares. -/
theorem mem_namesOf_native (hT : T.law.Holds s) (n : NativeClass) (name : String)
    (withAttributes : Bool) :
    name ∈ s.namesOf withAttributes (nativeType n) ↔
      (name ∈ n.methods.map (·.name) ∨ name ∈ n.properties.map (·.name)) ∨
        ∃ p ∈ n.parent?, name ∈ p.methods.map (·.name) ∨ name ∈ p.properties.map (·.name) := by
  -- Native classes have no bodies in the checker, only their tables.
  have hbare : ∀ n, s.body (nativeType n) = {} := by
    intro n
    unfold body
    rw [show (nativeType n).id = nativeId n from rfl, hT.tables.bare _ (nativeId_lt n)]
    rfl
  have hown : ∀ n withFields, name ∈ s.ownNames (nativeType n) withFields ↔
      name ∈ n.methods.map (·.name) ∨ name ∈ n.properties.map (·.name) := by
    intro n withFields
    unfold ownNames
    rw [hbare]
    cases withFields <;> simp [nativeType]
  have hflat : ∀ n withFields, n.parent? = none → s.namesOf withFields (nativeType n) =
      s.ownNames (nativeType n) withFields := by
    intro n withFields hn
    rw [namesOf_eq]
    simp [nativeType, hn]
  rw [namesOf_eq, List.mem_append, hown]
  refine or_congr_right ?_
  cases hp : n.parent? with
  | none => simp [nativeType, hp]
  | some p =>
    -- No native class has more than one class above it, and that one has none.
    have hsupers : (nativeType n).supers = [nativeType p] := by
      cases n <;> cases hp <;> rfl
    have hparent : p.parent? = none := by
      cases n <;> cases hp <;> rfl
    rw [hsupers, List.map_singleton, List.flatten_singleton, hflat p _ hparent, hown]
    simp

/-- The members of a native value are those that its class has by the rule of the native library. -/
theorem mem_memberNames_native (hT : T.law.Holds s) (n : NativeClass) (name : String) :
    name ∈ s.memberNames (some (.instance (nativeType n))) ↔
      n.method? name ≠ none ∨ n.property? name ≠ none := by
  rw [mem_memberNames_instance, mem_namesOf_native hT, Ne, Ne, NativeClass.method?_eq_none_iff,
    NativeClass.property?_eq_none_iff]
  cases n.parent? with
  | none => simp only [Option.mem_def, reduceCtorEq]; tauto
  | some p => simp only [Option.mem_def, Option.some.injEq]; grind

end Checker

/-! ### Lookups of members -/

namespace Check

/-- The complaint about a member that nothing declares. -/
def undefinedProperty (t : Ty) (name : Token) : Check Ty := do
  reject name (.undefinedProperty name.lexeme (← text t))

/-- A member is known: it has a type, or several superclasses are equally near. -/
def KnowsMember (t : Ty) (name : Token) (s : Checker) : Prop :=
  (∃ u s', member t name s = .ok u s') ∨
    ∃ branches, member t name s = .error (.rejected ⟨name, .ambiguous name.lexeme branches⟩) s

/-- The complaint needs the text of the type, and has no end if the text has none. -/
theorem undefinedProperty_apply (t : Ty) (name : Token) (s : Checker) :
    undefinedProperty t name s =
      match s.typeText? (some t) with
      | some text => .error (.rejected ⟨name, .undefinedProperty name.lexeme text⟩) s
      | none => .error .endless s := by
  unfold undefinedProperty text answer
  rw [bind_apply, getBind_apply]
  dsimp only
  cases s.typeText? (some t) <;> rfl

/-- A native method always has a type. -/
theorem exists_nativeMethod (m : NativeMethod) (s : Checker) :
    ∃ u s', nativeMethod m s = .ok u s' := by
  rw [nativeMethod_apply]
  cases s.nativeMethods.lookup m.operation with
  | some f => exact ⟨_, _, rfl⟩
  | none => exact ⟨_, _, rfl⟩

/-- The use of a member is rejected because nothing declares it. -/
def Complains (t : Ty) (name : Token) (s : Checker) : Prop :=
  ∃ text, member t name s = .error (.rejected ⟨name, .undefinedProperty name.lexeme text⟩) s

variable {t : Ty} {name : Token}

/-- A member that is known is not complained about. -/
theorem KnowsMember.not_complains (h : KnowsMember t name s) : ¬Complains t name s := by
  rintro ⟨text, htext⟩
  rcases h with ⟨u, s', hok⟩ | ⟨branches, hambiguous⟩
  · cases hok.symm.trans htext
  · cases hambiguous.symm.trans htext

/-- The lookup of a member that is known has an end. -/
theorem KnowsMember.not_endless (h : KnowsMember t name s) :
    member t name s ≠ .error .endless s := by
  intro hendless
  rcases h with ⟨u, s', hok⟩ | ⟨branches, hambiguous⟩
  · cases hok.symm.trans hendless
  · cases hambiguous.symm.trans hendless

section Complaint

variable (h : member t name s = undefinedProperty t name s)

include h

/-- A complaint about a member does not make it known. -/
theorem not_knowsMember : ¬KnowsMember t name s := by
  unfold KnowsMember
  rw [h, undefinedProperty_apply]
  cases s.typeText? (some t) <;> simp

/-- A complaint is made if it has a text. -/
theorem complains_iff : Complains t name s ↔ ∃ text, s.typeText? (some t) = some text := by
  unfold Complains
  rw [h, undefinedProperty_apply]
  cases s.typeText? (some t) <;> simp

/-- Without a text the complaint has no end. -/
theorem endless_iff : member t name s = .error .endless s ↔ s.typeText? (some t) = none := by
  rw [h, undefinedProperty_apply]
  cases s.typeText? (some t) <;> simp

end Complaint

/-- The methods of every object are known, and no others. -/
theorem objectMember_cases (t : Ty) (name : Token) (s : Checker) :
    (name.lexeme ∈ NativeClass.object.methods.map (·.name) ∧
      ∃ u s', objectMember t name s = .ok u s') ∨
    (name.lexeme ∉ NativeClass.object.methods.map (·.name) ∧
      objectMember t name s = undefinedProperty t name s) := by
  unfold objectMember
  cases hm : NativeClass.object.ownMethod? name.lexeme with
  | none => exact .inr ⟨NativeClass.ownMethod?_eq_none_iff.1 hm, rfl⟩
  | some m =>
    refine .inl ⟨?_, exists_nativeMethod m s⟩
    by_contra hnone
    rw [NativeClass.ownMethod?_eq_none_iff.2 hnone] at hm
    cases hm

/-- What is no object has the members that everything has. -/
theorem member_of_not_object (h : isObject (some t) = false) (ht : ∀ c, t ≠ .instance c)
    (name : Token) : member t name = objectMember t name := by
  unfold member
  rw [h, if_neg Bool.false_ne_true]
  cases t with
  | «instance» c => exact absurd rfl (ht c)
  | «class» c => rfl
  | function f => rfl

/-- An object of a native class has its methods before its fields, and then the members that
everything has. -/
theorem member_native {n : NativeClass} (h : isObject (some (.instance (nativeType n))) = false)
    (name : Token) (s : Checker) :
    member (.instance (nativeType n)) name s =
      match n.method? name.lexeme, n.property? name.lexeme with
      | some m, _ => nativeMethod m s
      | none, some p => .ok (globalType s p.returns) s
      | none, none => objectMember (.instance (nativeType n)) name s := by
  unfold member
  rw [h, if_neg Bool.false_ne_true]
  dsimp only [nativeType]
  cases n.method? name.lexeme with
  | some m => rfl
  | none => cases n.property? name.lexeme <;> rfl

/-- An object of a class of a program has its fields before its methods, and then the members that
everything has. -/
theorem member_user {c : ClassType} (hc : c.native? = none) (name : Token) (s : Checker) :
    member (.instance c) name s =
      match s.attributes.lookup name.lexeme c, s.methods.lookup name.lexeme c with
      | .found a _, _ => .ok a s
      | .ambiguous branches, _ => .error (.rejected ⟨name, .ambiguous name.lexeme branches⟩) s
      | .absent, .found f _ => .ok (.function f) s
      | .absent, .ambiguous branches =>
        .error (.rejected ⟨name, .ambiguous name.lexeme branches⟩) s
      | .absent, .absent => objectMember (.instance c) name s := by
  unfold member
  rw [if_neg (by simp [isObject, hc])]
  dsimp only
  rw [hc]
  dsimp only
  rw [getBind_apply]
  -- Fields come first, then methods, then what every object has.
  cases s.attributes.lookup name.lexeme c with
  | found a depth => rfl
  | ambiguous branches => rfl
  | absent =>
    dsimp only
    rw [getBind_apply]
    cases s.methods.lookup name.lexeme c <;> rfl

/-- A member is offered and known, or it is neither and its use is rejected. -/
def OfferAgrees (t : Ty) (name : Token) (s : Checker) : Prop :=
  name.lexeme ∈ s.memberNames (some t) ∧ KnowsMember t name s ∨
    name.lexeme ∉ s.memberNames (some t) ∧ member t name s = undefinedProperty t name s

/-- Where the lookup gets to the methods of every object, the offers agree with it if they contain
no other names. -/
theorem offerAgrees_of_objectMember (hmember : member t name s = objectMember t name s)
    (hnames : name.lexeme ∈ s.memberNames (some t) ↔
      name.lexeme ∈ NativeClass.object.methods.map (·.name)) : OfferAgrees t name s := by
  rcases objectMember_cases t name s with ⟨hmem, u, s', hok⟩ | ⟨hmem, hcomplaint⟩
  · exact .inl ⟨hnames.2 hmem, .inl ⟨u, s', hmember.trans hok⟩⟩
  · exact .inr ⟨fun hoffered => hmem (hnames.1 hoffered), hmember.trans hcomplaint⟩

/-- The members of native classes are offered. -/
theorem offerAgrees_native (hT : T.law.Holds s) {n : NativeClass}
    (h : isObject (some (.instance (nativeType n))) = false) (name : Token) :
    OfferAgrees (.instance (nativeType n)) name s := by
  have hnames := mem_memberNames_native hT n name.lexeme
  have happly := member_native h name s
  -- A method, a property, or else what every object has.
  cases hm : n.method? name.lexeme with
  | some m =>
    rw [hm] at hnames happly
    obtain ⟨u, s', hok⟩ := exists_nativeMethod m s
    exact .inl ⟨hnames.2 (.inl nofun), .inl ⟨u, s', happly.trans hok⟩⟩
  | none =>
    cases hp : n.property? name.lexeme with
    | some p =>
      rw [hm, hp] at hnames happly
      exact .inl ⟨hnames.2 (.inr nofun), .inl ⟨_, s, happly⟩⟩
    | none =>
      obtain ⟨-, -, hobject⟩ := NativeClass.method?_eq_none_iff.1 hm
      rw [hm, hp] at hnames happly
      exact offerAgrees_of_objectMember happly (iff_of_false (by simpa using hnames) hobject)

/-- So are those of classes of programs. -/
theorem offerAgrees_user {c : ClassType} (hc : c.User) (name : Token) (s : Checker) :
    OfferAgrees (.instance c) name s := by
  have hnames := mem_memberNames_instance (s := s) name.lexeme c
  rw [mem_namesOf hc] at hnames
  have happly := member_user hc.native? name s
  -- An attribute, a method, or else what every object has; an ambiguous one is offered, too.
  cases hattribute : s.attributes.lookup name.lexeme c with
  | found a depth =>
    rw [hattribute] at hnames happly
    exact .inl ⟨hnames.2 (.inr (.inr ⟨rfl, nofun⟩)), .inl ⟨a, s, happly⟩⟩
  | ambiguous branches =>
    rw [hattribute] at hnames happly
    exact .inl ⟨hnames.2 (.inr (.inr ⟨rfl, nofun⟩)), .inr ⟨branches, happly⟩⟩
  | absent =>
    cases hmethod : s.methods.lookup name.lexeme c with
    | found f depth =>
      rw [hattribute, hmethod] at hnames happly
      exact .inl ⟨hnames.2 (.inr (.inl nofun)), .inl ⟨.function f, s, happly⟩⟩
    | ambiguous branches =>
      rw [hattribute, hmethod] at hnames happly
      exact .inl ⟨hnames.2 (.inr (.inl nofun)), .inr ⟨branches, happly⟩⟩
    | absent =>
      rw [hattribute, hmethod] at hnames happly
      exact offerAgrees_of_objectMember happly (by simpa using hnames)

/-- So are those of every type that can be met. -/
theorem offerAgrees_of_law (hT : T.law.Holds s) (ht : s.Meets (some t))
    (h : isObject (some t) = false) (name : Token) : OfferAgrees t name s := by
  have hother : (∀ c, t ≠ .instance c) → OfferAgrees t name s := fun hne =>
    offerAgrees_of_objectMember (congrFun (member_of_not_object h hne name) s)
      (mem_memberNames_other name.lexeme hne)
  cases t with
  | «class» c => exact hother nofun
  | function f => exact hother nofun
  | «instance» c =>
    rcases T.genuine (knows_of_hasClass hT (ht c (.inl rfl))) with ⟨n, rfl⟩ | huser
    · exact offerAgrees_native hT h name
    · exact offerAgrees_user huser name s

end Check

namespace Checker

/-! ### Offers -/

/-- The members offered for the types that can be met in a state, next to those that the checker
knows. What becomes of a use of the others depends on whether the type has a text. -/
structure OffersMembers (s : Checker) : Prop where
  /-- A name is offered exactly if a member of the name has a type or is ambiguous. -/
  offers : ∀ t, s.Meets (some t) → isObject (some t) = false → ∀ name : Token,
    (Check.KnowsMember t name s ↔ name.lexeme ∈ s.memberNames (some t))
  /-- The use of a name is rejected as undefined exactly if the name is not offered and the type
  does not contain itself. -/
  undefined : ∀ t, s.Meets (some t) → isObject (some t) = false → ∀ name : Token,
    (Check.Complains t name s ↔ name.lexeme ∉ s.memberNames (some t) ∧ s.Founded (some t))
  /-- The use of a name has no end exactly if the name is not offered and the type contains
  itself. -/
  endless : ∀ t, s.Meets (some t) → isObject (some t) = false → ∀ name : Token,
    (Check.member t name s = .error .endless s ↔
      name.lexeme ∉ s.memberNames (some t) ∧ ¬s.Founded (some t))

/-- Where the roster is known, exactly the members that the checker knows are offered. -/
theorem offersMembers_of_law (hT : T.law.Holds s) : s.OffersMembers where
  offers t ht h name := by
    -- A name is offered and known, or it is not offered and complained of.
    rcases Check.offerAgrees_of_law hT ht h name with ⟨hoffered, hknows⟩ | ⟨hnot, hcomplaint⟩
    · exact iff_of_true hknows hoffered
    · exact iff_of_false (Check.not_knowsMember hcomplaint) hnot
  undefined t ht h name := by
    rcases Check.offerAgrees_of_law hT ht h name with ⟨hoffered, hknows⟩ | ⟨hnot, hcomplaint⟩
    · exact iff_of_false hknows.not_complains fun h => h.1 hoffered
    · rw [Check.complains_iff hcomplaint, founded_iff_exists_text hT.tables.sized]
      exact (and_iff_right hnot).symm
  endless t ht h name := by
    rcases Check.offerAgrees_of_law hT ht h name with ⟨hoffered, hknows⟩ | ⟨hnot, hcomplaint⟩
    · exact iff_of_false hknows.not_endless fun h => h.1 hoffered
    · rw [Check.endless_iff hcomplaint, typeText?_eq_none_iff hT.tables.sized]
      exact (and_iff_right hnot).symm

/-- Between programs, and where the check of a further program ends, early or not, the members that
are offered are those that the checker knows. The use of any other name is rejected, unless the type
contains itself: then the text of the complaint has no end. -/
theorem offers_members (h : s.Reachable) (program : List Stmt) :
    s.OffersMembers ∧ ((Check.stmts program).final s.idle).OffersMembers := by
  obtain ⟨T, hT⟩ := h.roster
  obtain ⟨T', hT'⟩ := h.roster_final program
  exact ⟨offersMembers_of_law hT, offersMembers_of_law hT'⟩

/-- The method of a superclass is known, and a name that no class declares is complained about. -/
theorem offers_members_of_superclass :
    let s := ((ofMachine .initial).check
      (Parse.source "class P \x7b m() \x7b\x7d \x7d class Q < P \x7b\x7d" 0).program).2
    let t := Check.globalType s "Q"
    s.Reachable ∧ s.Plain (some t) ∧ isObject (some t) = false ∧
      (∀ name : Token, name.lexeme = "m" → Check.KnowsMember t name s) ∧
      ∀ name : Token, name.lexeme = "a" → Check.Complains t name s := by
  intro s t
  have hs : s.Reachable := .checked (.seeded _) _
  have hplain := plain_globalType s "Q"
  have hobject : isObject (some t) = false := by decide +kernel
  have hm : "m" ∈ s.memberNames (some t) := by decide +kernel
  have ha : "a" ∉ s.memberNames (some t) := by decide +kernel
  have hoffers := (offers_members hs []).1
  refine ⟨hs, hplain, hobject, fun name hname => ?_, fun name hname => ?_⟩
  · exact (hoffers.offers t hplain.meets hobject name).2 (hname ▸ hm)
  · exact (hoffers.undefined t hplain.meets hobject name).2 ⟨hname ▸ ha, hplain.founded⟩

/-- A function that returns itself is offered no member of the name `foo`, and still no use of this
name is rejected as undefined: the text of the complaint has no end, and so has the check of a
program with such a use. -/
theorem member_of_function_returning_itself :
    let s := ((ofMachine .initial).check (Parse.source "fun f() \x7b return f \x7d" 0).program).2
    let t : Ty := .function 3
    s.Reachable ∧ (s.lookup? "f").join = some t ∧ isObject (some t) = false ∧
      (∀ name : Token, name.lexeme = "foo" →
        name.lexeme ∉ s.memberNames (some t) ∧ ¬Check.Complains t name s) ∧
      (s.check (Parse.source "f.foo" 9).program).1 = .endless := by
  intro s t
  have hs : s.Reachable := .checked (.seeded _) _
  obtain ⟨T, hT⟩ := hs.roster
  obtain ⟨hf, hnames, htext, hendless⟩ :
      (s.lookup? "f").join.any (·.identical t) = true ∧ "foo" ∉ s.memberNames (some t) ∧
      s.typeText? (some t) = none ∧
      (s.check (Parse.source "f.foo" 9).program).1.isEndless = true := by decide +kernel
  -- A type without a text is one that contains itself.
  have hcircular := (typeText?_eq_none_iff hT.tables.sized).1 htext
  refine ⟨hs, eq_function hf, rfl, fun name hname => ⟨hname ▸ hnames, fun hcomplains => ?_⟩,
    Verdict.eq_of_isEndless hendless⟩
  have hmeets : s.Meets (some t) := fun c hc => by simp [t] at hc
  exact hcircular (((offersMembers_of_law hT).undefined t hmeets rfl name).1 hcomplains).2

end Checker

end Typing

end ClassScript
