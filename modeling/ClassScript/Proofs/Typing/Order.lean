import Mathlib.Logic.Relation
import Mathlib.Order.WellFounded
import ClassScript.Proofs.Typing.Comparison
import ClassScript.Proofs.Typing.Genuine

/-!
# The order of types

A type is above another one if it is the same, stands for every value, or is that of the objects of
an ancestor of the other's class. On the types that a checker knows this is an order up to sameness,
and the more general of two types is the one that is above the other: there is none if neither is.
-/

namespace ClassScript.Typing

/-! ### Ancestors -/

/-- A class is a superclass of another one, immediately or through others. -/
def ClassType.Ancestor : ClassType → ClassType → Prop :=
  Relation.TransGen fun p c => p ∈ c.supers

namespace ClassType

variable {c d : ClassType} {T : Roster}

/-- No class is its own ancestor. -/
theorem Ancestor.irrefl (c : ClassType) : ¬Ancestor c c :=
  acyclic.transGen.irrefl.irrefl c

/-- A class is a subclass of itself. -/
theorem subclassOf_self (c : ClassType) : subclassOf c c = true := by
  rw [subclassOf_eq, decide_eq_true rfl, Bool.true_or]

/-- A class with a superclass that inherits from another one inherits from it. -/
theorem subclassOf_of_super {p : ClassType} (hp : p ∈ c.supers) (h : subclassOf d p = true) :
    subclassOf d c = true := by
  rw [subclassOf_eq, List.any_eq_true.2 ⟨p, hp, h⟩, Bool.or_true]

/-- A class is a subclass of its ancestors. -/
theorem Ancestor.subclassOf (h : Ancestor d c) : subclassOf d c = true := by
  induction h with
  | single hp => exact subclassOf_of_super hp (subclassOf_self d)
  | tail _ hp ih => exact subclassOf_of_super hp ih

/-- A class inherits from itself and from its ancestors. -/
theorem subclassOf_iff (hc : T.knows c) (hd : T.knows d) :
    subclassOf d c = true ↔ c = d ∨ Ancestor d c := by
  constructor
  · intro h
    -- On the class, from the roots down. Known classes with one identity are the same.
    induction c using acyclic.induction with
    | _ c ih =>
      rw [subclassOf_eq, Bool.or_eq_true, decide_eq_true_eq, List.any_eq_true] at h
      obtain hid | ⟨p, hp, hinherits⟩ := h
      · exact .inl (T.unique hc hd hid)
      · rcases ih p hp (T.supers hc hp) hinherits with rfl | habove
        · exact .inr (.single hp)
        · exact .inr (habove.tail hp)
  · rintro (rfl | h)
    · exact subclassOf_self c
    · exact h.subclassOf

end ClassType

namespace Checker

variable {s : Checker} {T : Roster} {a b c : Option Ty}

/-- Two types are the same. -/
def Same (s : Checker) (a b : Option Ty) : Prop := s.same? a b = some true

/-- The class that a type is about, if it is about one, is on a roster. -/
def Knows (T : Roster) (a : Option Ty) : Prop := ∀ t, a = some t → t.Only T.knows

/-! ### Types that are the same -/

/-- Two types are identical in both orders. -/
theorem identical_comm (t u : Ty) : t.identical u = u.identical t := by
  cases t <;> cases u <;> simp only [Ty.identical, eq_comm]

/-- Two lists of parameters with their types are the same in every place. -/
def SamePlaces (same : Option Ty → Option Ty → Option Bool) (f g : Signature) : Prop :=
  ∀ (k : Nat) (p q : Param × Ty), (f.params.zip f.paramTypes)[k]? = some p →
    (g.params.zip g.paramTypes)[k]? = some q →
      same (some p.2) (some q.2) = some true ∧ p.1.variadic = q.1.variadic

/-- Parameters are the same if each of them is, and is variadic alike. -/
theorem sameParamsBy_eq_true {same : Option Ty → Option Ty → Option Bool}
    {pairs : List ((Param × Ty) × (Param × Ty))} :
    sameParamsBy same pairs = some true ↔ ∀ pair ∈ pairs,
      same (some pair.1.2) (some pair.2.2) = some true ∧ pair.1.1.variadic = pair.2.1.variadic := by
  induction pairs with
  | nil => exact iff_of_true rfl (List.forall_mem_nil _)
  | cons pair rest ih =>
    obtain ⟨⟨p, t⟩, q, u⟩ := pair
    rw [List.forall_mem_cons, ← ih, sameParamsBy]
    cases hsame : same (some t) (some u) with
    | none => simp
    | some r => cases r <;> by_cases hv : p.variadic = q.variadic <;> simp [hv]

/-- Signatures are the same if they are as long, the same in every place, and the same in their
results. -/
theorem sameSignaturesBy_eq_true {same : Option Ty → Option Ty → Option Bool} {f g : Signature} :
    sameSignaturesBy same f g = some true ↔
      f.paramTypes.length = g.paramTypes.length ∧ SamePlaces same f g ∧
        same f.returns g.returns = some true := by
  unfold sameSignaturesBy paramPairs?
  by_cases hlength : f.paramTypes.length = g.paramTypes.length
  · -- The places of two rows of one length are the pairs of them.
    have hplaces : SamePlaces same f g ↔
        sameParamsBy same ((f.params.zip f.paramTypes).zip (g.params.zip g.paramTypes)) =
          some true := by
      rw [sameParamsBy_eq_true]
      constructor
      · rintro h ⟨p, q⟩ hpair
        obtain ⟨k, hk⟩ := List.mem_iff_getElem?.1 hpair
        obtain ⟨hp, hq⟩ := List.getElem?_zip_eq_some.1 hk
        exact h k p q hp hq
      · intro h k p q hp hq
        exact h (p, q) (List.mem_iff_getElem?.2 ⟨k, List.getElem?_zip_eq_some.2 ⟨hp, hq⟩⟩)
    rw [if_pos hlength, and_iff_right hlength, hplaces]
    change (sameParamsBy same _).bind _ = _ ↔ _
    rw [Option.bind_eq_some_iff]
    constructor
    · rintro ⟨r, hr, hreturns⟩
      cases r with
      | false => cases hreturns
      | true => exact ⟨hr, hreturns⟩
    · rintro ⟨hparams, hreturns⟩
      exact ⟨true, hparams, hreturns⟩
  · rw [if_neg hlength]
    exact iff_of_false (fun h => nomatch h) fun h => hlength h.1

/-- The comparison of two types that are not both of functions. A missing type stands for every
value. -/
def sameFlat : Option Ty → Option Ty → Bool
  | none, b => isObject b
  | a, none => isObject a
  | some t, some u => t.identical u

/-- Types that are not both of functions are compared alike in both orders. -/
theorem sameFlat_comm (a b : Option Ty) : sameFlat a b = sameFlat b a := by
  rcases a with _ | t <;> rcases b with _ | u
  · rfl
  · rfl
  · rfl
  · exact identical_comm t u

/-- Types that are not both of functions are compared without a look at signatures. -/
theorem sameUpTo_eq_sameFlat (h : ∀ f g, a = some (.function f) → b ≠ some (.function g))
    (n : Nat) : s.sameUpTo n a b = some (sameFlat a b) := by
  rw [sameUpTo_flat h n 0]
  rcases a with _ | (c | c | f) <;> rcases b with _ | (d | d | g) <;>
    first
      | rfl
      | exact absurd rfl (h f g rfl)

/-- At depth zero a function is the same as itself only. -/
theorem sameUpTo_zero_eq_true {f g : SignatureId} :
    s.sameUpTo 0 (some (.function f)) (some (.function g)) = some true ↔ f = g := by
  rw [sameUpTo]
  split
  · exact iff_of_true rfl ‹_›
  · exact iff_of_false (Option.some_ne_none true).symm ‹_›

/-- At a greater depth functions are the same if they are one or have the same signatures. -/
theorem sameUpTo_succ_eq_true {n : Nat} {f g : SignatureId} :
    s.sameUpTo (n + 1) (some (.function f)) (some (.function g)) = some true ↔
      f = g ∨ sameSignaturesBy (s.sameUpTo n) (s.signature f) (s.signature g) = some true := by
  rw [sameUpTo_function_succ]
  split
  · exact iff_of_true rfl (.inl ‹_›)
  · exact (or_iff_right ‹_›).symm

/-- Places that are the same are so in the other order. -/
theorem SamePlaces.symm {same : Option Ty → Option Ty → Option Bool} {f g : Signature}
    (hsame : ∀ a b, same a b = some true → same b a = some true) (h : SamePlaces same f g) :
    SamePlaces same g f := fun k p q hp hq =>
  ⟨hsame _ _ (h k q p hq hp).1, (h k q p hq hp).2.symm⟩

/-- Only the comparison of functions depends on the number of steps. -/
theorem sameUpTo_symm_of_functions {n : Nat}
    (hfunctions : ∀ f g, s.sameUpTo n (some (.function f)) (some (.function g)) = some true →
      s.sameUpTo n (some (.function g)) (some (.function f)) = some true)
    (h : s.sameUpTo n a b = some true) : s.sameUpTo n b a = some true := by
  rcases flat_or_functions a b with hflat | ⟨f, g, rfl, rfl⟩
  · rw [sameUpTo_eq_sameFlat hflat] at h
    rwa [sameUpTo_eq_sameFlat fun g f hb ha => hflat f g ha hb, sameFlat_comm]
  · exact hfunctions f g h

/-- Types that are the same up to a depth are so in the other order. -/
theorem sameUpTo_symm {n : Nat} (h : s.sameUpTo n a b = some true) :
    s.sameUpTo n b a = some true := by
  -- On the depth; only functions have anything deeper.
  induction n generalizing a b with
  | zero =>
    refine sameUpTo_symm_of_functions (fun f g hfg => ?_) h
    exact sameUpTo_zero_eq_true.2 (sameUpTo_zero_eq_true.1 hfg).symm
  | succ n ih =>
    refine sameUpTo_symm_of_functions (fun f g hfg => ?_) h
    rcases sameUpTo_succ_eq_true.1 hfg with rfl | hsig
    · exact hfg
    · obtain ⟨hlength, hplaces, hreturns⟩ := sameSignaturesBy_eq_true.1 hsig
      exact sameUpTo_succ_eq_true.2 (.inr (sameSignaturesBy_eq_true.2
        ⟨hlength.symm, hplaces.symm fun _ _ => ih, ih hreturns⟩))

/-- Types that are the same are so in the other order. -/
theorem Same.symm (h : s.Same a b) : s.Same b a := sameUpTo_symm h

/-- Every type is the same as itself. -/
theorem same_self (s : Checker) (a : Option Ty) : s.Same a a := by
  cases a with
  | none => rfl
  | some t => exact sameUpTo_self s _ t

/-! ### Types on a roster -/

/-- The only type that stands for every value is that of the objects of the root class. -/
theorem isObject_iff {t : Ty} (ht : t.Only T.knows) :
    isObject (some t) = true ↔ t = objectType := by
  constructor
  · intro h
    cases t with
    | «instance» c =>
      obtain rfl := (T.genuine ht).eq_nativeType (of_decide_eq_true h)
      rfl
    | «class» c => cases h
    | function f => cases h
  · rintro rfl
    rfl

/-- On a roster identical types are equal. -/
theorem identical_iff {t u : Ty} (ht : t.Only T.knows) (hu : u.Only T.knows) :
    t.identical u = true ↔ t = u := by
  constructor
  · intro h
    cases t <;> cases u <;> simp only [Ty.identical, decide_eq_true_eq, Bool.false_eq_true] at h
    · rw [T.unique ht hu h]
    · rw [T.unique ht hu h]
    · rw [h]
  · rintro rfl
    cases t <;> exact decide_eq_true rfl

/-- Types that are not both of functions are the same if they are one type. A missing type counts
as that of every value. -/
theorem sameFlat_iff (ha : Knows T a) (hb : Knows T b) :
    sameFlat a b = true ↔ a.getD objectType = b.getD objectType := by
  rcases a with _ | t <;> rcases b with _ | u
  · exact iff_of_true rfl rfl
  · exact (isObject_iff (hb u rfl)).trans eq_comm
  · exact isObject_iff (ha t rfl)
  · exact identical_iff (ha t rfl) (hb u rfl)

/-- One type, or a missing one and that of every value, are the same. -/
theorem sameUpTo_of_eq_type (ha : Knows T a) (hb : Knows T b)
    (h : a.getD objectType = b.getD objectType) (n : Nat) : s.sameUpTo n a b = some true := by
  rcases flat_or_functions a b with hflat | ⟨f, g, rfl, rfl⟩
  · rw [sameUpTo_eq_sameFlat hflat, (sameFlat_iff ha hb).2 h]
  · cases h
    exact sameUpTo_self s n _

/-- Types are the same only if they are one type or are both of functions. -/
theorem eq_or_functions {n : Nat} (ha : Knows T a) (hb : Knows T b)
    (h : s.sameUpTo n a b = some true) :
    a.getD objectType = b.getD objectType ∨
      ∃ f g, a = some (.function f) ∧ b = some (.function g) := by
  rcases flat_or_functions a b with hflat | hfunctions
  · rw [sameUpTo_eq_sameFlat hflat] at h
    exact .inl ((sameFlat_iff ha hb).1 (Option.some.inj h))
  · exact .inr hfunctions

/-- What stands for a function is that function; a missing type stands for an object. -/
theorem eq_of_getD_function {f : SignatureId} (h : a.getD objectType = .function f) :
    a = some (.function f) := by
  cases a with
  | none => cases h
  | some t => exact congrArg some h

/-- The class of a result is on the roster. -/
theorem knows_returns (hT : T.law.Holds s) (f : SignatureId) : Knows T (s.signature f).returns :=
  (hT.only.signature f).returns

/-- So is the class of a parameter. -/
theorem knows_place (hT : T.law.Holds s) {f : SignatureId} {k : Nat} {p : Param × Ty}
    (hp : ((s.signature f).params.zip (s.signature f).paramTypes)[k]? = some p) :
    Knows T (some p.2) := by
  rintro _ ⟨⟩
  exact (hT.only.signature f).paramTypes _ (List.of_mem_zip (List.mem_of_getElem? hp)).2

/-- Functions with as many types of parameters have as many parameters. -/
theorem exists_place (hT : T.law.Holds s) {f g : SignatureId} {k : Nat} {p : Param × Ty}
    (hlength : (s.signature f).paramTypes.length = (s.signature g).paramTypes.length)
    (hp : ((s.signature f).params.zip (s.signature f).paramTypes)[k]? = some p) :
    ∃ q, ((s.signature g).params.zip (s.signature g).paramTypes)[k]? = some q := by
  have hk := (List.getElem?_eq_some_iff.1 hp).1
  rw [List.length_zip] at hk
  have hf := hT.tables.sized.length_signature f
  have hg := hT.tables.sized.length_signature g
  refine ⟨_, List.getElem?_eq_getElem (i := k) ?_⟩
  rw [List.length_zip]
  omega

/-- Only the comparison of functions goes into the parts of types. -/
theorem sameUpTo_trans_of_functions {n : Nat}
    (hfunctions : ∀ f g h, s.sameUpTo n (some (.function f)) (some (.function g)) = some true →
      s.sameUpTo n (some (.function g)) (some (.function h)) = some true →
        s.sameUpTo n (some (.function f)) (some (.function h)) = some true)
    (ha : Knows T a) (hb : Knows T b) (hc : Knows T c) (hab : s.sameUpTo n a b = some true)
    (hbc : s.sameUpTo n b c = some true) : s.sameUpTo n a c = some true := by
  rcases eq_or_functions ha hb hab with heq | ⟨f, g, rfl, rfl⟩ <;>
    rcases eq_or_functions hb hc hbc with heq' | ⟨g', h, hg, rfl⟩
  · exact sameUpTo_of_eq_type ha hc (heq.trans heq') n
  · subst hg
    rwa [eq_of_getD_function heq]
  · rwa [eq_of_getD_function heq'.symm]
  · cases hg
    exact hfunctions f g h hab hbc

/-- Types that are the same up to a depth as a third one are the same up to that depth. -/
theorem sameUpTo_trans (hT : T.law.Holds s) {n : Nat} (ha : Knows T a) (hb : Knows T b)
    (hc : Knows T c) (hab : s.sameUpTo n a b = some true) (hbc : s.sameUpTo n b c = some true) :
    s.sameUpTo n a c = some true := by
  induction n generalizing a b c with
  | zero =>
    refine sameUpTo_trans_of_functions (fun f g h hfg hgh => ?_) ha hb hc hab hbc
    exact sameUpTo_zero_eq_true.2
      ((sameUpTo_zero_eq_true.1 hfg).trans (sameUpTo_zero_eq_true.1 hgh))
  | succ n ih =>
    refine sameUpTo_trans_of_functions (fun f g h hfg hgh => ?_) ha hb hc hab hbc
    rcases sameUpTo_succ_eq_true.1 hfg with rfl | hfg'
    · exact hgh
    rcases sameUpTo_succ_eq_true.1 hgh with rfl | hgh'
    · exact hfg
    obtain ⟨hlength, hplaces, hreturns⟩ := sameSignaturesBy_eq_true.1 hfg'
    obtain ⟨hlength', hplaces', hreturns'⟩ := sameSignaturesBy_eq_true.1 hgh'
    refine sameUpTo_succ_eq_true.2 (.inr (sameSignaturesBy_eq_true.2
      ⟨hlength.trans hlength', fun k p r hp hr => ?_, ?_⟩))
    -- The comparison stops at the shorter list, so the one in the middle needs the place too.
    · obtain ⟨q, hq⟩ := exists_place hT hlength hp
      obtain ⟨hpq, hvariadic⟩ := hplaces k p q hp hq
      obtain ⟨hqr, hvariadic'⟩ := hplaces' k q r hq hr
      exact ⟨ih (knows_place hT hp) (knows_place hT hq) (knows_place hT hr) hpq hqr,
        hvariadic.trans hvariadic'⟩
    · exact ih (knows_returns hT f) (knows_returns hT g) (knows_returns hT h) hreturns hreturns'

/-- Types that are the same as a third one are the same. -/
theorem Same.trans (hT : T.law.Holds s) (ha : Knows T a) (hb : Knows T b) (hc : Knows T c)
    (hab : s.Same a b) (hbc : s.Same b c) : s.Same a c :=
  sameUpTo_trans hT ha hb hc hab hbc

/-! ### Types above others -/

/-- A type is the same as another one, or stands for every value, or is that of the objects of an
ancestor of the class whose objects the other type is about. -/
def Above (s : Checker) (a b : Option Ty) : Prop :=
  s.Same a b ∨ isObject a = true ∨
    ∃ c d, a = some (.instance c) ∧ b = some (.instance d) ∧ ClassType.Ancestor c d

/-- Every type is above itself. -/
theorem Above.refl (s : Checker) (a : Option Ty) : s.Above a a := .inl (same_self s a)

/-- A type stands for every value if it is that of all objects, or missing. -/
theorem isObject_iff_eq (ha : Knows T a) :
    isObject a = true ↔ a.getD objectType = objectType := by
  cases a with
  | none => exact iff_of_true rfl rfl
  | some t => exact isObject_iff (ha t rfl)

/-- Types that stand for every value are the same. -/
theorem same_of_objects (ha : Knows T a) (hb : Knows T b) (hobject : isObject a = true)
    (hobject' : isObject b = true) : s.Same a b :=
  sameUpTo_of_eq_type ha hb
    (((isObject_iff_eq ha).1 hobject).trans ((isObject_iff_eq hb).1 hobject').symm) _

/-- A type that is the same as that of the objects of a class is that type. -/
theorem Same.eq_instance (ha : Knows T a) (hb : Knows T b) (h : s.Same a b) {c : ClassType}
    (hc : a.getD objectType = .instance c) : b.getD objectType = .instance c := by
  rcases eq_or_functions ha hb h with heq | ⟨f, g, rfl, -⟩
  · rwa [← heq]
  · cases hc

/-- What is the same as a type that stands for every value does so too. -/
theorem Same.isObject (ha : Knows T a) (hb : Knows T b) (h : s.Same a b)
    (hobject : isObject a = true) : isObject b = true :=
  (isObject_iff_eq hb).2 (h.eq_instance ha hb ((isObject_iff_eq ha).1 hobject))

/-- No class is above the root class. -/
theorem not_ancestor_object {c d : ClassType} (h : ClassType.Ancestor c d)
    (hd : Knows T (some (.instance d))) : isObject (some (.instance d)) = false := by
  refine Bool.eq_false_iff.2 fun hobject => ?_
  cases (isObject_iff (hd _ rfl)).1 hobject
  obtain ⟨p, -, hp⟩ := Relation.TransGen.tail'_iff.1 h
  cases hp

/-- What is above a type is above the types below it. -/
theorem Above.trans (hT : T.law.Holds s) (ha : Knows T a) (hb : Knows T b) (hc : Knows T c)
    (hab : s.Above a b) (hbc : s.Above b c) : s.Above a c := by
  rcases hab with hab | hobject | ⟨c₁, c₂, rfl, rfl, hancestor⟩
  · rcases hbc with hbc | hobject | ⟨c₂, c₃, rfl, rfl, hancestor⟩
    · exact .inl (hab.trans hT ha hb hc hbc)
    · exact .inr (.inl (hab.symm.isObject hb ha hobject))
    · -- The same as a type of objects is that type, or a missing one if the objects are any.
      have heq := hab.symm.eq_instance hb ha (c := c₂) rfl
      cases a with
      | none => exact .inr (.inl rfl)
      | some t => exact .inr (.inr ⟨c₂, c₃, congrArg some heq, rfl, hancestor⟩)
  · exact .inr (.inl hobject)
  · have hnot := not_ancestor_object hancestor hb
    rcases hbc with hbc | hobject | ⟨c₂', c₃, heq, rfl, hancestor'⟩
    · have heq := hbc.eq_instance hb hc (c := c₂) rfl
      cases c with
      | none =>
        rw [hbc.symm.isObject hc hb rfl] at hnot
        cases hnot
      | some t => exact .inr (.inr ⟨c₁, c₂, rfl, congrArg some heq, hancestor⟩)
    · rw [hobject] at hnot
      cases hnot
    · cases heq
      exact .inr (.inr ⟨c₁, c₃, rfl, rfl, hancestor.trans hancestor'⟩)

/-- Types above each other are the same. -/
theorem Above.antisymm (ha : Knows T a) (hb : Knows T b) (hab : s.Above a b)
    (hba : s.Above b a) : s.Same a b := by
  -- Each type is above the other one as the same type, as that of every object, or along the
  -- superclasses, where there is no way back.
  rcases hab with hab | hobject | ⟨c, d, rfl, rfl, hancestor⟩
  · exact hab
  · rcases hba with hba | hobject' | ⟨c, d, rfl, rfl, hancestor⟩
    · exact hba.symm
    · exact same_of_objects ha hb hobject hobject'
    · rw [not_ancestor_object hancestor ha] at hobject
      cases hobject
  · rcases hba with hba | hobject' | ⟨d', c', hd, hc, hancestor'⟩
    · exact hba.symm
    · rw [not_ancestor_object hancestor hb] at hobject'
      cases hobject'
    · cases hd
      cases hc
      exact absurd (hancestor.trans hancestor') (ClassType.Ancestor.irrefl c)

/-! ### The more general type -/

/-- The more general of two types by cases, once it is known whether they are the same. -/
theorem unify?_of_same? {r : Bool} (h : s.same? a b = some r) :
    s.unify? a b =
      if r then some (some a)
      else if isObject a then some (some a)
      else if isObject b then some (some b)
      else
        match a, b with
        | some (.instance c), some (.instance d) =>
          if ClassType.subclassOf d c then some (some b)
          else if ClassType.subclassOf c d then some (some a)
          else some none
        | _, _ => some none := by
  unfold unify?
  rw [h]
  rcases a with _ | (c | c | f) <;> rcases b with _ | (d | d | g) <;> rfl

/-- The comparison of two types is answered unless both are of functions. -/
theorem exists_same? (h : ∀ f g, a = some (.function f) → b ≠ some (.function g)) :
    ∃ r, s.same? a b = some r :=
  ⟨_, sameUpTo_eq_sameFlat h _⟩

/-- An ancestor is not a subclass. -/
theorem not_subclassOf_of_ancestor {c d : ClassType} (hc : T.knows c) (hd : T.knows d)
    (h : ClassType.Ancestor c d) : ¬ClassType.subclassOf d c = true := by
  rw [ClassType.subclassOf_iff hc hd]
  rintro (rfl | h')
  · exact ClassType.Ancestor.irrefl c h
  · exact ClassType.Ancestor.irrefl c (h.trans h')

/-- Of two types the one that is above the other is the more general one. -/
theorem unify?_of_above (ha : Knows T a) (hb : Knows T b) (h : s.Above a b) :
    s.unify? a b = some (some a) := by
  rcases h with h | hobject | ⟨c, d, rfl, rfl, hancestor⟩
  · exact unify?_of_same? h
  · obtain ⟨r, hr⟩ := exists_same? (s := s) (a := a) (b := b) (by rintro f g rfl; cases hobject)
    rw [unify?_of_same? hr, if_pos hobject, ite_self]
  · obtain ⟨r, hr⟩ := exists_same? (s := s) (a := some (.instance c)) (b := some (.instance d))
      nofun
    rw [unify?_of_same? hr, not_ancestor_object hancestor hb]
    simp only [not_subclassOf_of_ancestor (ha _ rfl) (hb _ rfl) hancestor, hancestor.subclassOf,
      if_true, if_false, Bool.false_eq_true, ite_self]

/-- Types that are not the same, where the answer is known. -/
theorem same?_of_not_same {r : Bool} (hr : s.same? a b = some r) (h : ¬s.Same a b) :
    s.same? a b = some false := by
  cases r with
  | false => exact hr
  | true => exact absurd hr h

/-- So is the second one, if only that is above the other. -/
theorem unify?_of_below (hnot : ¬s.Above a b) (h : s.Above b a) :
    s.unify? a b = some (some b) := by
  have hsame : ¬s.Same a b := fun h => hnot (.inl h)
  have hobject : ¬isObject a = true := fun h => hnot (.inr (.inl h))
  -- The second one is the same, stands for every value, or is an ancestor.
  rcases h with h | hobject' | ⟨c, d, rfl, rfl, hancestor⟩
  · exact absurd h.symm hsame
  · obtain ⟨r, hr⟩ := exists_same? (s := s) (a := a) (b := b) (by rintro f g - rfl; cases hobject')
    rw [unify?_of_same? (same?_of_not_same hr hsame), if_neg Bool.false_ne_true, if_neg hobject,
      if_pos hobject']
  · obtain ⟨r, hr⟩ := exists_same? (s := s) (a := some (.instance d)) (b := some (.instance c))
      nofun
    rw [unify?_of_same? (same?_of_not_same hr hsame), if_neg Bool.false_ne_true, if_neg hobject]
    dsimp only
    rw [if_pos hancestor.subclassOf, ite_self]

/-- There is no more general one if neither is above the other. -/
theorem unify?_of_unrelated (ha : Knows T a) (hb : Knows T b) {r : Bool}
    (hr : s.same? a b = some r) (hnot : ¬s.Above a b) (hnot' : ¬s.Above b a) :
    s.unify? a b = some none := by
  have hsame : ¬s.Same a b := fun h => hnot (.inl h)
  rw [unify?_of_same? (same?_of_not_same hr hsame), if_neg Bool.false_ne_true,
    if_neg fun h => hnot (.inr (.inl h)), if_neg fun h => hnot' (.inr (.inl h))]
  rcases a with _ | (c | c | f) <;> rcases b with _ | (d | d | g) <;> try rfl
  -- Two types of objects.
  have hc : T.knows c := ha _ rfl
  have hd : T.knows d := hb _ rfl
  dsimp only
  rw [if_neg, if_neg]
  · rw [ClassType.subclassOf_iff hd hc]
    rintro (rfl | h)
    · exact hsame (same_self s _)
    · exact hnot (.inr (.inr ⟨c, d, rfl, rfl, h⟩))
  · rw [ClassType.subclassOf_iff hc hd]
    rintro (rfl | h)
    · exact hsame (same_self s _)
    · exact hnot' (.inr (.inr ⟨d, c, rfl, rfl, h⟩))

/-- The more general of two types is the first one if it is above the second one, and otherwise the
second one if that is above the first one. -/
theorem unify?_eq_some_iff (ha : Knows T a) (hb : Knows T b) {u : Option Ty} :
    s.unify? a b = some (some u) ↔
      (s.Above a b ∧ u = a) ∨ (¬s.Above a b ∧ s.Above b a ∧ u = b) := by
  constructor
  · intro h
    by_cases hab : s.Above a b
    · rw [unify?_of_above ha hb hab] at h
      cases h
      exact .inl ⟨hab, rfl⟩
    by_cases hba : s.Above b a
    · rw [unify?_of_below hab hba] at h
      cases h
      exact .inr ⟨hab, hba, rfl⟩
    -- Neither is above the other: if the comparison ends at all, it finds no type.
    cases hr : s.same? a b with
    | none =>
      rw [(unify?_eq_none a b).2 hr] at h
      cases h
    | some r =>
      rw [unify?_of_unrelated ha hb hr hab hba] at h
      cases h
  · rintro (⟨hab, rfl⟩ | ⟨hab, hba, rfl⟩)
    · exact unify?_of_above ha hb hab
    · exact unify?_of_below hab hba

/-- A type may be passed where one above it is declared. -/
theorem assignable?_of_above (h : s.Above a b) : s.assignable? a b = some true := by
  unfold assignable?
  cases hobject : isObject a || isObject b with
  | true => rfl
  | false =>
    obtain ⟨ha, hb⟩ := Bool.or_eq_false_iff.1 hobject
    rcases h with h | h | ⟨c, d, rfl, rfl, hancestor⟩
    · rw [show s.same? a b = some true from h]
      rfl
    · rw [ha] at h
      cases h
    · -- A class below another one may or may not be the same, and may be passed in any case.
      obtain ⟨r, hr⟩ := exists_same? (s := s) (a := some (.instance c)) (b := some (.instance d))
        nofun
      rw [hr]
      cases r with
      | true => rfl
      | false => exact congrArg some hancestor.subclassOf

end Checker

end ClassScript.Typing
