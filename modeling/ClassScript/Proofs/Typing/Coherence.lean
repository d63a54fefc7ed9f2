import ClassScript.Proofs.Typing.Order

/-!
# The relations between types are coherent

Of the types that a checker can meet, those are plain whose function types do not contain
themselves. On the plain types sameness is an equivalence relation. Two of them have a more general
type exactly if they are the same, one stands for every value, or the class of one is an ancestor of
the class of the other. Up to sameness it does not matter which one comes first, and a value of
either type may be passed where the more general one is declared.
-/

namespace ClassScript.Typing

namespace Checker

/-! ### Types that do not contain themselves -/

/-- A type is a part of the type of a function: that of a parameter, or that of the result. -/
inductive Part (s : Checker) : Ty → Ty → Prop where
  /-- The type of a parameter. -/
  | param {f : SignatureId} {t : Ty} (ht : t ∈ (s.signature f).paramTypes) : Part s t (.function f)
  /-- The type of the result. -/
  | result {f : SignatureId} {t : Ty} (ht : (s.signature f).returns = some t) :
    Part s t (.function f)

/-- No type within a type contains itself. -/
def Founded (s : Checker) (a : Option Ty) : Prop :=
  ∀ t u, a = some t → Relation.ReflTransGen s.Part u t → ¬Relation.TransGen s.Part u u

/-- A type that a checker can meet: the class that it is about, if it is about one, is within
reach. -/
def Meets (s : Checker) (a : Option Ty) : Prop :=
  ∀ c, a = some (.instance c) ∨ a = some (.class c) → s.HasClass c

/-- A type that a checker can meet, whose function types do not contain themselves. A missing type
is one. -/
structure Plain (s : Checker) (a : Option Ty) : Prop where
  /-- The checker can meet the type. -/
  meets : s.Meets a
  /-- The function types do not contain themselves. -/
  founded : s.Founded a

variable {s : Checker} {T : Roster} {a b : Option Ty}

/-- The result of a function is a part of its type. -/
theorem part_of_resultOf {t : Ty} (h : s.resultOf a = some t) :
    ∃ f, a = some (.function f) ∧ s.Part t (.function f) := by
  rcases a with _ | (c | c | f)
  · cases h
  · cases h
  · cases h
  · exact ⟨f, rfl, .result h⟩

/-- What a row of results leads to is within the type that it starts from. -/
theorem within_of_iterate {k : Nat} {u : Ty} (h : s.resultOf^[k] a = some u) :
    ∃ t, a = some t ∧ Relation.ReflTransGen s.Part u t := by
  induction k generalizing u with
  | zero => exact ⟨u, h, .refl⟩
  | succ k ih =>
    rw [Function.iterate_succ_apply'] at h
    obtain ⟨f, hf, hpart⟩ := part_of_resultOf h
    obtain ⟨t, ht, hwithin⟩ := ih hf
    exact ⟨t, ht, .head hpart hwithin⟩

/-- The results of a type that does not contain itself do not come back. -/
theorem Founded.not_comesBack (h : s.Founded a) : ¬s.ComesBack a := by
  rintro ⟨i, j, f, hij, hi, hj⟩
  obtain ⟨k, rfl⟩ := Nat.exists_eq_add_of_lt hij
  obtain ⟨t, ht, hwithin⟩ := within_of_iterate hi
  rw [show i + k + 1 = k + 1 + i by omega, Function.iterate_add_apply, hi,
    Function.iterate_succ_apply'] at hj
  obtain ⟨g, hg, hpart⟩ := part_of_resultOf hj
  obtain ⟨_, ⟨⟩, hinside⟩ := within_of_iterate hg
  exact h t (.function f) ht hwithin (.head' hpart hinside)

/-- Only the type of a function has parts. -/
theorem Part.function {t u : Ty} (h : s.Part t u) : ∃ f, u = .function f := by
  cases h with
  | param _ => exact ⟨_, rfl⟩
  | result _ => exact ⟨_, rfl⟩

/-- A type that is not of a function has no parts. -/
theorem founded_of_not_function (h : ∀ f, a ≠ some (.function f)) : s.Founded a := by
  rintro t u rfl hwithin hloop
  obtain ⟨_, -, hpart⟩ := Relation.TransGen.tail'_iff.1 hloop
  obtain ⟨f, rfl⟩ := hpart.function
  rcases Relation.ReflTransGen.cases_tail hwithin with rfl | ⟨_, -, hlast⟩
  · exact h f rfl
  · obtain ⟨g, rfl⟩ := hlast.function
    exact h g rfl

/-! ### Coherence -/

/-- The relations between the plain types of a state fit together. -/
structure Coherent (s : Checker) : Prop where
  /-- It is always known whether two types are the same. -/
  same? : ∀ a b : {a // s.Plain a}, ∃ r, s.same? a b = some r
  /-- Sameness is an equivalence relation. -/
  equivalence : Equivalence fun a b : {a // s.Plain a} => s.Same a b
  /-- It is always known whether two types have a more general one. -/
  unify? : ∀ a b : {a // s.Plain a}, ∃ u, s.unify? a b = some u
  /-- They have one exactly if they are the same, one of them stands for every value, or both are
  types of objects and one class is an ancestor of the other one. -/
  unifies : ∀ a b : {a // s.Plain a}, (∃ u, s.unify? a b = some (some u)) ↔
    s.Same a b ∨ isObject a = true ∨ isObject b = true ∨
      ∃ c d, a.1 = some (.instance c) ∧ b.1 = some (.instance d) ∧
        (ClassType.Ancestor c d ∨ ClassType.Ancestor d c)
  /-- A type is the more general one of itself and itself. -/
  idempotent : ∀ a : {a // s.Plain a}, s.unify? a a = some (some a.1)
  /-- The more general of two types is the same in whichever order they come. -/
  symmetric : ∀ (a b : {a // s.Plain a}) u, s.unify? a b = some (some u) →
    ∃ v, s.unify? b a = some (some v) ∧ s.Same u v
  /-- A value of either type may be passed where the more general type is declared. -/
  assignable? : ∀ (a b : {a // s.Plain a}) u, s.unify? a b = some (some u) →
    s.assignable? u a = some true ∧ s.assignable? u b = some true

/-- The class of a type that can be met is on the roster. -/
theorem Meets.knows (hT : T.law.Holds s) (h : s.Meets a) : Knows T a := by
  rintro t rfl
  cases t with
  | «instance» c => exact knows_of_hasClass hT (h c (.inl rfl))
  | «class» c => exact knows_of_hasClass hT (h c (.inr rfl))
  | function f => trivial

/-- The comparison of a type that does not contain itself ends. -/
theorem Founded.exists_same? (h : s.Founded a) (hs : s.EndsComparisons) (b : Option Ty) :
    ∃ r, s.same? a b = some r :=
  Option.isSome_iff_exists.1 ((hs.same? a b).2 fun hcircular =>
    h.not_comesBack (hs.comesBack a b hcircular).1)

/-- Two types have a more general one exactly if one of them is above the other one. -/
theorem exists_unify?_iff (ha : Knows T a) (hb : Knows T b) :
    (∃ u, s.unify? a b = some (some u)) ↔ s.Above a b ∨ s.Above b a := by
  constructor
  · rintro ⟨u, hu⟩
    rcases (unify?_eq_some_iff ha hb).1 hu with ⟨hab, -⟩ | ⟨-, hba, -⟩
    · exact .inl hab
    · exact .inr hba
  · intro h
    by_cases hab : s.Above a b
    · exact ⟨a, unify?_of_above ha hb hab⟩
    · exact ⟨b, unify?_of_below hab (h.resolve_left hab)⟩

/-- The more general of two types is above both. -/
theorem above_of_unify? (ha : Knows T a) (hb : Knows T b) {u : Option Ty}
    (h : s.unify? a b = some (some u)) : s.Above u a ∧ s.Above u b := by
  rcases (unify?_eq_some_iff ha hb).1 h with ⟨hab, rfl⟩ | ⟨-, hba, rfl⟩
  · exact ⟨.refl s _, hab⟩
  · exact ⟨hba, .refl s _⟩

/-- In whichever order two types come, the more general one is the same. -/
theorem unify?_comm (ha : Knows T a) (hb : Knows T b) {u : Option Ty}
    (h : s.unify? a b = some (some u)) : ∃ v, s.unify? b a = some (some v) ∧ s.Same u v := by
  by_cases hba : s.Above b a
  · refine ⟨b, unify?_of_above hb ha hba, ?_⟩
    rcases (unify?_eq_some_iff ha hb).1 h with ⟨hab, rfl⟩ | ⟨-, -, rfl⟩
    · exact hab.antisymm ha hb hba
    · exact same_self s _
  · rcases (unify?_eq_some_iff ha hb).1 h with ⟨hab, rfl⟩ | ⟨-, hba', -⟩
    · exact ⟨_, unify?_of_below hba hab, same_self s _⟩
    · exact absurd hba' hba

/-- The classes on a roster, and comparisons that end, make the relations coherent. -/
theorem coherent_of_law (hT : T.law.Holds s) (hs : s.EndsComparisons) : s.Coherent where
  same? a b := a.2.founded.exists_same? hs b
  -- Transitivity needs that all three types know their superclasses.
  equivalence := {
    refl := fun a => same_self s a
    symm := Same.symm
    trans := fun {a b c} =>
      Same.trans hT (a.2.meets.knows hT) (b.2.meets.knows hT) (c.2.meets.knows hT) }
  unify? a b := by
    obtain ⟨r, hr⟩ := a.2.founded.exists_same? hs b
    refine Option.ne_none_iff_exists'.1 fun hnone => ?_
    rw [(unify?_eq_none _ _).1 hnone] at hr
    cases hr
  unifies a b := by
    -- Types unify if either is above the other, and there are three ways to be that on each side.
    rw [exists_unify?_iff (a.2.meets.knows hT) (b.2.meets.knows hT)]
    constructor
    · rintro ((h | h | ⟨c, d, hc, hd, h⟩) | (h | h | ⟨c, d, hc, hd, h⟩))
      · exact .inl h
      · exact .inr (.inl h)
      · exact .inr (.inr (.inr ⟨c, d, hc, hd, .inl h⟩))
      · exact .inl h.symm
      · exact .inr (.inr (.inl h))
      · exact .inr (.inr (.inr ⟨d, c, hd, hc, .inr h⟩))
    · rintro (h | h | h | ⟨c, d, hc, hd, h | h⟩)
      · exact .inl (.inl h)
      · exact .inl (.inr (.inl h))
      · exact .inr (.inr (.inl h))
      · exact .inl (.inr (.inr ⟨c, d, hc, hd, h⟩))
      · exact .inr (.inr (.inr ⟨d, c, hd, hc, h⟩))
  idempotent a := unify?_of_same? (same_self s a)
  symmetric a b _ := unify?_comm (a.2.meets.knows hT) (b.2.meets.knows hT)
  assignable? a b _ h := by
    obtain ⟨ha, hb⟩ := above_of_unify? (a.2.meets.knows hT) (b.2.meets.knows hT) h
    exact ⟨assignable?_of_above ha, assignable?_of_above hb⟩

/-- Between programs, and where the check of a further program ends, early or not, the relations
between the types that do not contain themselves are coherent. -/
theorem type_relations_coherent (h : s.Reachable) (program : List Stmt) :
    s.Coherent ∧ ((Check.stmts program).final s.idle).Coherent := by
  obtain ⟨T, hT⟩ := h.roster
  obtain ⟨T', hT'⟩ := h.roster_final program
  obtain ⟨hbefore, hfinal⟩ := h.declares program
  exact ⟨coherent_of_law hT hbefore.endsComparisons, coherent_of_law hT' hfinal.endsComparisons⟩

/-- The objects of a class that is known by a global name. -/
theorem plain_globalType (s : Checker) (name : String) :
    s.Plain (some (Check.globalType s name)) where
  meets := by
    -- The type is `Object`, an object of a known class, or `Object` for want of one.
    unfold Check.globalType Check.named?
    split
    · rintro c (⟨⟨⟩⟩ | ⟨⟨⟩⟩)
      exact .native .object
    · split
      · next hc =>
        rintro _ (⟨⟨⟩⟩ | ⟨⟨⟩⟩)
        exact .class (.global hc)
      · rintro c (⟨⟨⟩⟩ | ⟨⟨⟩⟩)
        exact .native .object
  founded := by
    refine founded_of_not_function fun f hf => ?_
    unfold Check.globalType Check.named? at hf
    split at hf
    · cases hf
    · split at hf <;> cases hf

/-- A class and its superclass have a more general type, to which both may be passed. Another class
is not the same as the first one, and has no more general type with it. -/
theorem type_relations_coherent_superclass :
    let s := ((ofMachine .initial).check
      (Parse.source "class P \x7b\x7d class Q < P \x7b\x7d class R \x7b\x7d" 0).program).2
    let a := some (Check.globalType s "P")
    let b := some (Check.globalType s "Q")
    let c := some (Check.globalType s "R")
    s.Reachable ∧ s.Plain a ∧ s.Plain b ∧ s.Plain c ∧
      (∃ u, s.unify? a b = some (some u) ∧ s.typeText? u = some "P" ∧
        s.assignable? u a = some true ∧ s.assignable? u b = some true) ∧
      s.same? b c = some false ∧ s.unify? b c = some none := by
  intro s a b c
  have hs : s.Reachable := .checked (.seeded _) _
  -- The answers for these three classes are computed.
  obtain ⟨hunify, hsame, hnone⟩ : (s.unify? a b).join.map s.typeText? = some (some "P") ∧
      s.same? b c = some false ∧ (s.unify? b c).map Option.isNone = some true := by decide +kernel
  obtain ⟨u, hu, htext⟩ := Option.map_eq_some_iff.1 hunify
  have hu := Option.join_eq_some_iff.1 hu
  have hcoherent := (type_relations_coherent hs []).1
  have ha := plain_globalType s "P"
  have hb := plain_globalType s "Q"
  have hc := plain_globalType s "R"
  obtain ⟨v, hv, hv'⟩ := Option.map_eq_some_iff.1 hnone
  exact ⟨hs, ha, hb, hc, ⟨u, hu, htext, hcoherent.assignable? ⟨a, ha⟩ ⟨b, hb⟩ u hu⟩, hsame,
    Option.isNone_iff_eq_none.1 hv' ▸ hv⟩

end Checker

end ClassScript.Typing
