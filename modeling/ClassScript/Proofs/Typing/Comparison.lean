import Mathlib.Data.Fintype.Pigeonhole
import Mathlib.Logic.Function.Iterate
import ClassScript.Proofs.Typing.Grounded
import ClassScript.Proofs.Typing.Settling

/-!
# Which comparisons of types end

The types of parameters are declared, so they are types of objects and are compared at once. The
only part of a function type that can be a function again is its result. So a comparison of two
functions follows two rows of results side by side, and it has no end if both rows come back to
functions they have met, without a difference on the way. All other comparisons end.
-/

namespace ClassScript.Typing

/-- Whether a verdict is that of a check without an end. -/
def Verdict.isEndless : Verdict → Bool
  | .endless => true
  | _ => false

/-- A verdict of a check without an end is the one that says so. -/
theorem Verdict.eq_of_isEndless {v : Verdict} (h : v.isEndless = true) : v = .endless := by
  cases v with
  | endless => rfl
  | _ => cases h

namespace Checker

/-! ### Rows of results -/

/-- The type of the result of a function. Other types have no result. -/
def resultOf (s : Checker) : Option Ty → Option Ty
  | some (.function f) => (s.signature f).returns
  | _ => none

/-- Two functions have parameters of the same types, variadic alike. -/
def SameParams (s : Checker) (f g : SignatureId) : Prop :=
  ∃ pairs, paramPairs? (s.signature f) (s.signature g) = some pairs ∧
    ∀ pair ∈ pairs, pair.1.2.identical pair.2.2 ∧ pair.1.1.variadic = pair.2.1.variadic

/-- Two types cannot be told apart without their results: they are two functions with the same
parameters. -/
def GoesOn (s : Checker) (a b : Option Ty) : Prop :=
  ∃ f g, a = some (.function f) ∧ b = some (.function g) ∧ f ≠ g ∧ s.SameParams f g

/-- Following the results of two types side by side, nothing ever tells them apart. -/
def Circular (s : Checker) (a b : Option Ty) : Prop :=
  ∀ k, s.GoesOn (s.resultOf^[k] a) (s.resultOf^[k] b)

/-- Following the results of a type, one comes back to a function. -/
def ComesBack (s : Checker) (a : Option Ty) : Prop :=
  ∃ i j f, i < j ∧ s.resultOf^[i] a = some (.function f) ∧ s.resultOf^[j] a = some (.function f)

/-- The types of all parameters are types that can be declared. -/
def Declares (s : Checker) : Prop := ∀ f, ∀ t ∈ (s.signature f).paramTypes, t.IsInstance

variable {s : Checker}

/-! ### One level of a comparison -/

open Classical in
/-- Parameters of declared types are compared at once. -/
theorem sameParamsBy_declared (n : Nat) {pairs : List ((Param × Ty) × (Param × Ty))}
    (h : ∀ pair ∈ pairs, pair.1.2.IsInstance) :
    sameParamsBy (s.sameUpTo n) pairs = some (decide (∀ pair ∈ pairs,
      pair.1.2.identical pair.2.2 ∧ pair.1.1.variadic = pair.2.1.variadic)) := by
  induction pairs with
  | nil => simp [sameParamsBy]
  | cons pair rest ih =>
    obtain ⟨⟨p, t⟩, q, u⟩ := pair
    obtain ⟨⟨c, rfl⟩, hrest⟩ := List.forall_mem_cons.1 h
    rw [sameParamsBy, sameUpTo_instance, ih hrest]
    simp only [List.forall_mem_cons]
    cases (Ty.instance c).identical u with
    | false => simp
    | true => by_cases hv : p.variadic = q.variadic <;> simp [hv]

/-- The parameters of two functions that are compared are of objects. -/
theorem Declares.pairs (h : s.Declares) {f g : SignatureId}
    {pairs : List ((Param × Ty) × (Param × Ty))}
    (hpairs : paramPairs? (s.signature f) (s.signature g) = some pairs) :
    ∀ pair ∈ pairs, pair.1.2.IsInstance := by
  unfold paramPairs? at hpairs
  split at hpairs
  · cases hpairs
    rintro ⟨⟨p, t⟩, q⟩ hp
    exact h f t (List.of_mem_zip (List.of_mem_zip hp).1).2
  · cases hpairs

/-- Two functions are told apart by their results only if they are different, with the same
parameters. -/
theorem goesOn_functions {f g : SignatureId} :
    s.GoesOn (some (.function f)) (some (.function g)) ↔ f ≠ g ∧ s.SameParams f g := by
  constructor
  · rintro ⟨_, _, ⟨⟩, ⟨⟩, h⟩
    exact h
  · exact fun h => ⟨f, g, rfl, rfl, h⟩

/-- The comparison of two functions is left open if their parameters are the same and the comparison
of their results is left open. -/
theorem sameUpTo_functions_eq_none (h : s.Declares) (n : Nat) {f g : SignatureId} (hne : f ≠ g) :
    s.sameUpTo (n + 1) (some (.function f)) (some (.function g)) = none ↔
      s.SameParams f g ∧
        s.sameUpTo n (s.signature f).returns (s.signature g).returns = none := by
  rw [sameUpTo_function_succ, if_neg hne]
  unfold sameSignaturesBy SameParams
  -- With other counts of parameters, or other parameters, the comparison is closed at once.
  cases hpairs : paramPairs? (s.signature f) (s.signature g) with
  | none =>
    refine iff_of_false (Option.some_ne_none _) ?_
    rintro ⟨⟨pairs, ⟨⟩, -⟩, -⟩
  | some pairs =>
    dsimp only
    rw [sameParamsBy_declared n (h.pairs hpairs)]
    by_cases hall : ∀ pair ∈ pairs,
        pair.1.2.identical pair.2.2 ∧ pair.1.1.variadic = pair.2.1.variadic
    · rw [decide_eq_true hall]
      exact (and_iff_right ⟨pairs, rfl, hall⟩).symm
    · rw [decide_eq_false hall]
      refine iff_of_false (Option.some_ne_none _) ?_
      rintro ⟨⟨_, ⟨⟩, hall'⟩, -⟩
      exact hall hall'

/-- A comparison that is left open one level further down is one of two functions with the same
parameters, whose results are left open. -/
theorem sameUpTo_succ_eq_none (h : s.Declares) (n : Nat) (a b : Option Ty) :
    s.sameUpTo (n + 1) a b = none ↔
      s.GoesOn a b ∧ s.sameUpTo n (s.resultOf a) (s.resultOf b) = none := by
  -- Types that are not both functions are compared without going further.
  rcases flat_or_functions a b with hflat | ⟨f, g, rfl, rfl⟩
  · have hsome : s.sameUpTo (n + 1) a b ≠ none := by
      rcases a with _ | (c | c | f) <;> rcases b with _ | (d | d | g) <;>
        first
          | exact Option.some_ne_none _
          | exact absurd rfl (hflat _ _ rfl)
    refine iff_of_false hsome ?_
    rintro ⟨⟨f, g, ha, hb, -⟩, -⟩
    exact hflat f g ha hb
  · rw [goesOn_functions]
    by_cases hfg : f = g
    · rw [sameUpTo_function_succ, if_pos hfg]
      exact iff_of_false (Option.some_ne_none _) fun hgoes => hgoes.1.1 hfg
    · rw [sameUpTo_functions_eq_none h n hfg, and_assoc]
      exact (and_iff_right hfg).symm

/-! ### Whole comparisons -/

/-- A comparison is left open at every level exactly if nothing tells the rows of results apart. -/
theorem sameUpTo_eq_none (h : s.Declares) (a b : Option Ty) :
    (∀ n, s.sameUpTo n a b = none) ↔ s.Circular a b := by
  constructor
  · intro hnone k
    -- On the level: what is open one level further down is open for the results.
    induction k generalizing a b with
    | zero => exact ((sameUpTo_succ_eq_none h 0 a b).1 (hnone 1)).1
    | succ k ih =>
      exact ih (s.resultOf a) (s.resultOf b) fun n =>
        ((sameUpTo_succ_eq_none h n a b).1 (hnone (n + 1))).2
  · intro hcircular n
    induction n generalizing a b with
    | zero =>
      obtain ⟨f, g, ha, hb, hfg, -⟩ := hcircular 0
      rw [show a = some (.function f) from ha, show b = some (.function g) from hb, sameUpTo,
        if_neg hfg]
    | succ n ih =>
      exact (sameUpTo_succ_eq_none h n a b).2 ⟨hcircular 0, ih _ _ fun k => hcircular (k + 1)⟩

/-- An answer to some depth is the answer to any greater one. -/
theorem sameUpTo_add {n : Nat} {a b : Option Ty} {r : Bool} (h : s.sameUpTo n a b = some r)
    (k : Nat) : s.sameUpTo (n + k) a b = some r := by
  induction k with
  | zero => exact h
  | succ k ih => exact sameUpTo_succ ih

/-- `same?` has no answer exactly if no number of levels gives one. -/
theorem same?_eq_none (a b : Option Ty) :
    s.same? a b = none ↔ ∀ n, s.sameUpTo n a b = none := by
  constructor
  · intro hnone n
    cases hr : s.sameUpTo n a b with
    | none => rfl
    | some r =>
      have hlater := sameUpTo_add hr (s.signatures.size * s.signatures.size + 1)
      rw [sameUpTo_eq_same? (by omega), hnone] at hlater
      cases hlater
  · intro hnone
    exact hnone _

/-- The more general type of two is without an answer if their comparison is. -/
theorem unify?_eq_none (a b : Option Ty) : s.unify? a b = none ↔ s.same? a b = none := by
  unfold unify?
  cases s.same? a b with
  | none => exact iff_of_true rfl rfl
  | some r =>
    refine iff_of_false ?_ (Option.some_ne_none r)
    simp only [Option.bind_eq_bind, Option.bind_some]
    repeat' split
    all_goals exact Option.some_ne_none _

/-- So is the question whether a type may be passed, unless one of them stands for every value. -/
theorem assignable?_eq_none (param arg : Option Ty) :
    s.assignable? param arg = none ↔
      (isObject param || isObject arg) = false ∧ s.same? param arg = none := by
  unfold assignable?
  cases isObject param || isObject arg with
  | true => exact iff_of_false (Option.some_ne_none _) (fun h => Bool.noConfusion h.1)
  | false =>
    cases s.same? param arg with
    | none => exact iff_of_true rfl ⟨rfl, rfl⟩
    | some r =>
      -- Once it is known whether the types are the same, there is an answer.
      refine iff_of_false ?_ (fun h => Option.some_ne_none r h.2)
      simp only [Option.bind_eq_bind, Option.bind_some]
      repeat' split
      all_goals exact Option.some_ne_none _

/-- Types that are told apart by nothing are functions, so neither stands for every value. -/
theorem Circular.not_object {a b : Option Ty} (h : s.Circular a b) :
    (isObject a || isObject b) = false := by
  obtain ⟨f, g, ha, hb, -⟩ := h 0
  rw [show a = some (.function f) from ha, show b = some (.function g) from hb]
  rfl

/-! ### Rows that never leave the functions -/

/-- There are only so many functions, so a row of functions comes back. -/
theorem comesBack {a : Option Ty} (h : ∀ k, ∃ f, s.resultOf^[k] a = some (.function f)) :
    s.ComesBack a := by
  choose row hrow using h
  -- A row that goes on never meets the placeholder behind the last function, which returns nothing.
  have hlt : ∀ k, row k < s.signatures.size := by
    intro k
    by_contra hk
    have hnext := hrow (k + 1)
    rw [Function.iterate_succ_apply', hrow k] at hnext
    change (s.signature (row k)).returns = _ at hnext
    rw [signature_of_le (Nat.not_lt.1 hk)] at hnext
    cases hnext
  -- More places than functions: two of the row are equal.
  obtain ⟨i, j, hij, heq⟩ :=
    Finite.exists_ne_map_eq_of_infinite fun k => (⟨row k, hlt k⟩ : Fin s.signatures.size)
  have heq : row i = row j := congrArg Fin.val heq
  rcases Nat.lt_or_gt_of_ne hij with hij | hij
  · exact ⟨i, j, row i, hij, hrow i, heq ▸ hrow j⟩
  · exact ⟨j, i, row j, hij, hrow j, heq ▸ hrow i⟩

/-- If nothing tells two types apart and there is no end, both come back to functions. -/
theorem Circular.comesBack {a b : Option Ty} (h : s.Circular a b) :
    s.ComesBack a ∧ s.ComesBack b := by
  refine ⟨Checker.comesBack fun k => ?_, Checker.comesBack fun k => ?_⟩
  · obtain ⟨f, -, hf, -⟩ := h k
    exact ⟨f, hf⟩
  · obtain ⟨-, g, -, hg, -⟩ := h k
    exact ⟨g, hg⟩

/-! ### The states of a checker -/

/-- The comparisons of a state end, but for those of types whose results come back without a
difference. -/
structure EndsComparisons (s : Checker) : Prop where
  /-- A comparison is answered with some number of levels. -/
  levels : ∀ a b, (∃ n r, s.sameUpTo n a b = some r) ↔ ¬s.Circular a b
  /-- The question whether two types are the same is answered. -/
  same? : ∀ a b, (s.same? a b).isSome ↔ ¬s.Circular a b
  /-- The question for the more general type is answered. -/
  unify? : ∀ a b, (s.unify? a b).isSome ↔ ¬s.Circular a b
  /-- The question whether a value may be passed is answered. -/
  assignable? : ∀ a b, (s.assignable? a b).isSome ↔ ¬s.Circular a b
  /-- Both types come back to a function where a comparison does not end. -/
  comesBack : ∀ a b, s.Circular a b → s.ComesBack a ∧ s.ComesBack b

/-- Where parameters have declared types, all other comparisons end. -/
theorem Declares.endsComparisons (h : s.Declares) : s.EndsComparisons := by
  have hsame : ∀ a b, s.same? a b = none ↔ s.Circular a b := fun a b =>
    (same?_eq_none a b).trans (sameUpTo_eq_none h a b)
  refine ⟨fun a b => ?_, fun a b => ?_, fun a b => ?_, fun a b => ?_, fun a b => Circular.comesBack⟩
  · rw [← sameUpTo_eq_none h]
    simp only [not_forall, Option.ne_none_iff_exists', ← ne_eq]
  · rw [← hsame, Option.isSome_iff_ne_none]
  · rw [← hsame, Option.isSome_iff_ne_none, ne_eq, unify?_eq_none]
  · rw [Option.isSome_iff_ne_none, ne_eq, assignable?_eq_none, hsame]
    exact not_congr ⟨And.right, fun hc => ⟨hc.not_object, hc⟩⟩

/-- In closed states the parameters of functions have declared types. -/
theorem declares_of_closed {base e : Extent} (h : Closed base e s) : s.Declares :=
  fun f => (h.signature f).declared

/-- Parameters are declared between programs, and where the check of a further program ends. -/
theorem Reachable.declares (h : s.Reachable) (program : List Stmt) :
    s.Declares ∧ ((Check.stmts program).final s.idle).Declares := by
  obtain ⟨hclosed, -⟩ := h.closed
  have hfinal := ((Check.closes_stmts s.extent program).state s.idle hclosed (le_refl _)).1
  exact ⟨declares_of_closed (s := s.idle) hclosed, declares_of_closed hfinal⟩

/-- Between programs, and where the check of a further program ends, early or not, a comparison of
types has no end exactly if the types are functions that return themselves in the end, and following
their results side by side nothing tells them apart. -/
theorem comparison_ends_unless_circular (h : s.Reachable) (program : List Stmt) :
    s.EndsComparisons ∧ ((Check.stmts program).final s.idle).EndsComparisons := by
  obtain ⟨hbefore, hfinal⟩ := h.declares program
  exact ⟨hbefore.endsComparisons, hfinal.endsComparisons⟩

/-- A type that is identical to a function is the type of it. -/
theorem eq_function {t : Option Ty} {f : SignatureId}
    (h : t.any (·.identical (.function f)) = true) : t = some (.function f) := by
  rcases t with _ | (c | c | g)
  · cases h
  · cases h
  · cases h
  · exact congrArg (fun f => some (Ty.function f)) (of_decide_eq_true h)

/-- A function that returns itself is told apart from one that returns a number. -/
theorem comparison_ends_unless_circular_number :
    let s := ((ofMachine .initial).check
      (Parse.source "fun f() \x7b return f \x7d fun g() \x7b return 1 \x7d" 0).program).2
    s.Reachable ∧ s.ComesBack (some (.function 3)) ∧
      ¬s.Circular (some (.function 3)) (some (.function 4)) ∧
      (s.unify? (some (.function 3)) (some (.function 4))).isSome := by
  intro s
  have hs : s.Reachable := .checked (.seeded _) _
  obtain ⟨hreturns, hunify⟩ :
      (s.resultOf (some (.function 3))).any (·.identical (.function 3)) = true ∧
      (s.unify? (some (.function 3)) (some (.function 4))).isSome := by decide +kernel
  exact ⟨hs, ⟨0, 1, 3, Nat.one_pos, rfl, eq_function hreturns⟩,
    ((comparison_ends_unless_circular hs []).1.unify? _ _).1 hunify, hunify⟩

/-- A state mentions the function that a global name has for its type. -/
theorem mentions_of_global (name : String) {f : SignatureId}
    (h : s.globals[name]?.join.any (·.identical (.function f)) = true) : s.Mentions (.function f) :=
  have hname : s.globals[name]? = some (some (.function f)) :=
    Option.join_eq_some_iff.1 (eq_function h)
  .global hname

/-- Two functions without parameters that return themselves are not told apart by their results. -/
theorem circular_of_fixed {f g : SignatureId} (hfg : f ≠ g)
    (hf : s.resultOf (some (.function f)) = some (.function f))
    (hg : s.resultOf (some (.function g)) = some (.function g))
    (hempty : (paramPairs? (s.signature f) (s.signature g)).any List.isEmpty = true) :
    s.Circular (some (.function f)) (some (.function g)) := by
  intro k
  rw [Function.iterate_fixed hf, Function.iterate_fixed hg]
  obtain ⟨pairs, hpairs, hnil⟩ := (Option.any_eq_true _ _).1 hempty
  rw [List.isEmpty_iff.1 hnil] at hpairs
  exact ⟨f, g, rfl, rfl, hfg, [], hpairs, List.forall_mem_nil _⟩

/-- Two functions that return themselves are compared for ever, and so the check of a program that
assigns one to the name of the other one never ends. -/
theorem comparison_of_circular_functions_endless :
    let s := ofMachine .initial
    let program := (Parse.source
      "fun f() \x7b return f \x7d fun g() \x7b return g \x7d f = g" 0).program
    let t := (Check.stmts program).final s.idle
    s.Reachable ∧ t.Mentions (.function 3) ∧ t.Mentions (.function 4) ∧
      (∀ n, t.sameUpTo n (some (.function 3)) (some (.function 4)) = none) ∧
      (s.check program).1 = .endless := by
  intro s program t
  have hs : s.Reachable := .seeded _
  -- One evaluation of the check for all that is read off its end.
  obtain ⟨hf, hg, hreturnsf, hreturnsg, hempty, hendless⟩ :
      t.globals["f"]?.join.any (·.identical (.function 3)) = true ∧
      t.globals["g"]?.join.any (·.identical (.function 4)) = true ∧
      (t.resultOf (some (.function 3))).any (·.identical (.function 3)) = true ∧
      (t.resultOf (some (.function 4))).any (·.identical (.function 4)) = true ∧
      (paramPairs? (t.signature 3) (t.signature 4)).any List.isEmpty = true ∧
      (s.check program).1.isEndless = true := by decide +kernel
  have hcircular : t.Circular (some (.function 3)) (some (.function 4)) :=
    circular_of_fixed (by decide) (eq_function hreturnsf) (eq_function hreturnsg) hempty
  exact ⟨hs, mentions_of_global "f" hf, mentions_of_global "g" hg,
    (sameUpTo_eq_none (hs.declares program).2 _ _).2 hcircular, Verdict.eq_of_isEndless hendless⟩

end Checker

end ClassScript.Typing
