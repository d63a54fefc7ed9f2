import Mathlib.Data.Finset.Prod
import Mathlib.Order.Monotone.Basic
import ClassScript.Typing.Relation

/-!
# Comparisons and texts of types settle

A comparison of types, and the text of a type, go into function types down to a number of levels.
With more levels there are more answers, and no answer changes. Only pairs of functions, or
functions, that exist can be without an answer, so that after as many levels as there are such pairs
or functions nothing new comes: the bounds in `same?` and `typeText?` are large enough.
-/

namespace ClassScript.Typing

/-! ### Answers that only grow -/

section Answers

variable {X R : Type} {V : Nat → X → Option R}

/-- Answers that are given once are kept. -/
def Keeping (V : Nat → X → Option R) : Prop := ∀ n x r, V n x = some r → V (n + 1) x = some r

open Classical in
/-- The questions of a set without an answer. -/
noncomputable def openAt (V : Nat → X → Option R) (U : Finset X) (n : Nat) : Finset X :=
  U.filter fun x => V n x = none

/-- With one level more no question is opened again. -/
theorem Keeping.openAt_subset (h : Keeping V) (U : Finset X) (n : Nat) :
    openAt V U (n + 1) ⊆ openAt V U n := by
  classical
  intro x hx
  obtain ⟨hU, hnone⟩ := Finset.mem_filter.1 hx
  refine Finset.mem_filter.2 ⟨hU, ?_⟩
  cases hV : V n x with
  | none => rfl
  | some r =>
    rw [h n x r hV] at hnone
    cases hnone

/-- If no question gets its answer in a step, the step changes nothing. -/
theorem Keeping.eq_of_card_eq (h : Keeping V) {U : Finset X} {n : Nat}
    (hknown : ∀ x ∉ U, V n x ≠ none) (hcard : (openAt V U n).card = (openAt V U (n + 1)).card) :
    V n = V (n + 1) := by
  classical
  -- Open questions only get fewer, so with as many as before they are the same.
  have hopen : openAt V U (n + 1) = openAt V U n :=
    Finset.eq_of_subset_of_card_le (h.openAt_subset U n) hcard.le
  funext x
  cases hV : V n x with
  | some r => exact (h n x r hV).symm
  | none =>
    have hU : x ∈ U := by
      by_contra hx
      exact hknown x hx hV
    have hx : x ∈ openAt V U n := Finset.mem_filter.2 ⟨hU, hV⟩
    rw [← hopen] at hx
    exact (Finset.mem_filter.1 hx).2.symm

/-- What has an answer at the first level keeps it. -/
theorem Keeping.ne_none (h : Keeping V) {x : X} (hx : V 1 x ≠ none) (n : Nat) :
    V (n + 1) x ≠ none := by
  induction n with
  | zero => exact hx
  | succ n ih =>
    obtain ⟨r, hr⟩ := Option.ne_none_iff_exists'.1 ih
    rw [h (n + 1) x r hr]
    exact Option.some_ne_none r

/-- Answers that depend on those one level further down settle after as many levels as there are
questions that the first level leaves open. -/
theorem Keeping.settled (h : Keeping V) (hstep : ∀ n, V n = V (n + 1) → V (n + 1) = V (n + 2))
    (U : Finset X) (hknown : ∀ x ∉ U, V 1 x ≠ none) {n : Nat} (hn : U.card ≤ n) :
    V (n + 1) = V (U.card + 1) := by
  classical
  -- The number of answers that the open questions have got.
  let answered : Nat → Nat := fun n => U.card - (openAt V U (n + 1)).card
  have hle : ∀ n, (openAt V U n).card ≤ U.card := fun n => Finset.card_filter_le ..
  have hgrow : ∀ n, (openAt V U (n + 1)).card ≤ (openAt V U n).card := fun n =>
    Finset.card_le_card (h.openAt_subset U n)
  have hmono : Monotone answered := monotone_nat_of_le_succ fun n =>
    Nat.sub_le_sub_left (hgrow (n + 1)) _
  have hsame : ∀ n, answered n = answered (n + 1) → V (n + 1) = V (n + 2) := by
    intro n heq
    refine h.eq_of_card_eq (fun x hx => h.ne_none (hknown x hx) n) ?_
    have h₁ := hle (n + 1)
    have h₂ := hgrow (n + 1)
    have heq' : U.card - (openAt V U (n + 1)).card = U.card - (openAt V U (n + 1 + 1)).card := heq
    omega
  have hstable : ∀ n, answered n = answered (n + 1) → answered (n + 1) = answered (n + 2) := by
    intro n heq
    have hV := hstep _ (hsame n heq)
    change U.card - (openAt V U (n + 2)).card = U.card - (openAt V U (n + 3)).card
    unfold openAt
    rw [hV]
  have hconst : ∀ k, V (U.card + k + 1) = V (U.card + 1) := by
    intro k
    induction k with
    | zero => rfl
    | succ k ih =>
      have hbound : ∀ m, answered m ≤ U.card := fun m => Nat.sub_le ..
      have h₁ := Nat.stabilises_of_monotone hmono hbound hstable (Nat.le_add_right U.card k)
      have h₂ := Nat.stabilises_of_monotone hmono hbound hstable (Nat.le_add_right U.card (k + 1))
      rw [← ih]
      exact (hsame (U.card + k) (h₁.trans h₂.symm)).symm
  obtain ⟨k, rfl⟩ := Nat.exists_eq_add_of_le hn
  exact hconst k

end Answers

namespace Checker

variable {s : Checker}

/-! ### Comparisons -/

section Same

variable {same same' : Option Ty → Option Ty → Option Bool}

/-- Parameters that are compared with more answers have the same answer. -/
theorem sameParamsBy_mono (h : ∀ a b r, same a b = some r → same' a b = some r)
    {pairs : List ((Param × Ty) × (Param × Ty))} {r : Bool}
    (hr : sameParamsBy same pairs = some r) : sameParamsBy same' pairs = some r := by
  -- On the pairs: the row ends at the first pair that differs.
  induction pairs with
  | nil => exact hr
  | cons pair rest ih =>
    obtain ⟨⟨p, t⟩, q, u⟩ := pair
    unfold sameParamsBy at hr ⊢
    obtain ⟨b, hb, hrest⟩ := Option.bind_eq_some_iff.1 hr
    refine Option.bind_eq_some_iff.2 ⟨b, h _ _ _ hb, ?_⟩
    cases b with
    | false => exact hrest
    | true =>
      by_cases hv : p.variadic = q.variadic
      · rw [if_pos rfl, if_pos hv] at hrest ⊢
        exact ih hrest
      · rw [if_pos rfl, if_neg hv] at hrest ⊢
        exact hrest

/-- So have signatures. -/
theorem sameSignaturesBy_mono (h : ∀ a b r, same a b = some r → same' a b = some r)
    {f g : Signature} {r : Bool} (hr : sameSignaturesBy same f g = some r) :
    sameSignaturesBy same' f g = some r := by
  unfold sameSignaturesBy at hr ⊢
  cases hp : paramPairs? f g with
  | none =>
    rw [hp] at hr
    exact hr
  | some pairs =>
    rw [hp] at hr
    obtain ⟨b, hb, hrest⟩ := Option.bind_eq_some_iff.1 hr
    refine Option.bind_eq_some_iff.2 ⟨b, sameParamsBy_mono h hb, ?_⟩
    cases b with
    | false => exact hrest
    | true => exact h _ _ _ hrest

end Same

/-- Types that are not both functions are compared without going into them. -/
theorem sameUpTo_flat {a b : Option Ty}
    (h : ∀ f g, a = some (.function f) → b ≠ some (.function g)) (m n : Nat) :
    s.sameUpTo m a b = s.sameUpTo n a b := by
  cases a with
  | none => cases m <;> cases n <;> rfl
  | some a =>
    cases b with
    | none => cases m <;> cases n <;> cases a <;> rfl
    | some b =>
      cases a with
      | «instance» c => cases m <;> cases n <;> rfl
      | «class» c => cases m <;> cases n <;> rfl
      | function f =>
        -- Of all pairs only two functions use a level.
        cases b with
        | «instance» d => cases m <;> cases n <;> rfl
        | «class» d => cases m <;> cases n <;> rfl
        | function g => exact absurd rfl (h f g rfl)

/-- A type of objects is compared by identity. -/
theorem sameUpTo_instance (s : Checker) (n : Nat) (c : ClassType) (u : Ty) :
    s.sameUpTo n (some (.instance c)) (some u) = some ((Ty.instance c).identical u) := by
  cases n <;> cases u <;> rfl

/-- A type is the same as itself to any depth. -/
theorem sameUpTo_self (s : Checker) (n : Nat) (t : Ty) :
    s.sameUpTo n (some t) (some t) = some true := by
  cases t with
  | «instance» c => rw [sameUpTo_flat (by simp) n 0]; simp [sameUpTo, Ty.identical]
  | «class» c => rw [sameUpTo_flat (by simp) n 0]; simp [sameUpTo, Ty.identical]
  | function f => cases n <;> simp [sameUpTo]

/-- Two types are both of functions or they are not. -/
theorem flat_or_functions (a b : Option Ty) :
    (∀ f g, a = some (.function f) → b ≠ some (.function g)) ∨
      ∃ f g, a = some (.function f) ∧ b = some (.function g) := by
  by_cases h : ∃ f g, a = some (.function f) ∧ b = some (.function g)
  · exact .inr h
  · exact .inl fun f g ha hb => h ⟨f, g, ha, hb⟩

/-- Functions are the same, or their signatures are compared one level less deep. -/
theorem sameUpTo_function_succ (s : Checker) (n : Nat) (f g : SignatureId) :
    s.sameUpTo (n + 1) (some (.function f)) (some (.function g)) =
      if f = g then some true
      else sameSignaturesBy (s.sameUpTo n) (s.signature f) (s.signature g) := by
  rw [sameUpTo]

/-- With more levels no answer changes. -/
theorem sameUpTo_succ {n : Nat} {a b : Option Ty} {r : Bool} (h : s.sameUpTo n a b = some r) :
    s.sameUpTo (n + 1) a b = some r := by
  -- On the level. Two functions hand their results one level down.
  induction n generalizing a b r with
  | zero =>
    rcases flat_or_functions a b with hflat | ⟨f, g, rfl, rfl⟩
    · rwa [sameUpTo_flat hflat 1 0]
    · rw [sameUpTo] at h
      rw [sameUpTo_function_succ]
      split at h
      · rwa [if_pos ‹f = g›]
      · cases h
  | succ n ih =>
    rcases flat_or_functions a b with hflat | ⟨f, g, rfl, rfl⟩
    · rwa [sameUpTo_flat hflat (n + 2) (n + 1)]
    · rw [sameUpTo_function_succ] at h ⊢
      split at h
      · rwa [if_pos ‹f = g›]
      · rw [if_neg ‹¬f = g›]
        exact sameSignaturesBy_mono (fun _ _ _ => ih) h

/-- A function that does not exist has no parts to be compared. -/
theorem signature_of_le {f : SignatureId} (hf : s.signatures.size ≤ f) : s.signature f = default := by
  unfold signature
  rw [Array.getElem?_eq_none hf]
  rfl

/-- The comparison with a function that does not exist has an answer at once. -/
theorem sameUpTo_one_ne_none {f g : SignatureId}
    (h : s.signatures.size ≤ f ∨ s.signatures.size ≤ g) :
    s.sameUpTo 1 (some (.function f)) (some (.function g)) ≠ none := by
  rw [sameUpTo_function_succ]
  split
  · exact Option.some_ne_none _
  · unfold sameSignaturesBy paramPairs?
    -- What is behind the last function has no parameters and no result.
    rcases h with h | h
    · rw [signature_of_le h]
      by_cases hlen : (default : Signature).paramTypes.length = (s.signature g).paramTypes.length
      · rw [if_pos hlen]
        exact Option.some_ne_none _
      · rw [if_neg hlen]
        exact Option.some_ne_none _
    · rw [signature_of_le h]
      by_cases hlen : (s.signature f).paramTypes.length = (default : Signature).paramTypes.length
      · rw [if_pos hlen]
        have hpairs : ((s.signature f).params.zip (s.signature f).paramTypes).zip
            ((default : Signature).params.zip (default : Signature).paramTypes) = [] :=
          List.zip_nil_right
        rw [hpairs]
        cases (s.signature f).returns with
        | none => exact Option.some_ne_none _
        | some t => cases t <;> exact Option.some_ne_none _
      · rw [if_neg hlen]
        exact Option.some_ne_none _

/-- A comparison with enough levels answers what `same?` answers. -/
theorem sameUpTo_eq_same? {n : Nat} (hn : s.signatures.size * s.signatures.size < n)
    (a b : Option Ty) : s.sameUpTo n a b = s.same? a b := by
  rcases flat_or_functions a b with hflat | ⟨f, g, rfl, rfl⟩
  · exact sameUpTo_flat hflat ..
  · -- The answers for all pairs of functions, level by level. Only finitely many pairs can still be
    -- open, and a level that answers none of them is the last one to change.
    let V : Nat → SignatureId × SignatureId → Option Bool := fun n p =>
      s.sameUpTo n (some (.function p.1)) (some (.function p.2))
    let U := Finset.range s.signatures.size ×ˢ Finset.range s.signatures.size
    have hcard : U.card = s.signatures.size * s.signatures.size := by
      rw [Finset.card_product, Finset.card_range]
    have hkeep : Keeping V := fun n p r h => sameUpTo_succ h
    have hstep : ∀ n, V n = V (n + 1) → V (n + 1) = V (n + 2) := by
      intro n hV
      have hall : s.sameUpTo n = s.sameUpTo (n + 1) := by
        funext a b
        rcases flat_or_functions a b with hflat | ⟨f, g, rfl, rfl⟩
        · exact sameUpTo_flat hflat ..
        · exact congrFun hV (f, g)
      funext p
      change s.sameUpTo (n + 1) _ _ = s.sameUpTo (n + 2) _ _
      rw [sameUpTo_function_succ, sameUpTo_function_succ, hall]
    have hknown : ∀ p ∉ U, V 1 p ≠ none := by
      intro p hp
      refine sameUpTo_one_ne_none ?_
      by_contra hout
      rw [not_or, Nat.not_le, Nat.not_le] at hout
      exact hp (Finset.mem_product.2 ⟨Finset.mem_range.2 hout.1, Finset.mem_range.2 hout.2⟩)
    obtain ⟨k, rfl⟩ := Nat.exists_eq_add_of_lt hn
    have hsettled := hkeep.settled hstep U hknown
      (hcard.le.trans (Nat.le_add_right (s.signatures.size * s.signatures.size) k))
    rw [hcard] at hsettled
    exact congrFun hsettled (f, g)

/-! ### Texts -/

section Text

variable {text text' : Ty → Option String}

/-- Parameters keep their texts with more texts to build on. -/
theorem paramTextsBy_mono (h : ∀ t r, text t = some r → text' t = some r)
    {params : List (Param × Ty)} {r : List String} (hr : paramTextsBy text params = some r) :
    paramTextsBy text' params = some r := by
  induction params generalizing r with
  | nil => exact hr
  | cons param rest ih =>
    obtain ⟨p, t⟩ := param
    unfold paramTextsBy at hr ⊢
    obtain ⟨type, htype, hothers⟩ := Option.bind_eq_some_iff.1 hr
    obtain ⟨others, hrest, hr⟩ := Option.bind_eq_some_iff.1 hothers
    refine Option.bind_eq_some_iff.2 ⟨type, h _ _ htype, ?_⟩
    exact Option.bind_eq_some_iff.2 ⟨others, ih hrest, hr⟩

/-- So does a result. -/
theorem resultTextBy_mono (h : ∀ t r, text t = some r → text' t = some r) {t : Option Ty}
    {r : String} (hr : resultTextBy text t = some r) : resultTextBy text' t = some r := by
  cases t with
  | none => exact hr
  | some t => exact h _ _ hr

/-- So does a signature. -/
theorem signatureTextBy_mono (h : ∀ t r, text t = some r → text' t = some r) {sig : Signature}
    {r : String} (hr : signatureTextBy text sig = some r) : signatureTextBy text' sig = some r := by
  unfold signatureTextBy at hr ⊢
  obtain ⟨params, hparams, hresult⟩ := Option.bind_eq_some_iff.1 hr
  obtain ⟨result, hreturns, hr⟩ := Option.bind_eq_some_iff.1 hresult
  refine Option.bind_eq_some_iff.2 ⟨params, paramTextsBy_mono h hparams, ?_⟩
  exact Option.bind_eq_some_iff.2 ⟨result, resultTextBy_mono h hreturns, hr⟩

end Text

/-- The text of a function is that of its signature, one level less deep. -/
theorem typeTextUpTo_function_succ (s : Checker) (n : Nat) (f : SignatureId) :
    s.typeTextUpTo (n + 1) (.function f) = signatureTextBy (s.typeTextUpTo n) (s.signature f) := by
  rw [typeTextUpTo]

/-- With more levels no text changes. -/
theorem typeTextUpTo_succ {n : Nat} {t : Ty} {r : String} (h : s.typeTextUpTo n t = some r) :
    s.typeTextUpTo (n + 1) t = some r := by
  -- On the levels; only functions need one.
  induction n generalizing t r with
  | zero =>
    cases t with
    | «instance» c => exact h
    | «class» c => exact h
    | function f => cases h
  | succ n ih =>
    cases t with
    | «instance» c => exact h
    | «class» c => exact h
    | function f =>
      rw [typeTextUpTo_function_succ] at h ⊢
      exact signatureTextBy_mono (fun _ _ => ih) h

/-- The text with enough levels is what `typeText?` answers. -/
theorem typeTextUpTo_eq_typeText? {n : Nat} (hn : s.signatures.size < n) (t : Ty) :
    s.typeTextUpTo n t = s.typeText? (some t) := by
  obtain ⟨k, rfl⟩ := Nat.exists_eq_add_of_lt hn
  cases t with
  | «instance» c => rfl
  | «class» c => rfl
  | function f =>
    -- The texts of all functions, level by level, of which only finitely many can be missing.
    let V : Nat → SignatureId → Option String := fun n f => s.typeTextUpTo n (.function f)
    have hkeep : Keeping V := fun n f r h => typeTextUpTo_succ h
    have hstep : ∀ n, V n = V (n + 1) → V (n + 1) = V (n + 2) := by
      intro n hV
      have hall : s.typeTextUpTo n = s.typeTextUpTo (n + 1) := by
        funext t
        cases t with
        | «instance» c => cases n <;> rfl
        | «class» c => cases n <;> rfl
        | function f => exact congrFun hV f
      funext f
      change s.typeTextUpTo (n + 1) _ = s.typeTextUpTo (n + 2) _
      rw [typeTextUpTo_function_succ, typeTextUpTo_function_succ, hall]
    have hknown : ∀ f ∉ Finset.range s.signatures.size, V 1 f ≠ none := by
      intro f hf
      change s.typeTextUpTo 1 _ ≠ none
      rw [Finset.mem_range, Nat.not_lt] at hf
      rw [typeTextUpTo_function_succ, signature_of_le hf]
      exact Option.some_ne_none _
    have hsettled := hkeep.settled hstep (Finset.range s.signatures.size) hknown
      ((Finset.card_range _).le.trans (Nat.le_add_right s.signatures.size k))
    rw [Finset.card_range] at hsettled
    exact congrFun hsettled f

end Checker

end ClassScript.Typing
