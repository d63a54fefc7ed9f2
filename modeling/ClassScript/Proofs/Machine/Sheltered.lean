import ClassScript.Proofs.Machine.Relocated
import ClassScript.Proofs.Machine.Sound

/-!
# Code that looks no farther than a scope

Code inside a scope may use names of that scope and of the scopes on the way there, but none that
are farther outward. Whether it does follows from the distances of its uses alone: `Scope.Near` asks
for them along the walk that lists the uses with the scopes around them. A machine is sheltered if
all functions that are inside a scope are like that, and sheltered machines are a regime. It sees
the scope relocated, since nobody looks beyond it.
-/

namespace ClassScript

open Scope
open Exec (Obeys Yields Abides)

/-- The distances of uses lead at most to the scope around the listed ones. -/
def Scope.Near (distances : Distances) (us : List Use) : Prop :=
  ∀ u ∈ us, ∀ d, distances[u.id]? = some d → d ≤ u.scopes.length

instance (distances : Distances) (us : List Use) : Decidable (Near distances us) :=
  decidable_of_iff (∀ u ∈ us, distances[u.id]?.all (· ≤ u.scopes.length) = true) <| by
    simp only [Near, Option.all_eq_true, decide_eq_true_eq]

/-- The uses in two parts are near if those in each part are. -/
theorem Scope.Near.append {distances : Distances} {us us' : List Use} :
    Near distances (us ++ us') ↔ Near distances us ∧ Near distances us' := by
  simp only [Near, List.forall_mem_append]

/-! ### Places -/

/-- A scope that was made. If it lies inside another one, then the scopes on the way to that one can
be listed so that something holds of them. -/
structure Environments.Shelters (es : Environments) (r i : ScopeId) (P : List Region → Prop) :
    Prop where
  /-- The scope was made. -/
  lt : i < es.table.size
  /-- The scopes on the way. -/
  inside : ∀ k, es.ancestor? i k = some r → ∃ scopes : List Region, scopes.length = k ∧ P scopes

namespace Environments.Shelters

variable {es es' : Environments} {r i : ScopeId} {P P' : List Region → Prop}

/-- Something that holds of other lists of the same length may be asked for instead. -/
theorem mono (h : es.Shelters r i P)
    (hP : ∀ scopes, P scopes → ∃ scopes', scopes'.length = scopes.length ∧ P' scopes') :
    es.Shelters r i P' := by
  refine ⟨h.lt, fun k hk => ?_⟩
  obtain ⟨scopes, rfl, hscopes⟩ := h.inside k hk
  exact hP scopes hscopes

/-- The same scopes on the way. -/
theorem imp (h : es.Shelters r i P) (hP : ∀ scopes, P scopes → P' scopes) : es.Shelters r i P' :=
  h.mono fun scopes hscopes => ⟨scopes, rfl, hP scopes hscopes⟩

/-- A scope that was made stays where it lies. -/
theorem grows (hg : es.Grows es') (h : es.Shelters r i P) : es'.Shelters r i P :=
  ⟨Nat.lt_of_lt_of_le h.lt hg.size_le, fun k hk => h.inside k (hg.ancestor?_eq h.lt k ▸ hk)⟩

/-- A new scope has one more scope on the way. -/
theorem push (h : es.Shelters r i P) (hr : r < es.table.size) (origin : Origin)
    (hP : ∀ scopes, P scopes → ∃ region, P' (region :: scopes)) :
    (es.push origin (some i)).Shelters r es.table.size P' := by
  refine ⟨by simp, fun k hk => ?_⟩
  cases k with
  | zero =>
    have hle := le_of_ancestor? hk
    rw [ancestor?_zero _ (by simp)] at hk
    exact absurd (Option.some.inj hk).symm (Nat.ne_of_lt hr)
  | succ k =>
    rw [ancestor?_succ, parent?_push_self es origin h.lt, Option.bind_some,
      (es.grows_push origin (some i)).ancestor?_eq h.lt] at hk
    obtain ⟨scopes, rfl, hscopes⟩ := h.inside k hk
    obtain ⟨region, hregion⟩ := hP scopes hscopes
    exact ⟨region :: scopes, rfl, hregion⟩

end Environments.Shelters

/-! ### Values -/

section Values

variable (move : Relocation) (distances : Distances) (es : Environments)

/-- A function that looks no farther than a scope if it is inside. -/
def Closure.Sheltered (fn : Closure) : Prop :=
  es.Shelters move.scope fn.scope fun scopes => ∃ outer, outer.length = scopes.length ∧
    Near distances (fn.declaration.uses outer scopes)

/-- A method of a class that does so as soon as it has a receiver. -/
structure Closure.ShelteredMethod (fn : Closure) : Prop where
  /-- The method does not keep the scope itself. -/
  ne : fn.scope ≠ move.scope
  /-- There is one more scope on the way then. -/
  shelters : es.Shelters move.scope fn.scope fun scopes => ∃ region,
    Near distances (fn.declaration.uses (region :: scopes) (region :: scopes))

/-- A class whose own and inherited methods look no farther than a scope. -/
inductive Class.Sheltered : Class → Prop where
  /-- The superclasses and the methods are like that. -/
  | mk {c : Class} (supers : ∀ s ∈ c.supers, Class.Sheltered s)
    (methods : ∀ p ∈ c.methods, p.2.ShelteredMethod move distances es) : Class.Sheltered c

/-- A value from which only functions can be reached that look no farther than a scope. -/
abbrev Value.Sheltered (v : Value) : Prop :=
  v.All (Class.Sheltered move distances es) (Closure.Sheltered move distances es)

end Values

section Lasting

variable {move : Relocation} {distances : Distances} {es es' : Environments}

/-- The superclasses of a sheltered class are sheltered. -/
theorem Class.Sheltered.supers {c : Class} (h : c.Sheltered move distances es) :
    ∀ s ∈ c.supers, s.Sheltered move distances es := by
  cases h with
  | mk supers _ => exact supers

/-- So are its own methods. -/
theorem Class.Sheltered.methods {c : Class} (h : c.Sheltered move distances es) :
    ∀ p ∈ c.methods, p.2.ShelteredMethod move distances es := by
  cases h with
  | mk _ methods => exact methods

/-- A sheltered class stays so when scopes are made. -/
theorem Class.Sheltered.grows (hg : es.Grows es') {c : Class}
    (h : c.Sheltered move distances es) : c.Sheltered move distances es' := by
  induction h with
  | mk _ methods ih =>
    exact .mk ih fun p hp => ⟨(methods p hp).ne, (methods p hp).shelters.grows hg⟩

/-- So does a sheltered value. -/
theorem Value.Sheltered.grows (hg : es.Grows es') {v : Value}
    (h : v.Sheltered move distances es) : v.Sheltered move distances es' :=
  Value.All.mono (fun _ hc => hc.grows hg) (fun _ hfn => Environments.Shelters.grows hg hfn) h

end Lasting

/-! ### Machines -/

/-- A machine on which all functions inside a scope look no farther than that scope. -/
structure Machine.Sheltered (move : Relocation) (distances : Distances) (m : Machine) : Prop where
  /-- The distances are those that matter. -/
  fixed : m.distances = distances
  /-- The scope was made. -/
  made : move.scope < m.store.environments.table.size
  /-- The values that scopes bind are sheltered. -/
  bindings : ∀ (i : ScopeId) (name : String) (v : Value),
    (m.store.environments.bindings i)[name]? = some v →
    v.Sheltered move distances m.store.environments
  /-- So are all other values. -/
  contents : m.store.Contents (Value.Sheltered move distances m.store.environments)

namespace Machine.Sheltered

variable {move : Relocation} {distances : Distances} {m m' : Machine}

/-- A change outside of scopes and calls. -/
theorem quiet (h : m.Sheltered move distances) (hq : m.Quiet m')
    (hc : m'.store.Contents (Value.Sheltered move distances m.store.environments)) :
    m'.Sheltered move distances ∧ m.Later m' := by
  refine ⟨⟨hq.distances.trans h.fixed, ?_, ?_, ?_⟩,
    ⟨hq.scope, hq.distances, hq.environments ▸ .refl _⟩⟩
  · rw [hq.environments]
    exact h.made
  · rw [hq.environments]
    exact h.bindings
  · rw [hq.environments]
    exact hc

/-- What a scope some steps outward binds. -/
theorem getAt? (h : m.Sheltered move distances) {i : ScopeId} {d : Nat} {name : String} {v : Value}
    (hv : m.store.environments.getAt? i d name = some v) :
    v.Sheltered move distances m.store.environments := by
  obtain ⟨j, -, hj⟩ := Option.bind_eq_some_iff.1 hv
  exact h.bindings j name v hj

/-- A name gets a value. -/
theorem define (h : m.Sheltered move distances) (i : ScopeId) (name : String) {v : Value}
    (hv : v.Sheltered move distances m.store.environments) (declared : List (ScopeId × String)) :
    Machine.Sheltered move distances { m with
      store.environments := m.store.environments.define i name v
      store.declared := declared } := by
  have hg := m.store.environments.grows_define i name v
  refine ⟨h.fixed, Nat.lt_of_lt_of_le h.made hg.size_le, fun j x u hu => ?_,
    { h.contents.mono fun _ hu => hu.grows hg with }⟩
  rw [Environments.getElem?_bindings_define] at hu
  split at hu
  · cases hu
    exact hv.grows hg
  · exact (h.bindings j x u hu).grows hg

/-- A further scope. -/
theorem push (h : m.Sheltered move distances) (origin : Origin) (parent : Option ScopeId) :
    Machine.Sheltered move distances { m with
      store.environments := m.store.environments.push origin parent } := by
  have hg := m.store.environments.grows_push origin parent
  refine ⟨h.fixed, Nat.lt_of_lt_of_le h.made hg.size_le, fun i name v hv => ?_,
    { h.contents.mono fun _ hv => hv.grows hg with }⟩
  rw [Environments.bindings_push] at hv
  exact (h.bindings i name v hv).grows hg

end Machine.Sheltered

/-- Sheltered machines, seen with the scope elsewhere. -/
abbrev Regime.sheltered (move : Relocation) (distances : Distances) : Regime where
  Inv := Machine.Sheltered move distances
  Holds m v := v.Sheltered move distances m.store.environments
  Later := Machine.Later
  refl := .refl
  trans := .trans
  holds hl hv := hv.grows hl.environments
  contents hm := hm.contents
  quiet hm := hm.quiet
  enterSite hm := ⟨hm.fixed, hm.made, hm.bindings, hm.contents⟩
  leaveSite hm hl := ⟨⟨hm.fixed, hm.made, hm.bindings, hm.contents⟩,
    ⟨hl.scope, hl.distances, hl.environments⟩⟩
  holdsSite hv := hv
  flat := .flat
  pair := Value.All.pair_iff
  varargs := Value.All.varargs_iff
  iteratorResult := Value.All.iteratorResult_iff
  boundMethod := Value.All.boundMethod_iff
  view es := es.relocate move

end ClassScript
