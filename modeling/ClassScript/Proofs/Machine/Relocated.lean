import ClassScript.Proofs.Hierarchy.Height
import ClassScript.Proofs.Machine.Founded

/-!
# A scope that lies elsewhere

Two tables of scopes may be alike but for one scope, which was made for other syntax and lies inside
another scope: `Environments.relocate` makes one of them from the other. Making scopes and binding
names does the same to both of them, and so does reading what the relocated scope and the scopes
inside it bind. Only what lies outside of the relocated scope is seen from other places.
-/

namespace ClassScript

/-- A scope, with other syntax that it is made for and another scope that it lies in. -/
structure Relocation where
  /-- The scope. -/
  scope : ScopeId
  /-- The syntax. -/
  origin : Scope.Origin
  /-- The scope around it. -/
  parent : ScopeId

namespace Environments

variable (es : Environments) (move : Relocation)

/-- The same scopes, but for one that lies elsewhere. -/
def relocate : Environments where
  table := es.table.modify move.scope fun e =>
    { e with origin := move.origin, parent := (some move.parent).filter (· < move.scope) }
  parent_lt := by
    intro i h p hp
    rw [Array.getElem_modify] at hp
    simp only [Array.size_modify] at h
    split at hp
    · next hi =>
      dsimp only at hp
      exact hi ▸ of_decide_eq_true (Option.filter_eq_some_iff.1 hp).2
    · exact es.parent_lt i h p hp

/-- No scope is made or lost. -/
@[simp]
theorem size_relocate : (es.relocate move).table.size = es.table.size := by
  simp [relocate]

/-- The scope binds what it did, and so do the others. -/
@[simp]
theorem bindings_relocate (i : ScopeId) : (es.relocate move).bindings i = es.bindings i := by
  simp only [bindings, relocate, Array.getElem?_modify]
  split
  · cases es.table[i]? <;> rfl
  · rfl

/-- All other scopes are as they were. -/
theorem getElem?_table_relocate {i : ScopeId} (hi : i ≠ move.scope) :
    (es.relocate move).table[i]? = es.table[i]? := by
  simp only [relocate, Array.getElem?_modify, if_neg hi.symm]

/-- They lie where they lay. -/
theorem parent?_relocate {i : ScopeId} (hi : i ≠ move.scope) :
    (es.relocate move).parent? i = es.parent? i := by
  rw [parent?, getElem?_table_relocate es move hi, parent?]

/-- The scopes outward are the same up to the one that lies elsewhere. -/
theorem ancestor?_relocate {i : ScopeId} {d : Nat}
    (h : ∀ k, es.ancestor? i k = some move.scope → d ≤ k) :
    (es.relocate move).ancestor? i d = es.ancestor? i d := by
  induction d generalizing i with
  | zero => simp only [ancestor?, size_relocate]
  | succ d ih =>
    -- The scope that lies elsewhere may only be the last one on the way.
    by_cases hi : i = move.scope ∧ i < es.table.size
    · have hself := ancestor?_zero es hi.2
      rw [hi.1] at hself
      exact absurd (h 0 (hi.1 ▸ hself)) (Nat.not_succ_le_zero d)
    · have hparent : (es.relocate move).parent? i = es.parent? i := by
        -- The scope is another one, or it was never made.
        by_cases hscope : i = move.scope
        · have hsize : es.table.size ≤ i := Nat.le_of_not_lt fun hlt => hi ⟨hscope, hlt⟩
          simp [parent?, hsize]
        · exact parent?_relocate es move hscope
      rw [ancestor?_succ, ancestor?_succ, hparent]
      cases hp : es.parent? i with
      | none => rfl
      | some p =>
        refine ih fun k hk => Nat.le_of_succ_le_succ (h (k + 1) ?_)
        rw [ancestor?_succ, hp]
        exact hk

/-- A name that is looked up no farther than in the scope is found as before. -/
theorem getAt?_relocate {i : ScopeId} {d : Nat} (name : String)
    (h : ∀ k, es.ancestor? i k = some move.scope → d ≤ k) :
    (es.relocate move).getAt? i d name = es.getAt? i d name := by
  simp only [getAt?, ancestor?_relocate es move h, bindings_relocate]

/-- What lies outward of a scope that was made lies there in every later table. -/
theorem Grows.ancestor?_eq {es es' : Environments} (h : es.Grows es') {i : ScopeId}
    (hi : i < es.table.size) (d : Nat) : es'.ancestor? i d = es.ancestor? i d := by
  induction d generalizing i with
  | zero => rw [ancestor?_zero es hi, ancestor?_zero es' (Nat.lt_of_lt_of_le hi h.size_le)]
  | succ d ih =>
    rw [ancestor?_succ, ancestor?_succ, h.parent? i hi]
    cases hp : es.parent? i with
    | none => rfl
    | some p => exact ih (Nat.lt_trans (lt_of_parent? hp) hi)

/-- Scopes outward were made before. -/
theorem le_of_ancestor? {es : Environments} {i j : ScopeId} {d : Nat}
    (h : es.ancestor? i d = some j) : j + d ≤ i := by
  induction d generalizing i with
  | zero =>
    rw [ancestor?, Option.ite_none_right_eq_some] at h
    exact Nat.le_of_eq (Option.some.inj h.2).symm
  | succ d ih =>
    rw [ancestor?_succ, Option.bind_eq_some_iff] at h
    obtain ⟨p, hp, hj⟩ := h
    exact Nat.lt_of_le_of_lt (ih hj) (lt_of_parent? hp)

/-! ### Globals -/

/-- A global name is looked up in the outermost scope only. -/
theorem get?_globalScope (name : String) :
    es.get? globalScope name = (es.bindings globalScope)[name]? := by
  rw [get?_eq, parent?_globalScope, Option.bind_none, Option.or_none]

/-- Names that are looked up in the outermost scope are its own. -/
theorem binder_globalScope (name : String) : es.binder globalScope name = globalScope := by
  rw [binder_eq, parent?_globalScope, Option.elim_none, ite_self]

/-! ### Changes -/

variable {es}

/-- Two tables with the same scopes are the same. -/
theorem eq_of_table {es' : Environments} (h : es.table = es'.table) : es = es' := by
  cases es
  cases es'
  cases h
  rfl

variable (es)

/-- A further scope is made alike on both. -/
theorem relocate_push (origin : Scope.Origin) (parent : Option ScopeId)
    (h : move.scope < es.table.size) :
    (es.push origin parent).relocate move = (es.relocate move).push origin parent := by
  apply eq_of_table
  apply Array.ext_getElem?
  intro i
  simp only [relocate, push, Array.getElem?_modify, Array.getElem?_push, Array.size_modify]
  by_cases hi : i = es.table.size
  · simp only [hi, if_true, if_neg (Nat.ne_of_lt h)]
  · simp only [if_neg hi]

/-- The newest scope could as well have been made elsewhere. -/
theorem relocate_push_self (origin origin' : Scope.Origin) (parent : Option ScopeId)
    (parent' : ScopeId) :
    (es.push origin parent).relocate ⟨es.table.size, origin', parent'⟩ =
      es.push origin' (some parent') := by
  apply eq_of_table
  apply Array.ext_getElem?
  intro i
  simp only [relocate, push, Array.getElem?_modify, Array.getElem?_push]
  by_cases hi : i = es.table.size
  · simp only [hi, if_true, Option.map_some]
  · simp only [if_neg hi, if_neg (Ne.symm hi)]

/-- A name is bound alike on both. -/
theorem relocate_define (i : ScopeId) (name : String) (v : Value) :
    (es.define i name v).relocate move = (es.relocate move).define i name v := by
  apply eq_of_table
  apply Array.ext_getElem?
  intro j
  simp only [relocate, define, modify, Array.getElem?_modify]
  cases es.table[j]? with
  | none => simp
  | some e => split <;> split <;> rfl

end Environments

end ClassScript
