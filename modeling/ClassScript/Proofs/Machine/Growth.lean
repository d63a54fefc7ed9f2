import Mathlib.Tactic.Common
import ClassScript.Machine.Environment

/-!
# Growing tables of scopes

While a program runs, scopes are made and names are bound, and neither is ever taken back: a scope
keeps its origin, the scope around it and the names that it binds. `Environments.Grows` says so of
two tables, and every operation on tables is an instance of it.
-/

namespace ClassScript.Environments

/-- The syntax a scope was made for. -/
def origin? (es : Environments) (i : ScopeId) : Option Scope.Origin :=
  es.table[i]?.map (·.origin)

/-- A later table: every scope is still there, with its origin, the scope around it and at least
the names that it bound. -/
structure Grows (es es' : Environments) : Prop where
  /-- No scope goes away. -/
  size_le : es.table.size ≤ es'.table.size
  /-- A scope keeps its origin. -/
  origin? : ∀ i < es.table.size, es'.origin? i = es.origin? i
  /-- A scope keeps the scope around it. -/
  parent? : ∀ i < es.table.size, es'.parent? i = es.parent? i
  /-- A scope keeps the names that it binds. -/
  binds : ∀ i name, es.binds i name = true → es'.binds i name = true

namespace Grows

/-- A table is a later one of itself. -/
@[refl]
theorem refl (es : Environments) : es.Grows es :=
  ⟨Nat.le_refl _, fun _ _ => rfl, fun _ _ => rfl, fun _ _ h => h⟩

/-- A later table of a later one is a later table. -/
theorem trans {es₁ es₂ es₃ : Environments} (h₁ : es₁.Grows es₂) (h₂ : es₂.Grows es₃) :
    es₁.Grows es₃ where
  size_le := Nat.le_trans h₁.size_le h₂.size_le
  origin? i hi := (h₂.origin? i (Nat.lt_of_lt_of_le hi h₁.size_le)).trans (h₁.origin? i hi)
  parent? i hi := (h₂.parent? i (Nat.lt_of_lt_of_le hi h₁.size_le)).trans (h₁.parent? i hi)
  binds i name h := h₂.binds i name (h₁.binds i name h)

end Grows

/-! ### Changed bindings -/

/-- Bindings make no scope. -/
theorem size_modify (es : Environments) (i : ScopeId) (f : Bindings → Bindings) :
    (es.modify i f).table.size = es.table.size := by
  simp [modify]

/-- They leave what a scope was made for. -/
@[simp]
theorem origin?_modify (es : Environments) (i j : ScopeId) (f : Bindings → Bindings) :
    (es.modify i f).origin? j = es.origin? j := by
  simp only [origin?, modify, Array.getElem?_modify]
  split
  · cases es.table[j]? <;> rfl
  · rfl

/-- They leave the scope around it. -/
@[simp]
theorem parent?_modify (es : Environments) (i j : ScopeId) (f : Bindings → Bindings) :
    (es.modify i f).parent? j = es.parent? j := by
  simp only [parent?, modify, Array.getElem?_modify]
  split
  · cases es.table[j]? <;> rfl
  · rfl

/-- The bindings of a scope after a change in a scope. -/
theorem bindings_modify (es : Environments) (i j : ScopeId) (f : Bindings → Bindings) :
    (es.modify i f).bindings j =
      if i = j ∧ i < es.table.size then f (es.bindings j) else es.bindings j := by
  simp only [bindings, modify, Array.getElem?_modify]
  by_cases hij : i = j
  · subst hij
    by_cases hi : i < es.table.size
    · simp [hi]
    · simp [hi]
  · simp [hij]

/-- The bindings of a scope after a name was bound in a scope. -/
theorem getElem?_bindings_define (es : Environments) (i j : ScopeId) (name x : String) (v : Value) :
    ((es.define i name v).bindings j)[x]? =
      if i = j ∧ i < es.table.size ∧ name = x then some v else (es.bindings j)[x]? := by
  rw [define, bindings_modify]
  by_cases h : i = j ∧ i < es.table.size
  · rw [if_pos h, Std.TreeMap.getElem?_insert]
    obtain ⟨rfl, hi⟩ := h
    simp only [hi, true_and, Std.LawfulEqCmp.compare_eq_iff_eq]
  · rw [if_neg h, if_neg fun h' => h ⟨h'.1, h'.2.1⟩]

/-- A scope binds a name if it has a value for it. -/
theorem binds_iff (es : Environments) (i : ScopeId) (name : String) :
    es.binds i name = true ↔ ∃ v, (es.bindings i)[name]? = some v := by
  rw [binds, Std.TreeMap.contains_eq_isSome_getElem?, Option.isSome_iff_exists]

/-- A name that is bound in a scope that exists is bound there. -/
theorem binds_define_self (es : Environments) {i : ScopeId} (hi : i < es.table.size) (name : String)
    (v : Value) : (es.define i name v).binds i name = true := by
  rw [binds_iff]
  exact ⟨v, by rw [getElem?_bindings_define, if_pos ⟨rfl, hi, rfl⟩]⟩

/-- Binding a name takes no binding away. -/
theorem grows_define (es : Environments) (i : ScopeId) (name : String) (v : Value) :
    es.Grows (es.define i name v) where
  size_le := Nat.le_of_eq (size_modify es i _).symm
  origin? j _ := origin?_modify es i j _
  parent? j _ := parent?_modify es i j _
  binds j x h := by
    rw [binds_iff] at h ⊢
    obtain ⟨w, hw⟩ := h
    rw [getElem?_bindings_define]
    split
    · exact ⟨v, rfl⟩
    · exact ⟨w, hw⟩

/-- An assignment in a scope further out takes nothing back. -/
theorem grows_assignAt (es : Environments) (i : ScopeId) (distance : Nat) (name : String)
    (v : Value) : es.Grows (es.assignAt i distance name v) := by
  unfold assignAt
  split
  · exact grows_define ..
  · exact .refl es

/-- Neither does one in the nearest scope that binds the name. -/
theorem grows_assign (es : Environments) (i : ScopeId) (name : String) (v : Value) :
    es.Grows (es.assign i name v) :=
  grows_define ..

/-! ### A further scope -/

/-- A further scope goes behind the others. -/
theorem table_push (es : Environments) (origin : Scope.Origin) (parent : Option ScopeId) :
    (es.push origin parent).table =
      es.table.push { origin, parent := parent.filter (· < es.table.size) } :=
  rfl

/-- There is one more scope then. -/
@[simp]
theorem size_push (es : Environments) (origin : Scope.Origin) (parent : Option ScopeId) :
    (es.push origin parent).table.size = es.table.size + 1 := by
  simp [table_push]

/-- The new scope has the origin that it was made for. -/
theorem origin?_push_self (es : Environments) (origin : Scope.Origin) (parent : Option ScopeId) :
    (es.push origin parent).origin? es.table.size = some origin := by
  simp [origin?, table_push]

/-- The new scope lies in the scope that it was made in, if there is such a scope. -/
theorem parent?_push_self (es : Environments) (origin : Scope.Origin) {p : ScopeId}
    (hp : p < es.table.size) : (es.push origin (some p)).parent? es.table.size = some p := by
  simp [parent?, table_push, hp]

/-- The new scope is empty and the others bind what they did. -/
@[simp]
theorem bindings_push (es : Environments) (origin : Scope.Origin) (parent : Option ScopeId)
    (i : ScopeId) : (es.push origin parent).bindings i = es.bindings i := by
  simp only [bindings, table_push, Array.getElem?_push]
  split
  · next h => simp [h]
  · rfl

/-- A further scope takes nothing back. -/
theorem grows_push (es : Environments) (origin : Scope.Origin) (parent : Option ScopeId) :
    es.Grows (es.push origin parent) where
  size_le := by simp
  origin? i hi := by
    simp only [Environments.origin?, table_push]
    rw [Array.getElem?_push_lt hi, Array.getElem?_eq_getElem hi]
  parent? i hi := by
    simp only [Environments.parent?, table_push]
    rw [Array.getElem?_push_lt hi, Array.getElem?_eq_getElem hi]
  binds i name h := by simpa [binds] using h

/-! ### Scopes further out -/

/-- No steps outward lead to the scope itself. -/
theorem ancestor?_zero (es : Environments) {i : ScopeId} (hi : i < es.table.size) :
    es.ancestor? i 0 = some i := by
  simp [ancestor?, hi]

/-- The first step outward leads to the scope around it. -/
theorem ancestor?_succ (es : Environments) (i : ScopeId) (d : Nat) :
    es.ancestor? i (d + 1) = (es.parent? i).bind fun p => es.ancestor? p d :=
  rfl

/-- A scope that lies in another one was made. -/
theorem lt_size_of_parent? {es : Environments} {i p : ScopeId} (h : es.parent? i = some p) :
    i < es.table.size := by
  simp only [parent?, Option.bind_eq_some_iff, Array.getElem?_eq_some_iff] at h
  obtain ⟨_, ⟨hi, -⟩, -⟩ := h
  exact hi

/-- A scope further out exists. -/
theorem lt_of_ancestor? {es : Environments} {i j : ScopeId} {d : Nat}
    (h : es.ancestor? i d = some j) : j < es.table.size := by
  induction d generalizing i with
  | zero =>
    rw [Environments.ancestor?, Option.ite_none_right_eq_some] at h
    obtain ⟨hi, e⟩ := h
    cases e
    exact hi
  | succ d ih =>
    rw [ancestor?_succ, Option.bind_eq_some_iff] at h
    obtain ⟨p, -, hj⟩ := h
    exact ih hj

/-- The scope a number of steps outward stays where it is. -/
theorem Grows.ancestor? {es es' : Environments} (h : es.Grows es') {i j : ScopeId} {d : Nat}
    (hj : es.ancestor? i d = some j) : es'.ancestor? i d = some j := by
  induction d generalizing i with
  | zero =>
    rw [Environments.ancestor?, Option.ite_none_right_eq_some] at hj
    obtain ⟨hi, hj⟩ := hj
    rw [ancestor?_zero es' (Nat.lt_of_lt_of_le hi h.size_le), hj]
  | succ d ih =>
    rw [ancestor?_succ, Option.bind_eq_some_iff] at hj
    obtain ⟨p, hp, hj⟩ := hj
    rw [ancestor?_succ, h.parent? i (lt_size_of_parent? hp), hp]
    exact ih hj

/-- A name that is found a number of steps outward is bound by some scope. -/
theorem bindings_of_getAt? {es : Environments} {i : ScopeId} {d : Nat} {name : String} {v : Value}
    (h : es.getAt? i d name = some v) : ∃ j, (es.bindings j)[name]? = some v :=
  have ⟨j, _, hj⟩ := Option.bind_eq_some_iff.1 h
  ⟨j, hj⟩

/-- A name that is found is bound by some scope. -/
theorem bindings_of_get? {es : Environments} {i : ScopeId} {name : String} {v : Value}
    (h : es.get? i name = some v) : ∃ j, (es.bindings j)[name]? = some v := by
  fun_induction es.get? i name with
  | case1 i w hw =>
    cases h
    exact ⟨i, hw⟩
  | case2 i hw p hp ih => exact ih h
  | case3 i hw hp => cases h

end ClassScript.Environments
