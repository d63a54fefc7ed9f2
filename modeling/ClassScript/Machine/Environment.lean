import Std.Data.TreeMap
import ClassScript.Machine.Value
import ClassScript.Scope.Origin

/-!
# Scopes at run time

Scopes live in a table and point outward to the scope that encloses them. A scope is made after
the scope around it, so that every chain of scopes comes to an end.
-/

namespace ClassScript

/-- Names with their values. -/
abbrev Bindings := Std.TreeMap String Value

/-- One scope. -/
structure Environment where
  /-- The syntax the scope was made for. -/
  origin : Scope.Origin
  /-- The enclosing scope. -/
  parent : Option ScopeId
  /-- The names bound in the scope. -/
  bindings : Bindings := ∅

/-- All scopes of a run. -/
structure Environments where
  /-- The scopes, in the order they were made. -/
  table : Array Environment := #[]
  /-- A scope is made after the scope around it. -/
  parent_lt : ∀ i (h : i < table.size) p, table[i].parent = some p → p < i := by
    intro i h; simp at h

namespace Environments

/-- The enclosing scope of a scope. -/
def parent? (es : Environments) (i : ScopeId) : Option ScopeId := es.table[i]?.bind (·.parent)

/-- A scope lies in one that was made before it. -/
theorem lt_of_parent? {es : Environments} {i p : ScopeId} (h : es.parent? i = some p) : p < i := by
  simp only [parent?, Option.bind_eq_some_iff, Array.getElem?_eq_some_iff] at h
  obtain ⟨_, ⟨hi, rfl⟩, hp⟩ := h
  exact es.parent_lt i hi p hp

/-- The names bound in a scope. -/
def bindings (es : Environments) (i : ScopeId) : Bindings :=
  (es.table[i]?.map (·.bindings)).getD ∅

/-- A further scope; its place is the number of scopes before. -/
def push (es : Environments) (origin : Scope.Origin) (parent : Option ScopeId) : Environments where
  table := es.table.push { origin, parent := parent.filter (· < es.table.size) }
  parent_lt := by
    intro i h p hp
    rw [Array.getElem_push] at hp
    split at hp
    · next hi => exact es.parent_lt i hi p hp
    · next hi =>
      exact Nat.lt_of_lt_of_le (of_decide_eq_true (Option.filter_eq_some_iff.1 hp).2)
        (Nat.le_of_not_lt hi)

/-- Changes the bindings of a scope. -/
def modify (es : Environments) (i : ScopeId) (f : Bindings → Bindings) : Environments where
  table := es.table.modify i fun e => { e with bindings := f e.bindings }
  parent_lt := by
    intro j h p hp
    rw [Array.getElem_modify] at hp
    simp only [Array.size_modify] at h
    split at hp <;> exact es.parent_lt j h p hp

/-- Binds a name in a scope, in place of an earlier binding. -/
def define (es : Environments) (i : ScopeId) (name : String) (v : Value) : Environments :=
  es.modify i (·.insert name v)

/-- The scope a number of steps outward. -/
def ancestor? (es : Environments) (i : ScopeId) : Nat → Option ScopeId
  | 0 => if i < es.table.size then some i else none
  | distance + 1 => (es.parent? i).bind fun p => es.ancestor? p distance

/-- The value of a name in the scope a number of steps outward. -/
def getAt? (es : Environments) (i : ScopeId) (distance : Nat) (name : String) : Option Value :=
  (es.ancestor? i distance).bind fun j => (es.bindings j)[name]?

/-- Gives a name a value in the scope a number of steps outward, if there is such a scope. -/
def assignAt (es : Environments) (i : ScopeId) (distance : Nat) (name : String) (v : Value) :
    Environments :=
  match es.ancestor? i distance with
  | some j => es.define j name v
  | none => es

/-- The value of a name in the nearest scope that binds it. -/
def get? (es : Environments) (i : ScopeId) (name : String) : Option Value :=
  match (es.bindings i)[name]? with
  | some v => some v
  | none =>
    match _h : es.parent? i with
    | some p => es.get? p name
    | none => none
termination_by i
decreasing_by exact lt_of_parent? _h

/-- The nearest scope that binds a name, or the outermost one. -/
def binder (es : Environments) (i : ScopeId) (name : String) : ScopeId :=
  if (es.bindings i).contains name then i
  else match _h : es.parent? i with
    | some p => es.binder p name
    | none => i
termination_by i
decreasing_by exact lt_of_parent? _h

/-- Gives a name a value in the nearest scope that binds it, or else in the outermost one. -/
def assign (es : Environments) (i : ScopeId) (name : String) (v : Value) : Environments :=
  es.define (es.binder i name) name v

/-- Whether a scope itself binds a name. -/
def binds (es : Environments) (i : ScopeId) (name : String) : Bool :=
  (es.bindings i).contains name

/-- The names bound in a scope, in order. -/
def names (es : Environments) (i : ScopeId) : List String := (es.bindings i).keys

end Environments

end ClassScript
