import ClassScript.Machine.Environment
import ClassScript.Proofs.Hierarchy

/-!
# Searches that come to an end

A search through superclasses, or outward through scopes, is written here with a bound on the
generations that it goes through: beyond the bound it has no answer. `Height` says of a class that
no chain of superclasses above it is longer than a number. Then a search that is allowed that many
generations answers, and its answer is that of the search without a bound.
-/

namespace ClassScript

variable {C M : Type}

/-! ### Heights -/

/-- The chains of superclasses from a class on, the class included, have at most a number of
classes. -/
inductive Height (supers : C → List C) : Nat → C → Prop where
  /-- One generation more than every superclass. -/
  | mk {n : Nat} {c : C} (h : ∀ s ∈ supers c, Height supers n s) : Height supers (n + 1) c

namespace Height

variable {supers supers' : C → List C}

/-- Where superclasses have smaller numbers, a class is no higher than its number says. -/
theorem of_descends (number : C → Nat) {P : C → Prop}
    (hP : ∀ c, P c → ∀ s ∈ supers c, P s ∧ number s < number c) {n : Nat} {c : C} (hc : P c)
    (hn : number c < n) : Height supers n c := by
  induction n generalizing c with
  | zero => exact absurd hn (Nat.not_lt_zero _)
  | succ n ih =>
    refine .mk fun s hs => ?_
    obtain ⟨hs', hlt⟩ := hP c hc s hs
    exact ih hs' (Nat.lt_of_lt_of_le hlt (Nat.le_of_lt_succ hn))

/-- With fewer superclasses nothing is higher. -/
theorem subset (h : ∀ c, supers' c ⊆ supers c) {n : Nat} {c : C} (hc : Height supers n c) :
    Height supers' n c := by
  induction hc with
  | mk _ ih => exact .mk fun s hs => ih s (h _ hs)

end Height

/-! ### Answers of several searches -/

/-- Searches that all have an answer. -/
theorem mapM_eq_some {α β : Type} {f : α → Option β} {g : α → β} {l : List α}
    (h : ∀ a ∈ l, f a = some (g a)) : l.mapM f = some (l.map g) := by
  induction l with
  | nil => rfl
  | cons a rest ih =>
    obtain ⟨hfirst, hrest⟩ := List.forall_mem_cons.1 h
    rw [List.mapM_cons, hfirst, ih hrest]
    rfl

/-- Tests that all have an answer. -/
theorem anyM_eq_some {α : Type} {f : α → Option Bool} {g : α → Bool} {l : List α}
    (h : ∀ a ∈ l, f a = some (g a)) : l.anyM f = some (l.any g) := by
  induction l with
  | nil => rfl
  | cons a rest ih =>
    obtain ⟨hfirst, hrest⟩ := List.forall_mem_cons.1 h
    rw [List.anyM, hfirst, List.any_cons]
    cases hg : g a with
    | true => rfl
    | false => exact ih hrest

/-! ### Members -/

namespace Hierarchy

variable (h : Hierarchy C M)

/-- A lookup that goes through at most a number of generations. -/
def lookupUpTo (member : String) : Nat → C → Option (Lookup M)
  | 0, _ => none
  | n + 1, c =>
    match h.own c member with
    | some m => some (.found m 0)
    | none => ((h.supers c).mapM fun s => (lookupUpTo member n s).map (h.name s, ·)).map .merge

/-- A lookup on superclasses alone that goes through at most a number of generations. -/
def lookupSupersUpTo (member : String) (n : Nat) (supers : List C) : Option (Lookup M) :=
  (supers.mapM fun s => (h.lookupUpTo member n s).map (h.name s, ·)).map .merge

variable {h} {member : String}

/-- Bounded lookups that all have their answers. -/
theorem lookupSupersUpTo_of {n : Nat} {supers : List C}
    (hs : ∀ s ∈ supers, h.lookupUpTo member n s = some (h.lookup member s)) :
    h.lookupSupersUpTo member n supers = some (h.lookupSupers member supers) := by
  unfold lookupSupersUpTo lookupSupers
  have hmap := mapM_eq_some (f := fun s => (h.lookupUpTo member n s).map (h.name s, ·))
    (g := fun s => (h.name s, h.lookup member s)) fun s hmem => by rw [hs s hmem]; rfl
  rw [hmap]
  rfl

/-- A lookup through as many generations as a class is high is the whole lookup. -/
theorem lookupUpTo_eq {n : Nat} {c : C} (hc : Height h.supers n c) :
    h.lookupUpTo member n c = some (h.lookup member c) := by
  induction hc with
  | @mk n c _ ih =>
    rw [lookup_eq, lookupUpTo]
    cases h.own c member with
    | some m => rfl
    | none => exact lookupSupersUpTo_of ih

/-- So is one on superclasses that are no higher than that. -/
theorem lookupSupersUpTo_eq {n : Nat} {supers : List C}
    (hs : ∀ s ∈ supers, Height h.supers n s) :
    h.lookupSupersUpTo member n supers = some (h.lookupSupers member supers) :=
  lookupSupersUpTo_of fun s hmem => lookupUpTo_eq (hs s hmem)

end Hierarchy

/-! ### Descent -/

/-- Whether a class or one of its ancestors passes a test, searched through at most a number of
generations. -/
def inheritsUpTo (supers : C → List C) (test : C → Bool) : Nat → C → Option Bool
  | 0, _ => none
  | n + 1, c => if test c then some true else (supers c).anyM (inheritsUpTo supers test n)

/-- A search that follows the rule for ancestors is the bounded one. -/
theorem inheritsUpTo_eq {supers : C → List C} {test search : C → Bool}
    (hrule : ∀ c, search c = (test c || (supers c).any search)) {n : Nat} {c : C}
    (hc : Height supers n c) : inheritsUpTo supers test n c = some (search c) := by
  induction hc with
  | @mk n c _ ih =>
    rw [inheritsUpTo, hrule, anyM_eq_some ih]
    cases test c <;> rfl

/-! ### Scopes -/

namespace Environments

variable (es : Environments) (name : String)

/-- The value of a name in the nearest scope that binds it, searched through at most a number of
scopes. -/
def getUpTo : Nat → ScopeId → Option (Option Value)
  | 0, _ => none
  | n + 1, i =>
    match (es.bindings i)[name]? with
    | some v => some (some v)
    | none =>
      match es.parent? i with
      | some p => getUpTo n p
      | none => some none

/-- The scopes after a name got a value in the nearest scope that binds it, or else in the outermost
one, searched through at most a number of scopes. -/
def assignUpTo (v : Value) : Nat → ScopeId → Option Environments
  | 0, _ => none
  | n + 1, i =>
    if (es.bindings i).contains name then some (es.define i name v)
    else
      match es.parent? i with
      | some p => assignUpTo v n p
      | none => some (es.define i name v)

variable {es name}

/-- The value of a name, from that in the enclosing scope. -/
theorem get?_eq (i : ScopeId) :
    es.get? i name =
      ((es.bindings i)[name]?).or ((es.parent? i).bind fun p => es.get? p name) := by
  rw [get?]
  cases (es.bindings i)[name]? with
  | some v => rfl
  | none =>
    dsimp only
    split
    · next p hp =>
      rw [hp]
      rfl
    · next hp =>
      rw [hp]
      rfl

/-- The scope to assign in, from that for the enclosing scope. -/
theorem binder_eq (i : ScopeId) :
    es.binder i name =
      if (es.bindings i).contains name then i
      else (es.parent? i).elim i fun p => es.binder p name := by
  rw [binder]
  split
  · rfl
  · split
    · next p hp =>
      rw [hp]
      rfl
    · next hp =>
      rw [hp]
      rfl

/-- The search goes no further than to a scope that lies in no other one. -/
theorem getUpTo_eq {d : Nat} {i j : ScopeId} (hj : es.parent? j = none)
    (h : es.ancestor? i d = some j) : es.getUpTo name (d + 1) i = some (es.get? i name) := by
  -- On the number of steps to the outermost scope.
  induction d generalizing i with
  | zero =>
    cases (Option.ite_none_right_eq_some.1 h).2
    rw [getUpTo, get?_eq, hj]
    cases (es.bindings j)[name]? <;> rfl
  | succ d ih =>
    obtain ⟨p, hp, hd⟩ := Option.bind_eq_some_iff.1 h
    rw [getUpTo, get?_eq, hp]
    cases (es.bindings i)[name]? with
    | some v => rfl
    | none => exact ih hd

/-- An assignment through as many scopes as there are to the outermost one is the whole assignment.
-/
theorem assignUpTo_eq {v : Value} {d : Nat} {i j : ScopeId} (hj : es.parent? j = none)
    (h : es.ancestor? i d = some j) :
    es.assignUpTo name v (d + 1) i = some (es.assign i name v) := by
  induction d generalizing i with
  | zero =>
    cases (Option.ite_none_right_eq_some.1 h).2
    rw [assignUpTo, assign, binder_eq, hj]
    split <;> rfl
  | succ d ih =>
    obtain ⟨p, hp, hd⟩ := Option.bind_eq_some_iff.1 h
    rw [assignUpTo, assign, binder_eq, hp]
    split
    · rfl
    · exact ih hd

end Environments

end ClassScript
