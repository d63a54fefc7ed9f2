import ClassScript.Proofs.Machine.Growth
import ClassScript.Proofs.Parse.Formed
import ClassScript.Proofs.Scope.Resolves

/-!
# Scopes at run time and scopes in the syntax

`Environments.Chain` compares the scopes outward from a scope at run time with the scopes around a
place in the syntax: each was made for the syntax that it stands for, and binds the names that are
declared in front of the place. A use then finds the scope that the resolver counted to, and the
name in it unless its declaration is still pending.
-/

namespace ClassScript

open Scope

/-! ### The scopes of classes -/

namespace Scope

/-- Scopes in which receivers and superclasses lie as they do around the methods of a class, and
nothing else has their names. -/
inductive Orderly : List Region → Prop where
  /-- There is no scope. -/
  | nil : Orderly []
  /-- A scope without a receiver and superclasses. -/
  | plain {r : Region} {rest : List Region} (self : r.knows "self" = false)
    (super : r.knows "super" = false) (h : Orderly rest) : Orderly (r :: rest)
  /-- The two scopes of a class. -/
  | methods {r s : Region} {rest : List Region} (id : NodeId) (ro : r.origin = .receiver id)
    (so : s.origin = .supers id) (self : "self" ∈ r.declared) (super : "super" ∈ s.declared)
    (noSuper : r.knows "super" = false) (noSelf : s.knows "self" = false) (h : Orderly rest) :
    Orderly (r :: s :: rest)

namespace Orderly

variable {scopes : List Region}

/-- Scopes stay orderly inside of a class. -/
theorem methodScopes (h : Orderly scopes) (id : NodeId) : Orderly (methodScopes id scopes) :=
  .methods id rfl rfl (by simp [Region.receiver]) (by simp [Region.supers]) rfl rfl h

/-- So they do inside of a block. -/
theorem block (h : Orderly scopes) (id : NodeId) : Orderly (.block id :: scopes) :=
  .plain rfl rfl h

/-- So they do inside of a loop over items. -/
theorem loop (h : Orderly scopes) (id : NodeId) {name : Token} (hn : name.IsName) :
    Orderly (.loop id name :: scopes) :=
  .plain (by simp [Region.knows, Region.loop, hn.ne_self.symm])
    (by simp [Region.knows, Region.loop, hn.ne_super.symm]) h

/-- So they do inside of a function. -/
theorem call (h : Orderly scopes) (id : NodeId) {params : List Param}
    (hp : ∀ p ∈ params, p.name.IsName) : Orderly (.call id params :: scopes) := by
  refine .plain ?_ ?_ h
  · simp only [Region.knows, Region.call, List.contains_nil, Bool.or_false]
    rw [Bool.eq_false_iff, ne_eq, List.contains_iff_mem, List.mem_map]
    rintro ⟨p, hmem, e⟩
    exact (hp p hmem).ne_self e
  · simp only [Region.knows, Region.call, List.contains_nil, Bool.or_false]
    rw [Bool.eq_false_iff, ne_eq, List.contains_iff_mem, List.mem_map]
    rintro ⟨p, hmem, e⟩
    exact (hp p hmem).ne_super e

/-- So they do behind a declaration. -/
theorem declareIn (h : Orderly scopes) {name : Token} (hn : name.IsName) :
    Orderly (declareIn name.lexeme scopes) := by
  have hs : ("self" == name.lexeme) = false := by simpa using hn.ne_self.symm
  have hp : ("super" == name.lexeme) = false := by simpa using hn.ne_super.symm
  cases h with
  | nil => exact .nil
  | plain self super h => exact .plain (by simp [hs, self]) (by simp [hp, super]) h
  | methods id ro so self super noSuper noSelf h =>
    exact .methods id ro so (List.mem_cons_of_mem _ self) super (by simp [hp, noSuper]) noSelf h

/-- So they do inside a declaration. -/
theorem pendIn (h : Orderly scopes) {name : Token} (hn : name.IsName) :
    Orderly (pendIn name.lexeme scopes) := by
  have hs : ("self" == name.lexeme) = false := by simpa using hn.ne_self.symm
  have hp : ("super" == name.lexeme) = false := by simpa using hn.ne_super.symm
  cases h with
  | nil => exact .nil
  | plain self super h => exact .plain (by simp [hs, self]) (by simp [hp, super]) h
  | methods id ro so self super noSuper noSelf h =>
    exact .methods id ro so self super (by simp [hp, noSuper]) noSelf h

/-- A receiver is found in the scope of a receiver. -/
theorem self_found (h : Orderly scopes) {d : Nat}
    (hd : scopes.findIdx? (·.knows "self") = some d) :
    ∃ r id, scopes[d]? = some r ∧ r.origin = .receiver id ∧ "self" ∈ r.declared := by
  induction h generalizing d with
  | nil => simp at hd
  | plain self super h ih =>
    simp only [List.findIdx?_cons, self, Bool.false_eq_true, if_false, Option.map_eq_some_iff] at hd
    obtain ⟨d, hd, rfl⟩ := hd
    exact ih hd
  | @methods r s rest id ro so self super noSuper noSelf h ih =>
    -- The innermost scope that knows the name is that of a receiver.
    have hr : r.knows "self" = true := by simp [Region.knows, self]
    simp only [List.findIdx?_cons, hr, if_true, Option.some.injEq] at hd
    subst hd
    exact ⟨r, id, rfl, ro, self⟩

/-- Superclasses are found in the scope of a class, and the receiver in the scope inside. -/
theorem super_found (h : Orderly scopes) {d : Nat}
    (hd : scopes.findIdx? (·.knows "super") = some d) :
    ∃ d' r s id, d = d' + 1 ∧ scopes[d']? = some r ∧ r.origin = .receiver id ∧
      "self" ∈ r.declared ∧ scopes[d]? = some s ∧ s.origin = .supers id ∧
      "super" ∈ s.declared := by
  induction h generalizing d with
  | nil => simp at hd
  | plain self super h ih =>
    -- A scope that knows neither word is passed over.
    simp only [List.findIdx?_cons, super, Bool.false_eq_true, if_false, Option.map_eq_some_iff]
      at hd
    obtain ⟨d, hd, rfl⟩ := hd
    obtain ⟨d', r, s, id, rfl, hr, ro, hself, hs, so, hsuper⟩ := ih hd
    exact ⟨d' + 1, r, s, id, rfl, hr, ro, hself, hs, so, hsuper⟩
  | @methods r s rest id ro so self super noSuper noSelf h ih =>
    -- The scope of the receiver lies right inside that of the superclasses, and does not know them.
    have hs : s.knows "super" = true := by simp [Region.knows, super]
    simp only [List.findIdx?_cons, noSuper, hs, Bool.false_eq_true, if_false, if_true,
      Option.map_some, Option.some.injEq] at hd
    subst hd
    exact ⟨0, r, s, id, rfl, rfl, ro, self, rfl, so, super⟩

end Orderly

/-- The scope that a use is counted to is the first one that knows the name. -/
theorem getElem?_of_findIdx? {scopes : List Region} {name : String} {d : Nat}
    (h : scopes.findIdx? (·.knows name) = some d) :
    ∃ r, scopes[d]? = some r ∧ scopes.find? (·.knows name) = some r := by
  induction scopes generalizing d with
  | nil => simp at h
  | cons r rest ih =>
    rw [List.findIdx?_cons] at h
    by_cases hr : r.knows name = true
    · rw [if_pos hr, Option.some.injEq] at h
      subst h
      exact ⟨r, rfl, by simp [hr]⟩
    · rw [if_neg hr, Option.map_eq_some_iff] at h
      obtain ⟨d, hd, rfl⟩ := h
      obtain ⟨r', hr', hf⟩ := ih hd
      exact ⟨r', by simpa using hr', by simpa [hr] using hf⟩

end Scope

/-! ### Chains -/

namespace Environments

/-- The scopes outward from a scope are made for the given syntax and bind what it declares. -/
def Chain (es : Environments) (i : ScopeId) : List Region → Prop
  | [] => i = 0 ∧ 0 < es.table.size
  | r :: rest =>
    es.origin? i = some r.origin ∧ (∀ name ∈ r.declared, es.binds i name = true) ∧
      ∃ p, es.parent? i = some p ∧ es.Chain p rest

/-- A chain begins at a scope that was made. -/
theorem Chain.lt_size {es : Environments} {i : ScopeId} {scopes : List Region}
    (h : es.Chain i scopes) : i < es.table.size := by
  cases scopes with
  | nil =>
    obtain ⟨rfl, h⟩ := h
    exact h
  | cons r rest =>
    obtain ⟨-, -, p, hp, -⟩ := h
    exact lt_size_of_parent? hp

/-- Chains stay while scopes are made and names are bound. -/
theorem Chain.grows {es es' : Environments} (hg : es.Grows es') {i : ScopeId}
    {scopes : List Region} (h : es.Chain i scopes) : es'.Chain i scopes := by
  induction scopes generalizing i with
  | nil => exact ⟨h.1, Nat.lt_of_lt_of_le h.2 hg.size_le⟩
  | cons r rest ih =>
    have hi := h.lt_size
    obtain ⟨ho, hd, p, hp, hrest⟩ := h
    refine ⟨(hg.origin? i hi).trans ho, fun name hn => hg.binds i name (hd name hn), p, ?_, ih hrest⟩
    rw [hg.parent? i hi, hp]

/-- A pending name need not be bound yet. -/
theorem Chain.pendIn {es : Environments} {i : ScopeId} {scopes : List Region}
    (h : es.Chain i scopes) (name : String) : es.Chain i (pendIn name scopes) := by
  cases scopes with
  | nil => exact h
  | cons r rest => exact h

/-- A name that the innermost scope binds is declared. -/
theorem Chain.declareIn {es : Environments} {i : ScopeId} {scopes : List Region}
    (h : es.Chain i scopes) {name : String} (hb : es.binds i name = true) :
    es.Chain i (declareIn name scopes) := by
  cases scopes with
  | nil => exact h
  | cons r rest =>
    obtain ⟨ho, hd, hrest⟩ := h
    refine ⟨ho, fun x hx => ?_, hrest⟩
    rcases List.mem_cons.1 hx with rfl | hx
    · exact hb
    · exact hd x hx

/-- A new scope inside a chain. -/
theorem Chain.push {es : Environments} {i : ScopeId} {scopes : List Region}
    (h : es.Chain i scopes) (origin : Origin) :
    (es.push origin (some i)).Chain es.table.size (⟨origin, [], []⟩ :: scopes) :=
  ⟨es.origin?_push_self origin (some i), nofun, i, es.parent?_push_self origin h.lt_size,
    h.grows (es.grows_push origin (some i))⟩

/-- Names that the innermost scope binds are declared there, in any order. -/
theorem Chain.region {es : Environments} {i : ScopeId} {r r' : Region} {rest : List Region}
    (h : es.Chain i (r :: rest)) (ho : r'.origin = r.origin)
    (hb : ∀ name ∈ r'.declared, es.binds i name = true) : es.Chain i (r' :: rest) :=
  ⟨ho ▸ h.1, hb, h.2.2⟩

/-- A use finds the scope that it was counted to. The scope binds the name, unless the name is
only pending there. -/
theorem Chain.ancestor? {es : Environments} {i : ScopeId} {scopes : List Region}
    (h : es.Chain i scopes) {d : Nat} {r : Region} (hd : scopes[d]? = some r) :
    ∃ j, es.ancestor? i d = some j ∧ es.origin? j = some r.origin ∧
      ∀ name ∈ r.declared, es.binds j name = true := by
  -- Outward along the scopes, one link of the chain for each step.
  induction scopes generalizing i d with
  | nil => simp at hd
  | cons r₀ rest ih =>
    cases d with
    | zero =>
      cases hd
      exact ⟨i, ancestor?_zero es h.lt_size, h.1, h.2.1⟩
    | succ d =>
      obtain ⟨-, -, p, hp, hrest⟩ := h
      rw [ancestor?_succ, hp]
      exact ih hrest (by simpa using hd)

end Environments

end ClassScript
