import ClassScript.Hierarchy

/-!
# Lookups and the hierarchies they go through

A lookup answers a member that some class declares. Two hierarchies of the same shape and with
corresponding members give corresponding answers.
-/

namespace ClassScript

namespace Lookup

variable {M N : Type}

/-- The outcome with another member in the place of the one that was found. -/
def map (f : M → N) : Lookup M → Lookup N
  | absent => absent
  | found member depth => found (f member) depth
  | ambiguous branches => ambiguous branches

/-- The branches of an ambiguity do not depend on the members. -/
@[simp] theorem conflict?_map (f : M → N) (l : Lookup M) : (l.map f).conflict? = l.conflict? := by
  cases l <;> rfl

/-- A hit is one of the other member, at the same depth. -/
@[simp] theorem hit?_map (f : M → N) (l : Lookup M) :
    (l.map f).hit? = l.hit?.map fun h => (f h.1, h.2) := by
  cases l <;> rfl

/-- The hits of branches. -/
def hits (branches : List (String × Lookup M)) : List (Hit M) :=
  branches.filterMap fun b => b.2.hit?.map fun h => ⟨b.1, h.1, h.2⟩

/-- The outcome of several hits. -/
def nearest (hits : List (Hit M)) : Lookup M :=
  match (hits.map Hit.depth).min? with
  | none => .absent
  | some least =>
    match hits.filter (·.depth = least) with
    | [hit] => .found hit.member (least + 1)
    | tied => .ambiguous (tied.map Hit.branch)

/-- The first ambiguity ends a lookup, and otherwise the nearest hit wins. -/
theorem merge_eq (branches : List (String × Lookup M)) :
    merge branches =
      match branches.findSome? (·.2.conflict?) with
      | some names => .ambiguous names
      | none => nearest (hits branches) := by
  unfold merge nearest hits
  rfl

/-- A hit with another member. -/
def Hit.map (f : M → N) (h : Hit M) : Hit N := ⟨h.branch, f h.member, h.depth⟩

/-- The hits of branches are those of the other members. -/
theorem hits_map (f : M → N) (branches : List (String × Lookup M)) :
    hits (branches.map fun b => (b.1, b.2.map f)) = (hits branches).map (Hit.map f) := by
  unfold hits
  rw [List.filterMap_map, List.map_filterMap]
  congr 1
  funext b
  simp only [Function.comp_apply, hit?_map, Option.map_map]
  rfl

/-- The nearest hit is that of the other member. -/
theorem nearest_map (f : M → N) (hs : List (Hit M)) :
    nearest (hs.map (Hit.map f)) = (nearest hs).map f := by
  unfold nearest
  have hdepth : (hs.map (Hit.map f)).map Hit.depth = hs.map Hit.depth := by
    rw [List.map_map]
    rfl
  rw [hdepth]
  cases (hs.map Hit.depth).min? with
  | none => rfl
  | some least =>
    have hfilter : (hs.map (Hit.map f)).filter (·.depth = least) =
        (hs.filter (·.depth = least)).map (Hit.map f) := by
      rw [List.filter_map]
      rfl
    dsimp only
    rw [hfilter]
    -- Whether there is one hit or several does not hang on what was hit.
    generalize hs.filter (·.depth = least) = tied
    rcases tied with _ | ⟨hit, _ | ⟨other, more⟩⟩
    · rfl
    · rfl
    · simp only [List.map_cons, List.map_map, map]
      rfl

/-- Corresponding branches have corresponding outcomes. -/
theorem merge_map (f : M → N) (branches : List (String × Lookup M)) :
    merge (branches.map fun b => (b.1, b.2.map f)) = (merge branches).map f := by
  have hconflict : (branches.map fun b => (b.1, b.2.map f)).findSome? (·.2.conflict?) =
      branches.findSome? (·.2.conflict?) := by
    rw [List.findSome?_map]
    simp only [Function.comp_def, conflict?_map]
  rw [merge_eq, merge_eq, hconflict, hits_map, nearest_map]
  cases branches.findSome? (·.2.conflict?) <;> rfl

/-- What is found was found in a branch. -/
theorem found_of_merge {branches : List (String × Lookup M)} {m : M} {depth : Nat}
    (h : merge branches = .found m depth) : ∃ b ∈ branches, ∃ d, b.2 = .found m d := by
  rw [merge_eq] at h
  split at h
  · cases h
  · unfold nearest at h
    split at h
    · cases h
    · split at h
      · -- The nearest hit is the only one at its depth.
        next least _ hit hfilter =>
        cases h
        have hmem : hit ∈ hits branches :=
          (List.mem_filter.1 (hfilter ▸ List.mem_singleton.2 rfl)).1
        obtain ⟨b, hb, hhit⟩ := List.mem_filterMap.1 hmem
        obtain ⟨p, hp, rfl⟩ := Option.map_eq_some_iff.1 hhit
        refine ⟨b, hb, p.2, ?_⟩
        cases hl : b.2 <;> rw [hl] at hp <;> cases hp
        rfl
      · cases h

/-- What is found in a branch is further away than the class itself. -/
theorem depth_pos_of_merge {branches : List (String × Lookup M)} {m : M} {depth : Nat}
    (h : merge branches = .found m depth) : 0 < depth := by
  rw [merge_eq] at h
  split at h
  · cases h
  · unfold nearest at h
    split at h
    · cases h
    · split at h
      · cases h
        exact Nat.succ_pos _
      · cases h

end Lookup

namespace Hierarchy

variable {C D M N : Type}

/-- A lookup, with the lookups on the superclasses. -/
theorem lookup_eq (h : Hierarchy C M) (member : String) (c : C) :
    h.lookup member c =
      match h.own c member with
      | some m => .found m 0
      | none => h.lookupSupers member (h.supers c) := by
  rw [lookup]
  cases h.own c member with
  | some m => rfl
  | none =>
    exact congrArg Lookup.merge (List.attach_map_val (f := fun s => (h.name s, h.lookup member s)))

/-- A member that a class declares itself is found there. -/
theorem lookup_of_own {h : Hierarchy C M} {member : String} {c : C} {m : M}
    (hown : h.own c member = some m) : h.lookup member c = .found m 0 := by
  rw [lookup_eq, hown]

/-- What a class does not have itself is found further away. -/
theorem depth_pos_of_lookup {h : Hierarchy C M} {member : String} {c : C} {m : M} {depth : Nat}
    (hown : h.own c member = none) (hf : h.lookup member c = .found m depth) : 0 < depth := by
  rw [lookup_eq, hown] at hf
  exact Lookup.depth_pos_of_merge hf

section Declared

variable {h : Hierarchy C M} {member : String} {m : M} {depth : Nat}

/-- What is found is declared by a class with a property, if the class has it on which it is looked
up and superclasses have it with their classes. -/
theorem declared_of_lookup {P : C → Prop} (hP : ∀ c, P c → ∀ s ∈ h.supers c, P s) {c : C}
    (hc : P c) (hf : h.lookup member c = .found m depth) : ∃ c', P c' ∧ h.own c' member = some m := by
  induction c using h.acyclic.induction generalizing depth with
  | _ c ih =>
    -- On the classes, from the superclasses down: the class has the member itself, or a superclass
    -- does.
    rw [lookup_eq] at hf
    cases ho : h.own c member with
    | some m' =>
      rw [ho] at hf
      cases hf
      exact ⟨c, hc, ho⟩
    | none =>
      rw [ho] at hf
      obtain ⟨b, hb, d, hd⟩ := Lookup.found_of_merge hf
      obtain ⟨s, hs, rfl⟩ := List.mem_map.1 hb
      exact ih s hs (hP c hc s hs) hd

/-- A member that is found on superclasses is declared by one of their ancestors. -/
theorem declared_of_lookupSupers {P : C → Prop} (hP : ∀ c, P c → ∀ s ∈ h.supers c, P s)
    {supers : List C} (hsupers : ∀ s ∈ supers, P s)
    (hf : h.lookupSupers member supers = .found m depth) : ∃ c', P c' ∧ h.own c' member = some m := by
  obtain ⟨b, hb, d, hd⟩ := Lookup.found_of_merge hf
  obtain ⟨s, hs, rfl⟩ := List.mem_map.1 hb
  exact declared_of_lookup hP (hsupers s hs) hd

/-- What is found is declared by some class. -/
theorem own_of_lookup {c : C} (hf : h.lookup member c = .found m depth) :
    ∃ c', h.own c' member = some m :=
  have ⟨c', _, hown⟩ := declared_of_lookup (P := fun _ => True) (fun _ _ _ _ => trivial) trivial hf
  ⟨c', hown⟩

/-- What is found on superclasses is declared by some class. -/
theorem own_of_lookupSupers {supers : List C} (hf : h.lookupSupers member supers = .found m depth) :
    ∃ c', h.own c' member = some m :=
  have ⟨c', _, hown⟩ := declared_of_lookupSupers (P := fun _ => True) (fun _ _ _ _ => trivial)
    (fun _ _ => trivial) hf
  ⟨c', hown⟩

end Declared

/-- A hierarchy is a picture of another one: its classes are pictures of classes with pictures of
their members, and have the same names. -/
structure Pictures (h : Hierarchy C M) (h' : Hierarchy D N) (φ : C → D) (μ : M → N) : Prop where
  /-- The members are pictures. -/
  own : ∀ c member, h'.own (φ c) member = (h.own c member).map μ
  /-- The superclasses are pictures. -/
  supers : ∀ c, h'.supers (φ c) = (h.supers c).map φ
  /-- The names are the same. -/
  name : ∀ c, h'.name (φ c) = h.name c

namespace Pictures

variable {h : Hierarchy C M} {h' : Hierarchy D N} {φ : C → D} {μ : M → N}

/-- Branches with corresponding outcomes have corresponding outcomes together. -/
theorem lookupSupers_of (p : Pictures h h' φ μ) {member : String} {supers : List C}
    (hs : ∀ s ∈ supers, h'.lookup member (φ s) = (h.lookup member s).map μ) :
    h'.lookupSupers member (supers.map φ) = (h.lookupSupers member supers).map μ := by
  unfold Hierarchy.lookupSupers
  rw [← Lookup.merge_map, List.map_map, List.map_map]
  congr 1
  refine List.map_congr_left fun s hmem => ?_
  simp only [Function.comp_apply, p.name, hs s hmem]

/-- The member that is found is the picture of the one found in the other hierarchy. -/
theorem lookup (p : Pictures h h' φ μ) (member : String) (c : C) :
    h'.lookup member (φ c) = (h.lookup member c).map μ := by
  induction c using h.acyclic.induction with
  | _ c ih =>
    rw [lookup_eq, lookup_eq, p.own]
    cases h.own c member with
    | some m => rfl
    | none =>
      rw [p.supers]
      exact p.lookupSupers_of ih

/-- Lookups on superclasses give corresponding answers in both hierarchies. -/
theorem lookupSupers (p : Pictures h h' φ μ) (member : String) (supers : List C) :
    h'.lookupSupers member (supers.map φ) = (h.lookupSupers member supers).map μ :=
  p.lookupSupers_of fun s _ => p.lookup member s

end Pictures

end Hierarchy

end ClassScript
