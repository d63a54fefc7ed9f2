import Mathlib.Logic.Basic
import ClassScript.Proofs.Hierarchy.Paths

/-!
# The order of superclasses

What a lookup answers depends on how many branches there are of each outcome, and not on their
order: an ambiguity inside any branch ends the lookup, and otherwise the nearest depth and the
number of branches at it decide. So a class graph with its superclasses in another order gives the
same answers; only the names in the text of an ambiguity follow the order.
-/

namespace ClassScript

namespace Lookup

variable {M : Type}

/-- Two outcomes are of one kind and, where a member was found, the same: the same member at the
same depth. -/
inductive Alike : Lookup M → Lookup M → Prop where
  /-- Nothing is found. -/
  | absent : Alike .absent .absent
  /-- The same member is found. -/
  | found (member : M) (depth : Nat) : Alike (.found member depth) (.found member depth)
  /-- Both are ambiguous. -/
  | ambiguous (names names' : List String) : Alike (.ambiguous names) (.ambiguous names')

/-- An ambiguous outcome. -/
def IsAmbiguous (l : Lookup M) : Prop := ∃ names, l = .ambiguous names

namespace Alike

variable {l l' : Lookup M}

/-- Alike outcomes are absent together. -/
theorem eq_absent_iff (h : l.Alike l') : l = .absent ↔ l' = .absent := by
  cases h <;> simp

/-- Alike outcomes find the same member at the same depth. -/
theorem eq_found_iff (h : l.Alike l') (m : M) (depth : Nat) :
    l = .found m depth ↔ l' = .found m depth := by
  cases h <;> simp

/-- Alike outcomes are ambiguous together. -/
theorem isAmbiguous_iff (h : l.Alike l') : l.IsAmbiguous ↔ l'.IsAmbiguous := by
  cases h <;> simp [IsAmbiguous]

/-- Alike outcomes are at the same depth. -/
theorem isAt_eq (h : l.Alike l') (depth : Nat) : l.isAt depth = l'.isAt depth := by
  cases h <;> rfl

/-- Outcomes are alike if nothing is found in both or neither, and the same member in both. -/
theorem of_iff (habsent : l = .absent ↔ l' = .absent)
    (hfound : ∀ m depth, l = .found m depth ↔ l' = .found m depth) : l.Alike l' := by
  cases l with
  | absent => exact habsent.1 rfl ▸ .absent
  | found m depth => exact (hfound m depth).1 rfl ▸ .found m depth
  | ambiguous names =>
    cases l' with
    | absent => cases habsent.2 rfl
    | found m depth => cases (hfound m depth).2 rfl
    | ambiguous names' => exact .ambiguous names names'

end Alike

/-! ### Branches in another order -/

variable {branches branches' : List (String × Lookup M)}

/-- Nothing is found exactly if nothing is found in any branch. -/
theorem merge_eq_absent_iff : merge branches = .absent ↔ ∀ b ∈ branches, b.2 = .absent := by
  -- An ambiguous branch, nothing anywhere, or a nearest hit; only in the second case nothing is
  -- found.
  rcases merge_cases branches with
    ⟨b, hb, names, hnames, hmerge⟩ | ⟨-, ⟨habsent, hmerge⟩ | ⟨least, -, hnearest⟩⟩
  · rw [hmerge]
    exact ⟨nofun, fun h => nomatch hnames.symm.trans (h b hb)⟩
  · exact ⟨fun _ => habsent, fun _ => hmerge⟩
  · rcases hnearest with ⟨b, hb, m, hfound, hmerge, -⟩ | ⟨htwo, names, hmerge⟩
    · rw [hmerge]
      exact ⟨nofun, fun h => nomatch hfound.symm.trans (h b hb)⟩
    · obtain ⟨_, _, b, _, -, hb, -, hat, -⟩ := two_le_countP_iff.1 htwo
      obtain ⟨m, hfound⟩ := isAt_iff.1 hat
      rw [hmerge]
      exact ⟨nofun, fun h => nomatch hfound.symm.trans (h b (List.mem_of_getElem? hb))⟩

/-- Where one branch has an outcome of a kind, all branches with such an outcome are that one. -/
theorem eq_of_countP_eq_one {α : Type} {p : α → Bool} {l : List α} (h : l.countP p = 1) {a b : α}
    (ha : a ∈ l) (hb : b ∈ l) (hpa : p a = true) (hpb : p b = true) : a = b := by
  rw [List.countP_eq_length_filter] at h
  obtain ⟨x, hx⟩ := List.length_eq_one_iff.1 h
  have hmem : ∀ c ∈ l, p c = true → c = x := fun c hc hpc =>
    List.mem_singleton.1 (hx ▸ List.mem_filter.2 ⟨hc, hpc⟩)
  exact (hmem a ha hpa).trans (hmem b hb hpb).symm

/-- A member is found, one step further away, exactly if no branch is ambiguous and a single branch
is the nearest one. -/
theorem merge_eq_found_iff {m : M} {depth : Nat} :
    merge branches = .found m depth ↔
      (∀ b ∈ branches, ¬b.2.IsAmbiguous) ∧
        ∃ least, depth = least + 1 ∧ Least branches least ∧
          (∃ b ∈ branches, b.2 = .found m least) ∧ branches.countP (·.2.isAt least) = 1 := by
  constructor
  · intro h
    rcases merge_cases branches with
      ⟨_, _, _, _, hmerge⟩ | ⟨hclear, ⟨_, hmerge⟩ | ⟨least, hleast, hnearest⟩⟩
    · cases h.symm.trans hmerge
    · cases h.symm.trans hmerge
    · rcases hnearest with ⟨b, hb, m', hfound, hmerge, hone⟩ | ⟨_, _, hmerge⟩
      · cases h.symm.trans hmerge
        exact ⟨fun b hb ⟨names, he⟩ => hclear b hb names he, least, rfl, hleast, ⟨b, hb, hfound⟩,
          hone⟩
      · cases h.symm.trans hmerge
  · rintro ⟨hclear, least, rfl, hleast, ⟨b, hb, hfound⟩, hone⟩
    have hat : b.2.isAt least = true := isAt_iff.2 ⟨m, hfound⟩
    rcases merge_cases branches with
      ⟨b', hb', names, hnames, -⟩ | ⟨-, ⟨habsent, -⟩ | ⟨least', hleast', hnearest⟩⟩
    · exact absurd ⟨names, hnames⟩ (hclear b' hb')
    · cases hfound.symm.trans (habsent b hb)
    · -- No branch is nearer, so both depths are the nearest one.
      have hle : least' ≤ least := hleast' b hb m least hfound
      rcases hnearest with ⟨b', hb', m', hfound', hmerge, -⟩ | ⟨htwo, -, -⟩
      · obtain rfl : least = least' := Nat.le_antisymm (hleast b' hb' m' least' hfound') hle
        have hsame : b = b' := eq_of_countP_eq_one hone hb hb' hat (isAt_iff.2 ⟨m', hfound'⟩)
        cases hfound.symm.trans (hsame ▸ hfound')
        exact hmerge
      · obtain ⟨_, _, b', _, -, hi, -, hat', -⟩ := two_le_countP_iff.1 htwo
        obtain ⟨m', hfound'⟩ := isAt_iff.1 hat'
        have hge : least ≤ least' := hleast b' (List.mem_of_getElem? hi) m' least' hfound'
        obtain rfl : least = least' := Nat.le_antisymm hge hle
        omega

/-- What all branches do, they do in another order and with outcomes that are alike. -/
theorem forall_branches_iff {ι : Type} {f f' : ι → String × Lookup M} {xs xs' : List ι}
    (hp : xs'.Perm xs) {P : Lookup M → Prop}
    (halike : ∀ x ∈ xs, P (f' x).2 ↔ P (f x).2) :
    (∀ b ∈ xs'.map f', P b.2) ↔ ∀ b ∈ xs.map f, P b.2 := by
  rw [List.forall_mem_map, List.forall_mem_map]
  exact forall_congr' fun x =>
    ⟨fun h hx => (halike x hx).1 (h (hp.mem_iff.2 hx)),
      fun h hx => (halike x (hp.mem_iff.1 hx)).2 (h (hp.mem_iff.1 hx))⟩

/-- Branches in another order, with outcomes that are alike, have an outcome that is alike. -/
theorem merge_alike {ι : Type} {f f' : ι → String × Lookup M} {xs xs' : List ι}
    (hp : xs'.Perm xs) (halike : ∀ x ∈ xs, (f' x).2.Alike (f x).2) :
    (merge (xs'.map f')).Alike (merge (xs.map f)) := by
  -- The outcome is decided by four things, none of which depends on the order of the branches.
  have hclear : (∀ b ∈ xs'.map f', ¬b.2.IsAmbiguous) ↔ ∀ b ∈ xs.map f, ¬b.2.IsAmbiguous :=
    forall_branches_iff (P := fun l => ¬l.IsAmbiguous) hp fun x hx =>
      not_congr (halike x hx).isAmbiguous_iff
  have hleast : ∀ least, Least (xs'.map f') least ↔ Least (xs.map f) least := fun least =>
    forall_branches_iff (P := fun l => ∀ m depth, l = .found m depth → least ≤ depth) hp
      fun x hx => forall₂_congr fun m depth => imp_congr_left ((halike x hx).eq_found_iff m depth)
  have hsome : ∀ m least, (∃ b ∈ xs'.map f', b.2 = .found m least) ↔
      ∃ b ∈ xs.map f, b.2 = .found m least := by
    intro m least
    simp only [List.mem_map, exists_exists_and_eq_and, hp.mem_iff]
    exact exists_congr fun x => and_congr_right fun hx => (halike x hx).eq_found_iff m least
  have hcount : ∀ least, (xs'.map f').countP (·.2.isAt least) =
      (xs.map f).countP (·.2.isAt least) := by
    intro least
    rw [List.countP_map, List.countP_map, hp.countP_eq]
    refine List.countP_congr fun x hx => ?_
    simp only [Function.comp_apply, (halike x hx).isAt_eq least]
  refine .of_iff ?_ fun m depth => ?_
  · rw [merge_eq_absent_iff, merge_eq_absent_iff]
    exact forall_branches_iff (P := (· = .absent)) hp fun x hx => (halike x hx).eq_absent_iff
  · simp only [merge_eq_found_iff, hclear, hleast, hsome, hcount]

end Lookup

/-! ### Superclasses in another order -/

namespace Hierarchy

variable {C M : Type}

/-- A class graph with other lists of superclasses, which have the same entries in some order. -/
def reorder (h : Hierarchy C M) (supers : C → List C)
    (hp : ∀ c, (supers c).Perm (h.supers c)) : Hierarchy C M where
  own := h.own
  supers := supers
  name := h.name
  acyclic := Subrelation.wf (fun {_ _} hs => (hp _).mem_iff.1 hs) h.acyclic

variable {h : Hierarchy C M} {supers : C → List C} {hp : ∀ c, (supers c).Perm (h.supers c)}
  {member : String}

/-- Lookups on superclasses alone are alike if those on each superclass are. -/
theorem lookupSupers_alike {cs cs' : List C} (hcs : cs'.Perm cs)
    (halike : ∀ c ∈ cs, ((h.reorder supers hp).lookup member c).Alike (h.lookup member c)) :
    ((h.reorder supers hp).lookupSupers member cs').Alike (h.lookupSupers member cs) :=
  Lookup.merge_alike hcs halike

/-- The order of the superclass lists does not matter to a lookup. -/
theorem lookup_alike (c : C) :
    ((h.reorder supers hp).lookup member c).Alike (h.lookup member c) := by
  induction c using h.acyclic.induction with
  | _ c ih =>
    have hown : (h.reorder supers hp).own c member = h.own c member := rfl
    rw [lookup_eq, lookup_eq, hown]
    cases h.own c member with
    | some m => exact .found m 0
    | none => exact lookupSupers_alike (hp c) ih

/-- The order of superclasses does not matter. In a class graph whose lists of superclasses are
permuted, every lookup finds the same member at the same depth, or finds nothing, or is ambiguous,
as in the graph with the lists as they were; and so does a lookup on superclasses alone, also if
these are searched in another order. -/
theorem lookup_ignores_order (h : Hierarchy C M) (supers : C → List C)
    (hp : ∀ c, (supers c).Perm (h.supers c)) (member : String) :
    (∀ c, ((h.reorder supers hp).lookup member c).Alike (h.lookup member c)) ∧
      ∀ cs cs' : List C, cs'.Perm cs →
        ((h.reorder supers hp).lookupSupers member cs').Alike (h.lookupSupers member cs) :=
  ⟨lookup_alike, fun _ _ hcs => lookupSupers_alike hcs fun c _ => lookup_alike c⟩

/-- A class that inherits one member from `Near`, and is reached by another one on two ways of the
same length, with all lists of superclasses reversed. -/
theorem lookup_ignores_order_reversed :
    let c := Lineage.mk "C" [] [.mk "D" [] [.mk "X" ["m"] [], .mk "Y" ["m"] []],
      .mk "Near" ["n"] []]
    let reversed := Lineage.hierarchy.reorder (fun c => c.supers.reverse) fun c =>
      c.supers.reverse_perm
    (∀ c : Lineage, c.supers.reverse.Perm (Lineage.hierarchy.supers c)) ∧
      c.supers.reverse.Perm c.supers ∧
      (reversed.lookup "m" c).Alike (Lineage.hierarchy.lookup "m" c) ∧
      (reversed.lookupSupers "n" c.supers.reverse).Alike
        (Lineage.hierarchy.lookupSupers "n" c.supers) := by
  intro c reversed
  have hp : ∀ c : Lineage, c.supers.reverse.Perm (Lineage.hierarchy.supers c) := fun c =>
    c.supers.reverse_perm
  exact ⟨hp, c.supers.reverse_perm, (lookup_ignores_order Lineage.hierarchy _ hp "m").1 c,
    (lookup_ignores_order Lineage.hierarchy _ hp "n").2 _ _ c.supers.reverse_perm⟩

end Hierarchy

end ClassScript
