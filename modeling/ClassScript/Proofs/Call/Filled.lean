import ClassScript.Call.Arguments

/-!
# What slots hold

However the arguments of a call are laid out, every parameter has one slot, and there is nothing in
the slots but arguments.
-/

namespace ClassScript

namespace Slot

variable {α : Type} {A : α → Prop}

/-- Every argument in a slot has a property. -/
def All (A : α → Prop) : Slot α → Prop
  | .omitted => True
  | .given a => A a
  | .collected as => ∀ a ∈ as, A a

/-- A property that is implied by another one holds of a slot as well. -/
theorem All.mono {A' : α → Prop} (hA : ∀ a, A a → A' a) {s : Slot α} (h : s.All A) :
    s.All A' := by
  cases s with
  | omitted => trivial
  | given a => exact hA a h
  | collected as => exact fun a ha => hA a (h a ha)

/-- A property of all arguments holds of every slot. -/
theorem All.of_forall (hA : ∀ a, A a) (s : Slot α) : s.All A := by
  cases s with
  | omitted => trivial
  | given a => exact hA a
  | collected as => exact fun a _ => hA a

/-- The positional arguments are laid out in one slot for each parameter. -/
theorem length_ofPositional (params : List Param) (positional : List α) :
    (ofPositional params positional).length = params.length := by
  unfold ofPositional fixedCount
  by_cases hv : Arity.isVariadic params = true
  · -- A parameter list with a variadic last parameter is not empty.
    have hne : params ≠ [] := by
      rintro rfl
      cases hv
    have hpos := List.length_pos_iff.2 hne
    simp only [hv, if_true, List.length_append, List.length_map, List.length_take,
      List.length_replicate, List.length_singleton]
    omega
  · simp only [hv, if_neg Bool.false_ne_true, List.length_append, List.length_map,
      List.length_take, List.length_replicate, List.length_nil]
    omega

/-- The positional arguments are all that is in the slots. -/
theorem all_ofPositional (params : List Param) {positional : List α}
    (h : ∀ a ∈ positional, A a) : ∀ s ∈ ofPositional params positional, s.All A := by
  intro s hs
  unfold ofPositional at hs
  -- A slot has an argument, or none yet, or it collects the arguments that are left.
  rcases List.mem_append.1 hs with hs | hs
  · rcases List.mem_append.1 hs with hs | hs
    · obtain ⟨a, ha, rfl⟩ := List.mem_map.1 hs
      exact h a (List.mem_of_mem_take ha)
    · rw [List.eq_of_mem_replicate hs]
      trivial
  · split at hs
    · rw [List.mem_singleton.1 hs]
      exact fun a ha => h a (List.mem_of_mem_drop ha)
    · cases hs

/-- A named argument goes into a slot that is there. -/
theorem fill_ok {params : List Param} {slots slots' : List (Slot α)} {name : String} {value : α}
    (h : fill params slots name value = .ok slots') (hlen : slots.length = params.length)
    (hall : ∀ s ∈ slots, s.All A) (hv : A value) :
    slots'.length = params.length ∧ ∀ s ∈ slots', s.All A := by
  unfold fill at h
  -- The name is that of a parameter, and its slot is empty.
  split at h
  · cases h
  · split at h
    · cases h
    · split at h
      · cases h
        refine ⟨by rw [List.length_set, hlen], fun s hs => ?_⟩
        rcases List.mem_or_eq_of_mem_set hs with hs | rfl
        · exact hall s hs
        · exact hv
      · cases h

/-- Named arguments go into slots that are there. -/
theorem fillAll_ok {params : List Param} {named : List (String × α)} {start slots : List (Slot α)}
    (hn : ∀ p ∈ named, A p.2) (hlen : start.length = params.length)
    (hall : ∀ s ∈ start, s.All A)
    (h : named.foldlM (fun slots (name, value) => fill params slots name value) start
      = .ok slots) :
    slots.length = params.length ∧ ∀ s ∈ slots, s.All A := by
  induction named generalizing start with
  | nil =>
    cases h
    exact ⟨hlen, hall⟩
  | cons p rest ih =>
    rw [List.foldlM_cons] at h
    dsimp only at h
    cases hfill : fill params start p.1 p.2 with
    | error e =>
      rw [hfill] at h
      cases h
    | ok next =>
      -- The slots filled so far are good, and so is the next value.
      rw [hfill] at h
      obtain ⟨hlen', hall'⟩ := fill_ok hfill hlen hall (hn p List.mem_cons_self)
      exact ih (fun q hq => hn q (List.mem_cons_of_mem _ hq)) hlen' hall' h

/-- Matched arguments: one slot for every parameter, and nothing but arguments in them. -/
theorem ofCall_ok {params : List Param} {positional : List α} {named : List (String × α)}
    {slots : List (Slot α)} (hp : ∀ a ∈ positional, A a) (hn : ∀ p ∈ named, A p.2)
    (h : ofCall params positional named = .ok slots) :
    slots.length = params.length ∧ ∀ s ∈ slots, s.All A := by
  unfold ofCall at h
  dsimp only at h
  split at h
  · -- The count is admitted. The named arguments fill slots, or one of them has none.
    cases hfold : named.foldlM (fun slots (name, value) => fill params slots name value)
        (ofPositional params positional) with
    | error e =>
      rw [ofArguments_of_unfilled hfold] at h
      cases h
    | ok filled =>
      rw [ofArguments_of_filled hfold] at h
      split at h
      · cases h
      · cases h
        exact fillAll_ok hn (length_ofPositional ..) (all_ofPositional params hp) hfold
  · cases h

end Slot

end ClassScript
