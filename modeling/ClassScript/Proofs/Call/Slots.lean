import ClassScript.Proofs.Call.Filled
import ClassScript.Proofs.Typing.Matching

/-!
# Every argument ends up in one place

The positional arguments, the named ones, the defaults and a variadic last parameter compete for the
slots of a call. A parameter list with different names whose variadic parameter is the last one has
one slot for each argument that its arity admits. What the slots hold while the named arguments are
laid out is the invariant `Laid`; a named argument keeps it if and only if it `Takes` a slot, and
what is left to require is that nothing is missing.
-/

namespace ClassScript.Slot

open Typing.Check (lt_fixedCount)

variable {α : Type}

/-- The arguments in a slot. -/
def values : Slot α → List α
  | omitted => []
  | given value => [value]
  | collected values => values

/-! ### What a call asks for -/

/-- Only the last parameter may be variadic. -/
def VariadicLast (params : List Param) : Prop :=
  ∀ i p, params[i]? = some p → p.variadic = true → i + 1 = params.length

/-- An argument of a name takes the slot of a parameter of the name, which is not variadic and which
neither one of the `count` positional arguments nor an earlier named argument has filled. -/
def Takes (params : List Param) (count : Nat) (earlier : List (String × α)) (name : String) :
    Prop :=
  ∃ i p, params[i]? = some p ∧ p.name.lexeme = name ∧ p.variadic = false ∧ count ≤ i ∧
    ∀ q ∈ earlier, q.1 ≠ name

/-- Every named argument takes a slot. -/
def Placed (params : List Param) (count : Nat) (named : List (String × α)) : Prop :=
  ∀ earlier name value later, named = earlier ++ (name, value) :: later →
    Takes params count earlier name

/-- Every parameter that is not variadic and has no default has an argument. -/
def Supplied (params : List Param) (count : Nat) (named : List (String × α)) : Prop :=
  ∀ i p, params[i]? = some p → p.variadic = false → p.defaultValue = none →
    i < count ∨ ∃ q ∈ named, q.1 = p.name.lexeme

/-- The slots of a call hold its arguments, each of them once. -/
structure Holds (params : List Param) (positional : List α) (named : List (String × α))
    (slots : List (Slot α)) : Prop where
  /-- There is one slot for each parameter. -/
  length : slots.length = params.length
  /-- A positional argument fills the slot of its position. -/
  byPosition : ∀ (i : Nat) (p : Param) (a : α), params[i]? = some p → p.variadic = false →
    positional[i]? = some a → slots[i]? = some (given a)
  /-- A named argument fills the slot of its name. -/
  byName : ∀ (i : Nat) (p : Param) (a : α), params[i]? = some p → p.variadic = false →
    positional.length ≤ i → (p.name.lexeme, a) ∈ named → slots[i]? = some (given a)
  /-- A slot that remains is empty, and its parameter has a default. -/
  omitted : ∀ (i : Nat) (p : Param), params[i]? = some p → p.variadic = false →
    positional.length ≤ i → (∀ q ∈ named, q.1 ≠ p.name.lexeme) →
      slots[i]? = some omitted ∧ p.defaultValue.isSome = true
  /-- A variadic parameter collects the positional arguments behind the fixed ones. -/
  variadic : ∀ (i : Nat) (p : Param), params[i]? = some p → p.variadic = true →
    slots[i]? = some (collected (positional.drop (fixedCount params)))
  /-- No argument is lost, and none is doubled. -/
  once : (slots.flatMap values).Perm (positional ++ named.map Prod.snd)

/-! ### Positional arguments -/

section

variable {params : List Param} {positional : List α}

/-- A variadic last parameter is the one behind the fixed ones. -/
theorem VariadicLast.fixedCount_eq (h : VariadicLast params) {i : Nat} {p : Param}
    (hp : params[i]? = some p) (hv : p.variadic = true) : fixedCount params = i := by
  have hlast := h i p hp hv
  have hvariadic : Arity.isVariadic params = true := by
    rw [Arity.isVariadic, List.getLast?_eq_getElem?, ← hlast, Nat.add_sub_cancel, hp]
    exact hv
  rw [fixedCount, if_pos hvariadic]
  omega

/-- Without a variadic parameter, an admitted call has no more positional arguments than
parameters. -/
theorem length_le_of_admits {count n : Nat} (h : (Arity.ofParams params).admits (count + n) = true)
    (hv : ¬Arity.isVariadic params = true) : count ≤ params.length := by
  simp only [Arity.admits, Arity.ofParams, if_neg hv, Bool.and_eq_true, Option.all_some,
    decide_eq_true_eq] at h
  omega

/-- The slot of a parameter that is not variadic, after the positional arguments. -/
theorem getElem?_ofPositional {i : Nat} (hi : i < fixedCount params) :
    (ofPositional params positional)[i]? = some ((positional[i]?).elim omitted given) := by
  unfold ofPositional
  by_cases h : i < positional.length
  · grind
  · grind

/-- The slot of a variadic parameter. -/
theorem getElem?_ofPositional_fixedCount (h : Arity.isVariadic params = true) :
    (ofPositional params positional)[fixedCount params]? =
      some (collected (positional.drop (fixedCount params))) := by
  have hlen : ((positional.take (fixedCount params)).map given ++
      List.replicate (fixedCount params - ((positional.take (fixedCount params)).map given).length)
        omitted).length = fixedCount params := by
    rw [List.length_append, List.length_replicate]
    have := List.length_take_le (fixedCount params) positional
    rw [List.length_map]
    omega
  unfold ofPositional
  dsimp only
  rw [if_pos h, List.getElem?_append_right (Nat.le_of_eq hlen), hlen, Nat.sub_self]
  rfl

/-- Slots that are given one argument each hold just these. -/
theorem flatMap_given (as : List α) : (as.map given).flatMap values = as := by
  induction as with
  | nil => rfl
  | cons a as ih => exact congrArg (a :: ·) ih

/-- Omitted slots hold nothing. -/
theorem flatMap_omitted (n : Nat) : (List.replicate n (omitted : Slot α)).flatMap values = [] :=
  List.flatMap_eq_nil_iff.2 fun _ h => List.eq_of_mem_replicate h ▸ rfl

/-- The slots hold the positional arguments, as long as there is room for them. -/
theorem flatMap_ofPositional (h : ¬Arity.isVariadic params = true →
    positional.length ≤ params.length) :
    (ofPositional params positional).flatMap values = positional := by
  unfold ofPositional
  rw [List.flatMap_append, List.flatMap_append, flatMap_given, flatMap_omitted, List.append_nil]
  split
  · exact (congrArg _ (List.append_nil _)).trans (List.take_append_drop ..)
  · next hv =>
    rw [fixedCount, if_neg hv, List.take_of_length_le (h hv), List.flatMap_nil, List.append_nil]

end

/-! ### Named arguments -/

/-- What the slots hold after the positional arguments and some of the named ones. -/
structure Laid (params : List Param) (positional : List α) (done : List (String × α))
    (slots : List (Slot α)) : Prop where
  length : slots.length = params.length
  fixed : ∀ (i : Nat) (p : Param), params[i]? = some p → p.variadic = false →
    slots[i]? = some (((positional[i]?).or (done.lookup p.name.lexeme)).elim omitted given)
  variadic : ∀ (i : Nat) (p : Param), params[i]? = some p → p.variadic = true →
    slots[i]? = some (collected (positional.drop (fixedCount params)))
  once : (slots.flatMap values).Perm (positional ++ done.map Prod.snd)

section

variable {params : List Param} {positional : List α} {done : List (String × α)}
  {slots : List (Slot α)}

/-- The positional arguments come first. -/
theorem laid_ofPositional (hlast : VariadicLast params)
    (hroom : ¬Arity.isVariadic params = true → positional.length ≤ params.length) :
    Laid params positional [] (ofPositional params positional) where
  length := length_ofPositional ..
  fixed i p hp hv := by
    rw [getElem?_ofPositional (lt_fixedCount hp hv), List.lookup_nil, Option.or_none]
  variadic i p hp hv := by
    have hfixed := hlast.fixedCount_eq hp hv
    -- A list of parameters that is not variadic has no parameter behind the fixed ones.
    have hvariadic : Arity.isVariadic params = true := by
      by_contra h
      have := (List.getElem?_eq_some_iff.1 hp).1
      rw [fixedCount, if_neg h] at hfixed
      omega
    rw [← hfixed, getElem?_ofPositional_fixedCount hvariadic]
  once := by rw [flatMap_ofPositional hroom, List.map_nil, List.append_nil]

/-- Where names are different, a parameter is the first one of its name. -/
theorem findIdx?_of_distinct (hdistinct : Param.Distinct params) {i : Nat} {p : Param}
    (hp : params[i]? = some p) : params.findIdx? (·.name.lexeme = p.name.lexeme) = some i := by
  obtain ⟨hi, rfl⟩ := List.getElem?_eq_some_iff.1 hp
  refine List.findIdx?_eq_some_iff_getElem.2 ⟨hi, decide_eq_true rfl, fun j hj hname => ?_⟩
  refine absurd ((List.getElem?_inj (by rw [List.length_map]; omega) hdistinct).1 ?_) (Nat.ne_of_lt hj)
  rw [List.getElem?_map, List.getElem?_map, hp, List.getElem?_eq_getElem (Nat.lt_trans hj hi),
    Option.map_some, Option.map_some, of_decide_eq_true hname]

/-- The slot of a parameter is free if it has no argument so far. -/
theorem Laid.isOmitted_iff (h : Laid params positional done slots) {i : Nat} {p : Param}
    (hp : params[i]? = some p) (hv : p.variadic = false) :
    slots[i]?.all isOmitted = true ↔
      positional.length ≤ i ∧ ∀ q ∈ done, q.1 ≠ p.name.lexeme := by
  rw [h.fixed i p hp hv, Option.all_some]
  have hlookup : done.lookup p.name.lexeme = none ↔ ∀ q ∈ done, q.1 ≠ p.name.lexeme := by
    grind [List.lookup_eq_none_iff]
  rw [← hlookup, ← List.getElem?_eq_none_iff]
  cases positional[i]? <;> cases done.lookup p.name.lexeme <;>
    simp [isOmitted]

/-- A named argument that finds a slot takes it. -/
theorem Laid.takes_of_fill (h : Laid params positional done slots) {name : String} {value : α}
    {next : List (Slot α)} (hfill : fill params slots name value = .ok next) :
    Takes params positional.length done name ∧
      ∃ i p, params[i]? = some p ∧ p.name.lexeme = name ∧ p.variadic = false ∧
        slots[i]?.all isOmitted = true ∧ next = slots.set i (given value) := by
  unfold fill at hfill
  split at hfill
  · cases hfill
  · next i hfind =>
    -- The first parameter of that name is the only one that counts.
    obtain ⟨hi, hname, -⟩ := List.findIdx?_eq_some_iff_getElem.1 hfind
    have hp := List.getElem?_eq_getElem hi
    have hname := of_decide_eq_true hname
    split at hfill
    · cases hfill
    · next hv =>
      rw [hp, Option.any_some, Bool.not_eq_true] at hv
      split at hfill
      · next hfree =>
        -- A free slot has no positional argument and no earlier named one.
        cases hfill
        obtain ⟨hcount, hnew⟩ := (h.isOmitted_iff hp hv).1 hfree
        exact ⟨⟨i, _, hp, hname, hv, hcount, hname ▸ hnew⟩, i, _, hp, hname, hv, hfree, rfl⟩
      · cases hfill

/-- A named argument that can take a slot finds it. -/
theorem Laid.fill_of_takes (h : Laid params positional done slots)
    (hdistinct : Param.Distinct params) {name : String} (value : α)
    (htakes : Takes params positional.length done name) :
    ∃ next, fill params slots name value = .ok next := by
  obtain ⟨i, p, hp, rfl, hv, hcount, hnew⟩ := htakes
  unfold fill
  rw [findIdx?_of_distinct hdistinct hp]
  dsimp only
  rw [hp, Option.any_some, if_neg (by rw [hv]; exact Bool.false_ne_true),
    if_pos ((h.isOmitted_iff hp hv).2 ⟨hcount, hnew⟩)]
  exact ⟨_, rfl⟩

/-- A value in an empty slot is one more value. -/
theorem perm_flatMap_set {i : Nat} (hi : i < slots.length) (hfree : slots[i].isOmitted = true)
    (value : α) :
    ((slots.set i (given value)).flatMap values).Perm (slots.flatMap values ++ [value]) := by
  have hempty : values slots[i] = [] := by
    cases hslot : slots[i] with
    | omitted => rfl
    | given => rw [hslot] at hfree; cases hfree
    | collected => rw [hslot] at hfree; cases hfree
  -- The slots fall into those in front, the empty one and those behind.
  have hsplit : slots = slots.take i ++ slots[i] :: slots.drop (i + 1) := by
    rw [List.getElem_cons_drop, List.take_append_drop]
  rw [List.set_eq_take_append_cons_drop, if_pos hi, List.flatMap_append, List.flatMap_cons]
  conv => rhs; rw [hsplit, List.flatMap_append, List.flatMap_cons, hempty]
  rw [List.nil_append, List.append_assoc]
  exact List.Perm.append_left _ List.perm_append_comm

/-- A named argument adds itself to what the slots hold. -/
theorem Laid.fill (h : Laid params positional done slots) (hdistinct : Param.Distinct params)
    {name : String} {value : α} {next : List (Slot α)}
    (hfill : Slot.fill params slots name value = .ok next) :
    Laid params positional (done ++ [(name, value)]) next := by
  obtain ⟨-, i, p, hp, rfl, hv, hfree, rfl⟩ := h.takes_of_fill hfill
  obtain ⟨hcount, hnew⟩ := (h.isOmitted_iff hp hv).1 hfree
  have hi : i < slots.length := h.length ▸ (List.getElem?_eq_some_iff.1 hp).1
  refine ⟨by rw [List.length_set, h.length], fun j q hq hqv => ?_, fun j q hq hqv => ?_, ?_⟩
  · by_cases hij : i = j
    · -- The slot of the argument was empty.
      subst hij
      cases hp.symm.trans hq
      have hdone : done.lookup p.name.lexeme = none := by
        grind [List.lookup_eq_none_iff]
      rw [List.getElem?_set_self hi, List.getElem?_eq_none hcount, Option.none_or,
        List.lookup_append, hdone, Option.none_or]
      simp
    · have hne : (q.name.lexeme == p.name.lexeme) = false := by
        refine beq_eq_false_iff_ne.2 fun heq => hij ?_
        exact Option.some.inj ((findIdx?_of_distinct hdistinct hp).symm.trans
          (heq ▸ findIdx?_of_distinct hdistinct hq))
      rw [List.getElem?_set_ne hij, h.fixed j q hq hqv, List.lookup_append, List.lookup_cons, hne,
        List.lookup_nil, Option.or_none]
  · have hij : i ≠ j := by
      rintro rfl
      cases hp.symm.trans hq
      exact Bool.false_ne_true (hv.symm.trans hqv)
    rw [List.getElem?_set_ne hij, h.variadic j q hq hqv]
  · rw [List.getElem?_eq_getElem hi, Option.all_some] at hfree
    rw [List.map_append, ← List.append_assoc]
    exact (perm_flatMap_set hi hfree value).trans (h.once.append_right _)

/-- The named arguments find slots if and only if each of them takes one behind those before it. -/
theorem Laid.fillAll (h : Laid params positional done slots) (hdistinct : Param.Distinct params)
    (named : List (String × α)) :
    (∀ filled, named.foldlM (fun slots (name, value) => Slot.fill params slots name value) slots =
        .ok filled → Laid params positional (done ++ named) filled) ∧
      ((∃ filled, named.foldlM (fun slots (name, value) => Slot.fill params slots name value) slots =
          .ok filled) ↔
        ∀ earlier name value later, named = earlier ++ (name, value) :: later →
          Takes params positional.length (done ++ earlier) name) := by
  induction named generalizing done slots with
  | nil =>
    refine ⟨fun filled hfilled => ?_,
      ⟨fun _ earlier name value later hnil => ?_, fun _ => ⟨_, rfl⟩⟩⟩
    · cases hfilled
      rwa [List.append_nil]
    · cases earlier <;> cases hnil
  | cons q rest ih =>
    obtain ⟨name, value⟩ := q
    rw [List.foldlM_cons]
    dsimp only
    cases hfill : Slot.fill params slots name value with
    | error m =>
      -- An argument that takes a slot is never refused one.
      refine ⟨fun filled hfilled => (by cases hfilled),
        ⟨fun ⟨_, hfilled⟩ => (by cases hfilled), fun hall => ?_⟩⟩
      obtain ⟨next, hnext⟩ := h.fill_of_takes hdistinct value
        (List.append_nil done ▸ hall [] name value rest rfl)
      rw [hfill] at hnext
      cases hnext
    | ok next =>
      obtain ⟨hlaid, hiff⟩ := ih (h.fill hdistinct hfill)
      simp only [List.append_assoc, List.singleton_append] at hlaid hiff
      refine ⟨hlaid, hiff.trans ⟨fun hall earlier name' value' later heq => ?_,
        fun hall earlier name' value' later heq => ?_⟩⟩
      · cases earlier with
        | nil =>
          cases heq
          exact (List.append_nil done).symm ▸ (h.takes_of_fill hfill).1
        | cons r earlier =>
          obtain ⟨rfl, hrest⟩ := List.cons.inj heq
          exact hall earlier name' value' later hrest
      · exact hall ((name, value) :: earlier) name' value' later (congrArg _ heq)

/-! ### Missing arguments -/

/-- No argument is missing if and only if every parameter that needs one has one. -/
theorem Laid.missing_iff (h : Laid params positional done slots) (hlast : VariadicLast params) :
    missing? params slots = none ↔ Supplied params positional.length done := by
  have hfind : missing? params slots = none ↔ ∀ i p slot, i < fixedCount params →
      params[i]? = some p → slots[i]? = some slot →
      ¬(slot.isOmitted && p.defaultValue.isNone) = true := by
    rw [missing?, Option.map_eq_none_iff, List.find?_eq_none]
    constructor
    · intro hall i p slot hi hp hslot
      refine hall (p, slot) (List.mem_of_getElem? (i := i) ?_)
      rw [List.getElem?_take_of_lt hi, List.getElem?_zip_eq_some]
      exact ⟨hp, hslot⟩
    · rintro hall ⟨p, slot⟩ hmem
      obtain ⟨i, hi⟩ := List.mem_iff_getElem?.1 hmem
      rw [List.getElem?_take] at hi
      split at hi
      · next hlt =>
        obtain ⟨hp, hslot⟩ := List.getElem?_zip_eq_some.1 hi
        exact hall i p slot hlt hp hslot
      · cases hi
  rw [hfind]
  constructor
  · intro hall i p hp hv hdefault
    have hi : i < slots.length := h.length ▸ (List.getElem?_eq_some_iff.1 hp).1
    have hslot := List.getElem?_eq_getElem hi
    have hnot := mt (h.isOmitted_iff hp hv).2 fun hfree => by
      rw [hslot, Option.all_some] at hfree
      refine hall i p _ (lt_fixedCount hp hv) hp hslot ?_
      rw [hfree, hdefault]
      rfl
    grind
  · intro hsupplied i p slot hi hp hslot hmissing
    rw [Bool.and_eq_true] at hmissing
    have hv : p.variadic = false := by
      -- A variadic parameter stands behind the fixed ones.
      rw [← Bool.not_eq_true]
      exact fun hv => Nat.lt_irrefl i (hlast.fixedCount_eq hp hv ▸ hi)
    have hfree : slots[i]?.all isOmitted = true := by
      rw [hslot, Option.all_some]
      exact hmissing.1
    obtain ⟨hcount, hnone⟩ := (h.isOmitted_iff hp hv).1 hfree
    obtain hlt | ⟨q, hq, hname⟩ := hsupplied i p hp hv (Option.isNone_iff_eq_none.1 hmissing.2)
    · exact Nat.not_lt_of_le hcount hlt
    · exact hnone q hq hname

/-- No name is given twice. -/
theorem Placed.lookup_eq {count : Nat} (h : Placed params count done) {name : String} {a : α}
    (ha : (name, a) ∈ done) : done.lookup name = some a := by
  obtain ⟨earlier, later, rfl⟩ := List.append_of_mem ha
  obtain ⟨_, _, _, _, _, _, hnew⟩ := h earlier name a later rfl
  have hearlier : earlier.lookup name = none := by
    grind [List.lookup_eq_none_iff]
  rw [List.lookup_append, hearlier, Option.none_or, List.lookup_cons_self]

/-- The slots at the end of a call. -/
theorem Laid.holds (h : Laid params positional done slots)
    (hplaced : Placed params positional.length done)
    (hsupplied : Supplied params positional.length done) :
    Holds params positional done slots where
  length := h.length
  byPosition i p a hp hv ha := by rw [h.fixed i p hp hv, ha, Option.some_or, Option.elim_some]
  byName i p a hp hv hcount ha := by
    rw [h.fixed i p hp hv, List.getElem?_eq_none hcount, Option.none_or, hplaced.lookup_eq ha]
    rfl
  omitted i p hp hv hcount hnew := by
    -- Nothing fills the slot by name, so only the default can.
    have hlookup : done.lookup p.name.lexeme = none := by
      grind [List.lookup_eq_none_iff]
    refine ⟨by rw [h.fixed i p hp hv, List.getElem?_eq_none hcount, hlookup]; rfl, ?_⟩
    cases hdefault : p.defaultValue with
    | some => rfl
    | none =>
      obtain hlt | ⟨q, hq, hname⟩ := hsupplied i p hp hv hdefault
      · exact absurd hlt (Nat.not_lt_of_le hcount)
      · exact absurd hname (hnew q hq)
  variadic := h.variadic
  once := h.once

end

/-! ### Calls -/

/-- The arguments of a call find slots if and only if every named argument takes one and no
parameter without a default is left out. The slots then hold all arguments, each of them once. -/
theorem ofArguments_holds {params : List Param} {positional : List α} {named : List (String × α)}
    (hdistinct : Param.Distinct params) (hlast : VariadicLast params)
    (hcount : (Arity.ofParams params).admits (positional.length + named.length) = true) :
    ((∃ slots, ofArguments params positional named = .ok slots) ↔
        Placed params positional.length named ∧ Supplied params positional.length named) ∧
      ∀ slots, ofArguments params positional named = .ok slots →
        Holds params positional named slots := by
  have hstart : Laid params positional [] (ofPositional params positional) :=
    laid_ofPositional hlast (length_le_of_admits hcount)
  obtain ⟨hlaid, hiff⟩ := hstart.fillAll hdistinct named
  simp only [List.nil_append] at hlaid hiff
  cases hfold : named.foldlM (fun slots (name, value) => fill params slots name value)
      (ofPositional params positional) with
  | error m =>
    -- A refused named argument took no slot, so not all are placed.
    rw [ofArguments_of_unfilled hfold]
    refine ⟨⟨fun ⟨_, h⟩ => (by cases h), fun ⟨hplaced, _⟩ => ?_⟩, fun _ h => (by cases h)⟩
    obtain ⟨_, hfilled⟩ := hiff.2 hplaced
    rw [hfold] at hfilled
    cases hfilled
  | ok filled =>
    have hfilled := hlaid filled hfold
    have hplaced : Placed params positional.length named := hiff.1 ⟨filled, hfold⟩
    have hmissing := hfilled.missing_iff hlast
    rw [ofArguments_of_filled hfold]
    cases hfind : missing? params filled with
    | some p =>
      -- A parameter without an argument and without a default is reported.
      refine ⟨⟨fun ⟨_, h⟩ => (by cases h), fun ⟨_, hsupplied⟩ => ?_⟩, fun _ h => (by cases h)⟩
      rw [hmissing.2 hsupplied] at hfind
      cases hfind
    | none =>
      have hsupplied := hmissing.1 hfind
      refine ⟨⟨fun _ => ⟨hplaced, hsupplied⟩, fun _ => ⟨filled, rfl⟩⟩, fun slots hslots => ?_⟩
      cases hslots
      exact hfilled.holds hplaced hsupplied

/-- Of parameters `a`, `b` and `c` with a default and `...rest`, a call gives `a` by position and
`c` by name. -/
theorem ofArguments_holds_by_name :
    let params : List Param :=
      [.required "Object" "a",
        { Param.required "Object" "b" with defaultValue := some default },
        { Param.required "Object" "c" with defaultValue := some default },
        .rest "Object" "rest"]
    Param.Distinct params ∧ VariadicLast params ∧ (Arity.ofParams params).admits 2 = true ∧
      Placed params 1 [("c", 3)] ∧ Supplied params 1 [("c", 3)] ∧
      Holds params [1] [("c", 3)] [given 1, omitted, given 3, collected []] := by
  intro params
  have hdistinct : Param.Distinct params := by
    unfold Param.Distinct
    decide
  -- Only the last of the four parameters is variadic.
  have hlast : VariadicLast params
    | 0, _, hp, hv | 1, _, hp, hv | 2, _, hp, hv => by cases hp; cases hv
    | 3, _, _, _ => rfl
    | _ + 4, _, hp, _ => by cases hp
  have hcount : (Arity.ofParams params).admits 2 = true := by decide
  have hslots : ofArguments params [1] [("c", 3)] =
      .ok [given 1, omitted, given 3, collected []] := rfl
  obtain ⟨hiff, hholds⟩ := @ofArguments_holds Nat params [1] [("c", 3)] hdistinct hlast hcount
  obtain ⟨hplaced, hsupplied⟩ := hiff.1 ⟨_, hslots⟩
  exact ⟨hdistinct, hlast, hcount, hplaced, hsupplied, hholds _ hslots⟩

end ClassScript.Slot
