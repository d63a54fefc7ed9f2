import ClassScript.Machine.Error
import ClassScript.Proofs.Typing.Follows

/-!
# The checker and the machine match arguments alike

The machine lays the arguments of a call out in slots, one for each parameter, and an empty slot
marks a parameter without an argument. The checker keeps a list of the parameters that have one.
Both look at the arguments in the same order, so that one relation between the list and the slots,
`Marks`, leads from the positional arguments through the named ones to the same verdict. Where the
arguments are of the right types, the checker accepts the calls that the machine can match, and it
rejects the others for the same reason.
-/

namespace ClassScript

/-- The parameters have different names. -/
def Param.Distinct (params : List Param) : Prop := (params.map (·.name.lexeme)).Nodup

namespace Typing.Check

variable {α : Type} {params : List Param} {given : List Nat} {slots : List (Slot α)}

/-! ### Parameters by name -/

/-- Where names are different, the last parameter of a name is the first one. -/
theorem paramIndex?_eq (h : Param.Distinct params) (name : String) :
    paramIndex? params name = params.findIdx? (·.name.lexeme = name) := by
  unfold paramIndex?
  cases hfind : params.findIdx? (·.name.lexeme = name) with
  | none =>
    have hnone : params.zipIdx.filter (·.1.name.lexeme = name) = [] := by
      refine List.filter_eq_nil_iff.2 fun q hq => ?_
      rw [List.findIdx?_eq_none_iff.1 hfind q.1 (List.fst_mem_of_mem_zipIdx hq)]
      exact Bool.false_ne_true
    rw [hnone]
    rfl
  | some i =>
    obtain ⟨hi, hname, -⟩ := List.findIdx?_eq_some_iff_getElem.1 hfind
    have hmem : (params[i], i) ∈ params.zipIdx.filter (·.1.name.lexeme = name) :=
      List.mem_filter.2 ⟨List.mem_zipIdx_iff_getElem?.2 (List.getElem?_eq_getElem hi), hname⟩
    rw [List.getLast?_eq_getLast_of_ne_nil (List.ne_nil_of_mem hmem), Option.map_some]
    obtain ⟨hlast, hq⟩ := List.mem_filter.1 (List.getLast_mem (List.ne_nil_of_mem hmem))
    -- Both parameters have the name, so that they are the same.
    refine congrArg some ((List.getElem?_inj (by rwa [List.length_map]) h).1 ?_).symm
    rw [List.getElem?_map, List.getElem?_map, List.getElem?_eq_getElem hi,
      List.mem_zipIdx_iff_getElem?.1 hlast, Option.map_some, Option.map_some,
      of_decide_eq_true hname, of_decide_eq_true hq]

/-- A parameter that is not variadic stands in front of a variadic one. -/
theorem lt_fixedCount {p : Nat} {param : Param} (hp : params[p]? = some param)
    (hv : param.variadic = false) : p < fixedCount params := by
  obtain ⟨hlt, rfl⟩ := List.getElem?_eq_some_iff.1 hp
  unfold fixedCount
  split
  · next hvariadic =>
    -- The variadic parameter is the last one, and this one is not variadic.
    refine Nat.lt_of_le_of_ne (by omega) ?_
    rintro rfl
    rw [Arity.isVariadic, List.getLast?_eq_getElem?, List.getElem?_eq_getElem hlt] at hvariadic
    exact Bool.false_ne_true (hv.symm.trans hvariadic)
  · exact hlt

/-! ### Parameters with an argument -/

/-- The list of the parameters with an argument says the same as the slots: a parameter in front of
a variadic one is in the list unless its slot is empty. -/
def Marks (params : List Param) (given : List Nat) (slots : List (Slot α)) : Prop :=
  ∀ p < fixedCount params, slots[p]?.map Slot.isOmitted = some (!given.contains p)

/-- A parameter that gets an argument gets it on both sides. -/
theorem Marks.fill (h : Marks params given slots) {p : Nat} (hp : p < fixedCount params)
    (value : α) : Marks params (p :: given) (slots.set p (.given value)) := by
  intro q hq
  by_cases hqp : p = q
  · subst hqp
    have hlt : p < slots.length := by
      have := h p hp
      grind
    simp [hlt, Slot.isOmitted]
  · rw [List.getElem?_set_ne hqp, h q hq, List.contains_cons]
    simp [Ne.symm hqp]

/-- The positional arguments fill the first slots. -/
theorem isOmitted_ofPositional {values : List α} {p : Nat} (hp : p < fixedCount params) :
    ((Slot.ofPositional params values)[p]?).map Slot.isOmitted =
      some (!decide (p < values.length)) := by
  unfold Slot.ofPositional
  grind [Slot.isOmitted]

/-- The parameters in front of a variadic one, with whether they have no argument. -/
theorem Marks.flags (h : Marks params given slots) :
    ((params.take (fixedCount params)).zipIdx).map (fun (p, i) => (p, !given.contains i)) =
      ((params.zip slots).take (fixedCount params)).map fun (p, s) => (p, s.isOmitted) := by
  refine List.ext_getElem? fun i => ?_
  have := h i
  grind

/-- A search for a flagged parameter without a default looks at nothing but the flags. -/
theorem find?_flagged {β : Type} (l : List (Param × β)) (flag : β → Bool) :
    (l.find? fun (p, b) => flag b && p.defaultValue.isNone).map Prod.fst =
      ((l.map fun (p, b) => (p, flag b)).find? fun (p, b) =>
        b && p.defaultValue.isNone).map Prod.fst := by
  rw [List.find?_map, Option.map_map]
  rfl

/-- Both look for the same missing argument. -/
theorem Marks.missing (h : Marks params given slots) :
    (((params.take (fixedCount params)).zipIdx).find? fun (p, i) =>
        !given.contains i && p.defaultValue.isNone).map Prod.fst =
      Slot.missing? params slots := by
  rw [find?_flagged _ fun i => !given.contains i, h.flags, Slot.missing?,
    find?_flagged _ Slot.isOmitted]

/-! ### Arguments of the right types -/

/-- A value of a type may be passed for the parameter at an index. -/
def Fits (s : Checker) (sig : Signature) (p : Nat) (arg : Ty) : Prop :=
  ∀ want, sig.paramTypes[p]? = some want → s.assignable? (some want) (some arg) = some true

/-- All arguments of a call are of the types of their parameters. -/
structure ArgumentsFit (s : Checker) (sig : Signature) (args : List Ty)
    (named : List (Token × Ty)) : Prop where
  /-- A positional argument behind the fixed parameters belongs to the variadic one. -/
  positional : ∀ i arg, args[i]? = some arg → Fits s sig (min i (fixedCount sig.params)) arg
  /-- A named argument belongs to the parameter of its name. -/
  named : ∀ q ∈ named, ∀ p, paramIndex? sig.params q.1.lexeme = some p → Fits s sig p q.2

variable {s : Checker} {sig : Signature} (site : Token)

/-- An argument that fits its parameter is accepted. -/
theorem argument_of_fits (htypes : sig.paramTypes.length = sig.params.length) {p : Nat} {arg : Ty}
    (hp : p < sig.params.length) (h : Fits s sig p arg) : argument site sig p arg s = .ok () s := by
  obtain ⟨want, hwant⟩ : ∃ want, sig.paramTypes[p]? = some want :=
    ⟨_, List.getElem?_eq_getElem (htypes ▸ hp)⟩
  unfold argument
  rw [hwant, List.getElem?_eq_getElem hp]
  dsimp only
  rw [bind_apply, answer_apply, h want hwant]
  rfl

/-- The number of arguments is within the bounds, so every positional one has a parameter. -/
theorem min_fixedCount_lt {count i : Nat} (h : (Arity.ofParams params).admits count = true)
    (hi : i < count) : min i (fixedCount params) < params.length := by
  unfold Arity.admits Arity.ofParams at h
  unfold fixedCount
  -- A variadic parameter takes all arguments that are left; without one their number is bounded.
  split at h
  · next hv =>
    have hne : params ≠ [] := by
      rintro rfl
      cases hv
    have := List.length_pos_iff.2 hne
    rw [if_pos hv]
    omega
  · next hv =>
    have hle : count ≤ params.length := by simpa using (Bool.and_eq_true_iff.1 h).2
    omega

/-- The positional arguments from an index on mark the parameters from that index on. -/
theorem positional_of_fits (htypes : sig.paramTypes.length = sig.params.length) {args : List Ty}
    (i : Nat)
    (hfits : ∀ j arg, args[j]? = some arg → Fits s sig (min (i + j) (fixedCount sig.params)) arg)
    (hlt : ∀ j < args.length, min (i + j) (fixedCount sig.params) < sig.params.length)
    (given : List Nat) :
    ∃ given', positional site sig i args given s = .ok given' s ∧
      ∀ p < fixedCount sig.params,
        given'.contains p = (given.contains p || decide (i ≤ p ∧ p < i + args.length)) := by
  -- On the arguments; the index and the marks go along.
  induction args generalizing i given with
  | nil =>
    refine ⟨given, rfl, fun p _ => ?_⟩
    grind
  | cons arg rest ih =>
    -- From the first variadic place on, all arguments go to that parameter.
    have hhead : argument site sig (min i (fixedCount sig.params)) arg s = .ok () s :=
      argument_of_fits site htypes (hlt 0 (by simp)) (hfits 0 arg rfl)
    obtain ⟨given', hrun, hgiven⟩ := ih (i + 1)
      (fun j a ha => by simpa [Nat.add_assoc, Nat.add_comm 1] using hfits (j + 1) a ha)
      (fun j hj => by simpa [Nat.add_assoc, Nat.add_comm 1] using hlt (j + 1) (by simpa using hj))
      (min i (fixedCount sig.params) :: given)
    refine ⟨given', ?_, fun p hp => ?_⟩
    · rw [positional, bind_apply, hhead]
      exact hrun
    · rw [hgiven p hp]
      grind

/-- One named argument: the checker marks the parameter whose slot the machine fills, and rejects
an argument that has no slot. -/
theorem byName_cons (hdistinct : Param.Distinct sig.params)
    (htypes : sig.paramTypes.length = sig.params.length) (hmarks : Marks sig.params given slots)
    {name : Token} {arg : Ty} (rest : List (Token × Ty))
    (hfits : ∀ p, paramIndex? sig.params name.lexeme = some p → Fits s sig p arg) (value : α) :
    match Slot.fill sig.params slots name.lexeme value with
    | .ok slots' => ∃ given', Marks sig.params given' slots' ∧
        byName sig ((name, arg) :: rest) given s = byName sig rest given' s
    | .error m =>
        byName sig ((name, arg) :: rest) given s = .error (.rejected ⟨name, .mismatch m⟩) s := by
  rw [byName, paramIndex?_eq hdistinct, Slot.fill]
  rw [paramIndex?_eq hdistinct] at hfits
  -- A name that no parameter has, one that is variadic, one that was given, and one that is free.
  cases hfind : sig.params.findIdx? (·.name.lexeme = name.lexeme) with
  | none => rfl
  | some p =>
    obtain ⟨hp, -, -⟩ := List.findIdx?_eq_some_iff_getElem.1 hfind
    dsimp only
    by_cases hvariadic : sig.params[p]?.any (·.variadic) = true
    · rw [if_pos hvariadic, if_pos hvariadic]
      rfl
    · rw [if_neg hvariadic, if_neg hvariadic]
      have hfixed : p < fixedCount sig.params := by
        refine lt_fixedCount (List.getElem?_eq_getElem hp) ?_
        rw [List.getElem?_eq_getElem hp] at hvariadic
        exact Bool.eq_false_iff.2 hvariadic
      -- The mark of the checker and the slot of the machine say the same of a fixed parameter.
      have hslot : slots[p]?.all Slot.isOmitted = !given.contains p := by
        have := hmarks p hfixed
        grind
      rw [hslot]
      cases hgiven : given.contains p with
      | true => rfl
      | false =>
        refine ⟨p :: given, hmarks.fill hfixed value, ?_⟩
        change (argument name sig p arg >>= fun _ => byName sig rest (p :: given)) s = _
        rw [bind_apply, argument_of_fits name htypes hp (hfits p hfind)]

/-- All named arguments, in the order of the call. -/
theorem byName_agrees (hdistinct : Param.Distinct sig.params)
    (htypes : sig.paramTypes.length = sig.params.length) {named : List (Token × Ty)}
    {values : List (String × α)} (hnames : values.map Prod.fst = named.map (·.1.lexeme))
    (hfits : ∀ q ∈ named, ∀ p, paramIndex? sig.params q.1.lexeme = some p → Fits s sig p q.2)
    (hmarks : Marks sig.params given slots) :
    match values.foldlM (fun slots (name, value) => Slot.fill sig.params slots name value)
        slots with
    | .ok slots' => ∃ given', byName sig named given s = .ok given' s ∧
        Marks sig.params given' slots'
    | .error m => ∃ name, byName sig named given s = .error (.rejected ⟨name, .mismatch m⟩) s := by
  -- On the arguments: the first one that is rejected ends both rows with its mismatch.
  induction named generalizing values given slots with
  | nil =>
    obtain rfl := List.map_eq_nil_iff.1 hnames
    exact ⟨given, rfl, hmarks⟩
  | cons q rest ih =>
    obtain ⟨name, arg⟩ := q
    obtain ⟨⟨_, value⟩, values, rfl, rfl, hrest⟩ := List.map_eq_cons_iff.1 hnames
    have hstep := byName_cons hdistinct htypes hmarks rest (hfits _ List.mem_cons_self) value
    rw [List.foldlM_cons]
    dsimp only
    cases hfill : Slot.fill sig.params slots name.lexeme value with
    | error m =>
      rw [hfill] at hstep
      exact ⟨name, hstep⟩
    | ok slots' =>
      rw [hfill] at hstep
      obtain ⟨given', hmarks', heq⟩ := hstep
      rw [heq]
      exact ih hrest (fun q hq => hfits q (List.mem_cons_of_mem _ hq)) hmarks'

section Calls

variable {args : List Ty} {named : List (Token × Ty)} {values : List α}
  {namedValues : List (String × α)}

/-- Once the positional arguments are marked, the named ones and the missing ones decide. -/
theorem arguments_agree (hdistinct : Param.Distinct sig.params)
    (htypes : sig.paramTypes.length = sig.params.length) (hfit : ArgumentsFit s sig args named)
    (hcount : values.length = args.length)
    (hnames : namedValues.map Prod.fst = named.map (·.1.lexeme)) :
    match Slot.ofCall sig.params values namedValues with
    | .ok _ => arguments site sig args named s = .ok () s
    | .error m => ∃ token,
        arguments site sig args named s = .error (.rejected ⟨token, .mismatch m⟩) s := by
  have hlength : namedValues.length = named.length := by
    simpa only [List.length_map] using congrArg List.length hnames
  unfold Slot.ofCall arguments
  dsimp only
  rw [hcount, hlength]
  cases hadmits : (Arity.ofParams sig.params).admits (args.length + named.length) with
  | false => exact ⟨site, rfl⟩
  | true =>
    -- The positional arguments mark the parameters that the machine fills with them.
    obtain ⟨given, hpositional, hgiven⟩ := positional_of_fits (s := s) site htypes 0
      (fun i arg h => by simpa using hfit.positional i arg h)
      (fun i hi => by simpa using min_fixedCount_lt hadmits (show i < _ by omega)) []
    have hmarks : Marks sig.params given (Slot.ofPositional sig.params values) := by
      intro p hp
      rw [isOmitted_ofPositional hp, hgiven p hp, hcount]
      simp
    -- From there on both go through the named arguments in step.
    have hnamed := byName_agrees hdistinct htypes hnames hfit.named hmarks
    simp only [if_true]
    cases hslots : namedValues.foldlM
        (fun slots (name, value) => Slot.fill sig.params slots name value)
        (Slot.ofPositional sig.params values) with
    | error m =>
      rw [hslots] at hnamed
      obtain ⟨name, hbyName⟩ := hnamed
      rw [Slot.ofArguments_of_unfilled hslots]
      refine ⟨name, ?_⟩
      rw [bind_apply, hpositional]
      dsimp only
      rw [bind_apply, hbyName]
    | ok slots =>
      rw [hslots] at hnamed
      obtain ⟨given', hbyName, hmarks'⟩ := hnamed
      rw [Slot.ofArguments_of_filled hslots, ← hmarks'.missing, bind_apply, hpositional]
      dsimp only
      rw [bind_apply, hbyName]
      dsimp only
      cases (sig.params.take (fixedCount sig.params)).zipIdx.find? fun x =>
          !given'.contains x.2 && x.1.defaultValue.isNone with
      | none => rfl
      | some p => exact ⟨site, rfl⟩

/-- The checker accepts a call with arguments of the right types if and only if the machine can
match its arguments to the parameters, and otherwise both say the same. -/
theorem arguments_match_like_machine (hdistinct : Param.Distinct sig.params)
    (htypes : sig.paramTypes.length = sig.params.length) (hfit : ArgumentsFit s sig args named)
    (values : List α) (hcount : values.length = args.length) (namedValues : List (String × α))
    (hnames : namedValues.map Prod.fst = named.map (·.1.lexeme)) :
    (arguments site sig args named s = .ok () s ↔
        ∃ slots, Slot.ofCall sig.params values namedValues = .ok slots) ∧
      ∀ m, Slot.ofCall sig.params values namedValues = .error m →
        ∃ e, arguments site sig args named s = .error (.rejected e) s ∧
          e.fault.message = (Cause.mismatch m).message := by
  have hagree := arguments_agree site hdistinct htypes hfit hcount hnames
  -- What the machine does with the values decides on both sides.
  cases hcall : Slot.ofCall sig.params values namedValues with
  | ok slots =>
    rw [hcall] at hagree
    exact ⟨⟨fun _ => ⟨slots, rfl⟩, fun _ => hagree⟩, fun m hm => by cases hm⟩
  | error m =>
    rw [hcall] at hagree
    obtain ⟨token, hrejected⟩ := hagree
    refine ⟨⟨fun hok => ?_, fun ⟨_, h⟩ => by cases h⟩, ?_⟩
    · rw [hrejected] at hok
      cases hok
    · rintro _ ⟨⟩
      exact ⟨⟨token, .mismatch m⟩, hrejected, rfl⟩

/-- Of parameters `a`, `b` with a default and `...rest`, a call gives `a` twice, by position and by
name. -/
theorem arguments_match_like_machine_twice :
    let sig : Signature :=
      { name := "f"
        params := [.required "Object" "a",
          { Param.required "Object" "b" with defaultValue := some default },
          .rest "Object" "rest"]
        paramTypes := List.replicate 3 objectType
        returns := none }
    Param.Distinct sig.params ∧
      ArgumentsFit {} sig [objectType] [(.synthetic "a", objectType)] ∧
      Slot.ofCall sig.params [()] [("a", ())] = .error (.twice "a") ∧
      ∃ e, arguments .absent sig [objectType] [(.synthetic "a", objectType)] {} =
          .error (.rejected e) {} ∧
        e.fault.message = (Cause.mismatch (.twice "a")).message := by
  intro sig
  -- All the types are that of any object, so every argument fits.
  have hfits : ∀ p, Fits {} sig p objectType := fun p want h => by
    rw [List.eq_of_mem_replicate (List.mem_of_getElem? h)]
    rfl
  have hfit : ArgumentsFit {} sig [objectType] [(.synthetic "a", objectType)] :=
    ⟨fun i arg h => List.mem_singleton.1 (List.mem_of_getElem? h) ▸ hfits _,
      fun q hq p _ => List.mem_singleton.1 hq ▸ hfits p⟩
  have hdistinct : Param.Distinct sig.params := by
    unfold Param.Distinct
    decide
  have hcall : Slot.ofCall sig.params [()] [("a", ())] = .error (.twice "a") := rfl
  exact ⟨hdistinct, hfit, hcall,
    (arguments_match_like_machine .absent hdistinct rfl hfit [()] rfl [("a", ())] rfl).2 _ hcall⟩

end Calls

end Typing.Check

end ClassScript
