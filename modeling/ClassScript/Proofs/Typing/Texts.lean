import ClassScript.Proofs.Typing.Coherence

/-!
# Which types have a text

The text of a function type consists of the texts of its parameters and of its result. It ends
exactly if no function type within the type contains itself: one that does would have a text that is
a proper part of itself.
-/

namespace ClassScript.Typing.Checker

variable {s : Checker} {a : Option Ty}

/-! ### Parts with texts -/

/-- Parameters whose types have texts have texts. -/
theorem exists_paramTexts {text : Ty → Option String} {params : List (Param × Ty)}
    (h : ∀ p ∈ params, ∃ x, text p.2 = some x) : ∃ xs, paramTextsBy text params = some xs := by
  induction params with
  | nil => exact ⟨[], rfl⟩
  | cons param rest ih =>
    obtain ⟨hparam, hrest⟩ := List.forall_mem_cons.1 h
    obtain ⟨x, hx⟩ := hparam
    obtain ⟨xs, hxs⟩ := ih hrest
    refine ⟨_, Option.bind_eq_some_iff.2 ⟨x, hx, Option.bind_eq_some_iff.2 ⟨xs, hxs, rfl⟩⟩⟩

/-- A function has a text if the types of its parameters and its result have one. -/
theorem exists_text_of_parts {f : SignatureId}
    (h : ∀ u, s.Part u (.function f) → ∃ x, s.typeText? (some u) = some x) :
    ∃ x, s.typeText? (some (.function f)) = some x := by
  have hresult : ∃ x, resultTextBy (s.typeTextUpTo (s.signatures.size + 1))
      (s.signature f).returns = some x := by
    cases hr : (s.signature f).returns with
    | none => exact ⟨_, rfl⟩
    | some u => exact h u (.result hr)
  obtain ⟨x, hx⟩ := hresult
  have hparams : ∀ p ∈ (s.signature f).params.zip (s.signature f).paramTypes,
      ∃ x, s.typeTextUpTo (s.signatures.size + 1) p.2 = some x :=
    fun p hp => h p.2 (.param (List.of_mem_zip hp).2)
  obtain ⟨xs, hxs⟩ := exists_paramTexts hparams
  -- The texts of the parts are found with one level less than that of the whole.
  rw [← typeTextUpTo_eq_typeText? (n := s.signatures.size + 2) (by omega),
    typeTextUpTo_function_succ]
  exact ⟨_, Option.bind_eq_some_iff.2 ⟨xs, hxs, Option.bind_eq_some_iff.2 ⟨x, hx, rfl⟩⟩⟩

/-- Parameters with texts have types with texts. -/
theorem exists_text_of_mem {text : Ty → Option String} {params : List (Param × Ty)}
    {xs : List String} (h : paramTextsBy text params = some xs) {p : Param × Ty} (hp : p ∈ params) :
    ∃ x, text p.2 = some x := by
  induction params generalizing xs with
  | nil => cases hp
  | cons param rest ih =>
    obtain ⟨x, hx, hrest⟩ := Option.bind_eq_some_iff.1 h
    obtain ⟨others, hothers, -⟩ := Option.bind_eq_some_iff.1 hrest
    rcases List.mem_cons.1 hp with rfl | hp
    · exact ⟨x, hx⟩
    · exact ih hothers hp

/-- The parts of a function with a text have texts one level further down. -/
theorem exists_text_of_part (hs : Sized s.signatures) {n : Nat} {f : SignatureId} {x : String}
    (h : s.typeTextUpTo (n + 1) (.function f) = some x) {u : Ty} (hu : s.Part u (.function f)) :
    ∃ y, s.typeTextUpTo n u = some y := by
  rw [typeTextUpTo_function_succ] at h
  obtain ⟨params, hparams, hrest⟩ := Option.bind_eq_some_iff.1 h
  obtain ⟨result, hresult, -⟩ := Option.bind_eq_some_iff.1 hrest
  cases hu with
  | param hu =>
    -- A type among those of the parameters stands beside a parameter, since there are as many.
    obtain ⟨i, hi, rfl⟩ := List.mem_iff_getElem.1 hu
    have hi' : i < (s.signature f).params.length := hs.length_signature f ▸ hi
    have hmem : ((s.signature f).params[i], (s.signature f).paramTypes[i]) ∈
        (s.signature f).params.zip (s.signature f).paramTypes :=
      List.mem_iff_getElem.2 ⟨i, by simp [hi, hi'], List.getElem_zip⟩
    exact exists_text_of_mem hparams hmem
  | result hu =>
    rw [hu] at hresult
    exact ⟨result, hresult⟩

/-! ### Types that contain themselves -/

/-- From one function within a type that does not contain itself to another one within the first
there are finitely many steps. -/
theorem Founded.wellFounded {t : Ty} (h : s.Founded (some t)) :
    WellFounded fun f g : {f : Fin s.signatures.size //
      Relation.ReflTransGen s.Part (.function f) t} => s.Part (.function f.1) (.function g.1) := by
  let Inside : Type :=
    {f : Fin s.signatures.size // Relation.ReflTransGen s.Part (.function f) t}
  let r : Inside → Inside → Prop := fun f g =>
    Relation.TransGen s.Part (.function f.1) (.function g.1)
  have htrans : IsTrans Inside r := ⟨fun _ _ _ => .trans⟩
  have hirrefl : Std.Irrefl r := ⟨fun f => h t _ rfl f.2⟩
  have hr : WellFounded r := Finite.wellFounded_of_trans_of_irrefl r
  exact Subrelation.wf (fun hpart => .single hpart) hr

/-- A type that does not contain itself has a text. -/
theorem Founded.exists_text {a : Option Ty} (h : s.Founded a) : ∃ x, s.typeText? a = some x := by
  cases a with
  | none => exact ⟨_, rfl⟩
  | some t =>
    -- A function without a signature has no parts, so the induction is on those with one.
    have hout : ∀ f, s.signatures.size ≤ f → ∃ x, s.typeText? (some (.function f)) = some x := by
      refine fun f hf => exists_text_of_parts fun u hu => ?_
      cases hu <;> rename_i hu <;> rw [signature_of_le hf] at hu <;> cases hu
    have hin : ∀ f : {f : Fin s.signatures.size // Relation.ReflTransGen s.Part (.function f) t},
        ∃ x, s.typeText? (some (.function f.1)) = some x := by
      intro f
      induction f using h.wellFounded.induction with
      | _ f ih =>
        refine exists_text_of_parts fun u hu => ?_
        cases u with
        | «instance» c => exact ⟨_, rfl⟩
        | «class» c => exact ⟨_, rfl⟩
        | function g =>
          rcases Nat.lt_or_ge g s.signatures.size with hg | hg
          · exact ih ⟨⟨g, hg⟩, .head hu f.2⟩ hu
          · exact hout g hg
    cases t with
    | «instance» c => exact ⟨_, rfl⟩
    | «class» c => exact ⟨_, rfl⟩
    | function f =>
      rcases Nat.lt_or_ge f s.signatures.size with hf | hf
      · exact hin ⟨⟨f, hf⟩, .refl⟩
      · exact hout f hf

/-- From a type with a text there is no endless descent into its parts. -/
theorem acc_of_text (hs : Sized s.signatures) {n : Nat} {t : Ty} {x : String}
    (h : s.typeTextUpTo n t = some x) : Acc s.Part t := by
  induction n generalizing t x with
  | zero =>
    refine .intro t fun u hu => ?_
    cases hu <;> cases h
  | succ n ih =>
    refine .intro t fun u hu => ?_
    have hfunction : ∃ f, t = .function f := by cases hu <;> exact ⟨_, rfl⟩
    obtain ⟨f, rfl⟩ := hfunction
    obtain ⟨y, hy⟩ := exists_text_of_part hs h hu
    exact ih hy

/-- A type has a text exactly if no function type within it contains itself. -/
theorem founded_iff_exists_text (hs : Sized s.signatures) :
    s.Founded a ↔ ∃ x, s.typeText? a = some x := by
  refine ⟨fun h => h.exists_text, ?_⟩
  rintro ⟨x, hx⟩ t u rfl hu
  have hacc : Acc s.Part u := by
    induction hu using Relation.ReflTransGen.head_induction_on with
    | refl => exact acc_of_text hs hx
    | head hpart _ ih => exact ih.inv hpart
  -- A step from the type back to itself could be taken without end.
  have hirrefl : ∀ v, Acc (Relation.TransGen s.Part) v → ¬Relation.TransGen s.Part v v := by
    intro v hv
    induction hv with
    | intro v _ ih => exact fun hcycle => ih v hcycle hcycle
  exact hirrefl u hacc.transGen

/-- The text of a type has no end exactly if a function type within it contains itself. -/
theorem typeText?_eq_none_iff (hs : Sized s.signatures) : s.typeText? a = none ↔ ¬s.Founded a := by
  rw [founded_iff_exists_text hs, not_exists, Option.eq_none_iff_forall_ne_some]

end ClassScript.Typing.Checker
