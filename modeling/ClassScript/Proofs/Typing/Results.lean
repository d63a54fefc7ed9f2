import Mathlib.Data.List.Perm.Basic
import ClassScript.Proofs.Typing.Coherence
import ClassScript.Proofs.Typing.Widening

/-!
# The type of a function's result

The type of a result is settled from the types of the return statements, one after the other in
source order. It is the one that is above all of them, so the order does not change it. But an order
may have no result: each type has to be above or below the one that is settled on so far, and so
each beginning of the list has to have a type above the rest of it.
-/

namespace ClassScript.Typing

/-- The types of the results of a function, in source order. -/
def Context.results (c : Context) : List Ty := c.returns.reverse.map Prod.fst

/-- The context of a function with given types of results. -/
def Context.ofResults (types : List Ty) : Context :=
  { returns := (types.map fun t => (t, .synthetic "return")).reverse }

/-- A context of given results has these results. -/
@[simp] theorem Context.results_ofResults (types : List Ty) :
    (ofResults types).results = types := by
  simp [results, ofResults, Function.comp_def]

namespace Checker

/-- A type of a list that is above all of them. -/
def Tops (s : Checker) (t : Ty) (types : List Ty) : Prop :=
  t ∈ types ∧ ∀ u ∈ types, s.Above (some t) (some u)

variable {s : Checker} {T : Roster} {t u : Ty} {types types' : List Ty}

/-- A single type is above itself. -/
theorem tops_singleton (s : Checker) (t : Ty) : s.Tops t [t] :=
  ⟨List.mem_singleton.2 rfl, List.forall_mem_singleton.2 (.refl s _)⟩

/-- The types at the top of one list are the same. -/
theorem Tops.same (hT : ∀ t ∈ types, Knows T (some t)) (ht : s.Tops t types)
    (hu : s.Tops u types) : s.Same (some t) (some u) :=
  (ht.2 u hu.1).antisymm (hT t ht.1) (hT u hu.1) (hu.2 t ht.1)

/-- Which type is above all of a list does not depend on their order. -/
theorem Tops.of_mem_iff (h : s.Tops t types) (hmem : ∀ u, u ∈ types ↔ u ∈ types') :
    s.Tops t types' :=
  ⟨(hmem t).1 h.1, fun u hu => h.2 u ((hmem u).2 hu)⟩

/-- A list with a type at the top gets one more type. -/
theorem Tops.append_of_above (h : s.Tops t types) (hu : s.Above (some t) (some u)) :
    s.Tops t (types ++ [u]) :=
  ⟨List.mem_append_left _ h.1, List.forall_mem_append.2 ⟨h.2, List.forall_mem_singleton.2 hu⟩⟩

/-- A list gets a type above the one at the top. -/
theorem Tops.append_of_below (hT : T.law.Holds s) (hknown : ∀ t ∈ types, Knows T (some t))
    (hu : Knows T (some u)) (h : s.Tops t types) (habove : s.Above (some u) (some t)) :
    s.Tops u (types ++ [u]) := by
  refine ⟨List.mem_append_right _ (List.mem_singleton.2 rfl), List.forall_mem_append.2
    ⟨fun v hv => ?_, List.forall_mem_singleton.2 (.refl s _)⟩⟩
  exact habove.trans hT hu (hknown t h.1) (hknown v hv) (h.2 v hv)

/-- The type at the top of a list is comparable with a type if the list with that type has one at
the top. -/
theorem Tops.above_or_below (hT : T.law.Holds s) {v : Ty}
    (hknown : ∀ t ∈ types ++ [u], Knows T (some t)) (h : s.Tops t types)
    (hv : s.Tops v (types ++ [u])) : s.Above (some t) (some u) ∨ s.Above (some u) (some t) := by
  have hlast : u ∈ types ++ [u] := List.mem_append_right _ (List.mem_singleton.2 rfl)
  have ht : t ∈ types ++ [u] := List.mem_append_left _ h.1
  rcases List.mem_append.1 hv.1 with hmem | hmem
  · exact .inl ((h.2 v hmem).trans hT (hknown t ht) (hknown v hv.1) (hknown u hlast) (hv.2 u hlast))
  · cases List.mem_singleton.1 hmem
    exact .inr (hv.2 t ht)

end Checker

namespace Check

open Checker

variable {s s' : Checker} {T : Roster} {t u : Ty}

/-! ### Settling -/

/-- Settling goes on from the more general type of the first two. -/
theorem settle_of_unify? {name : String} {keyword : Token} {rest : List (Ty × Token)}
    {v : Option Ty} (h : s.unify? (some t) (some u) = some (some v)) :
    settle name t ((u, keyword) :: rest) s = settle name (v.getD t) rest s := by
  rw [settle, bind_apply, answer_apply, h]

/-- One more result is accepted if it is below or above the type so far. -/
theorem settle_cons_eq_ok (ht : Knows T (some t)) (hu : Knows T (some u)) {name : String}
    {keyword : Token} {rest : List (Ty × Token)} {r : Ty} :
    settle name t ((u, keyword) :: rest) s = .ok r s' ↔
      (s.Above (some t) (some u) ∧ settle name t rest s = .ok r s') ∨
        (¬s.Above (some t) (some u) ∧ s.Above (some u) (some t) ∧
          settle name u rest s = .ok r s') := by
  constructor
  · intro h
    obtain ⟨v, hv, hrest⟩ := unified_of_ok h
    rcases (unify?_eq_some_iff ht hu).1 hv with ⟨habove, rfl⟩ | ⟨hnot, habove, rfl⟩
    · exact .inl ⟨habove, hrest⟩
    · exact .inr ⟨hnot, habove, hrest⟩
  · rintro (⟨habove, h⟩ | ⟨hnot, habove, h⟩)
    · rwa [settle_of_unify? (unify?_of_above ht hu habove)]
    · rwa [settle_of_unify? (unify?_of_below hnot habove)]

/-- A list is accepted behind another one with a type at the top if each of its beginnings with that
list has one at the top. -/
theorem settle_accepts_iff (hT : T.law.Holds s) (name : String) {rest : List (Ty × Token)}
    {before : List Ty} (hbefore : ∀ t ∈ before, Knows T (some t))
    (hrest : ∀ p ∈ rest, Knows T (some p.1)) (ht : s.Tops t before) :
    (∃ u s', settle name t rest s = .ok u s') ↔
      ∀ l, l <+: rest.map Prod.fst → ∃ u, s.Tops u (before ++ l) := by
  -- What was accepted so far grows; all that is kept of it is the type at its top.
  induction rest generalizing t before with
  | nil =>
    refine iff_of_true ⟨t, s, rfl⟩ fun l hl => ⟨t, ?_⟩
    rwa [List.prefix_nil.1 hl, List.append_nil]
  | cons p rest ih =>
    obtain ⟨u, keyword⟩ := p
    obtain ⟨hu, hrest⟩ := List.forall_mem_cons.1 hrest
    have hknown := hbefore t ht.1
    have hlonger : ∀ v ∈ before ++ [u], Knows T (some v) :=
      List.forall_mem_append.2 ⟨hbefore, List.forall_mem_singleton.2 hu⟩
    -- Behind the longer list, whichever type is at its top.
    have hnext : ∀ {v}, s.Tops v (before ++ [u]) → ((∃ w s', settle name v rest s = .ok w s') ↔
        ∀ l, l <+: ((u, keyword) :: rest).map Prod.fst → ∃ w, s.Tops w (before ++ l)) := by
      intro v hv
      rw [ih hlonger hrest hv, List.map_cons]
      constructor
      · intro h l hl
        rcases List.prefix_cons_iff.1 hl with rfl | ⟨l, rfl, htail⟩
        · exact ⟨t, by rwa [List.append_nil]⟩
        · rw [List.append_cons]
          exact h l htail
      · intro h l hl
        rw [List.append_assoc]
        exact h (u :: l) ((List.prefix_cons_inj u).2 hl)
    by_cases habove : s.Above (some t) (some u)
    · simp only [settle_cons_eq_ok hknown hu, habove, true_and, not_true, false_and, or_false]
      exact hnext (ht.append_of_above habove)
    by_cases hbelow : s.Above (some u) (some t)
    · simp only [settle_cons_eq_ok hknown hu, habove, hbelow, true_and, not_false_eq_true,
        false_and, false_or]
      exact hnext (ht.append_of_below hT hbefore hu hbelow)
    · simp only [settle_cons_eq_ok hknown hu, habove, hbelow, false_and, and_false, or_false,
        exists_false, false_iff]
      intro h
      obtain ⟨v, hv⟩ := h [u] (List.prefix_iff_eq_take.2 rfl)
      exact (ht.above_or_below hT hlonger hv).elim habove hbelow

/-- The type that is settled on is at the top of the list. -/
theorem tops_of_settle (hT : T.law.Holds s) {name : String} {rest : List (Ty × Token)}
    {before : List Ty} (hbefore : ∀ t ∈ before, Knows T (some t))
    (hrest : ∀ p ∈ rest, Knows T (some p.1)) (ht : s.Tops t before)
    (h : settle name t rest s = .ok u s') :
    s' = s ∧ s.Tops u (before ++ rest.map Prod.fst) := by
  -- On the returns that are left, with those in front in the list so far.
  induction rest generalizing t before with
  | nil =>
    cases h
    exact ⟨rfl, by rwa [List.map_nil, List.append_nil]⟩
  | cons p rest ih =>
    obtain ⟨v, keyword⟩ := p
    obtain ⟨hv, hrest⟩ := List.forall_mem_cons.1 hrest
    have hlonger : ∀ w ∈ before ++ [v], Knows T (some w) :=
      List.forall_mem_append.2 ⟨hbefore, List.forall_mem_singleton.2 hv⟩
    rw [List.map_cons, List.append_cons]
    rcases (settle_cons_eq_ok (hbefore t ht.1) hv).1 h with ⟨habove, h⟩ | ⟨-, hbelow, h⟩
    · exact ih hlonger hrest (ht.append_of_above habove) h
    · exact ih hlonger hrest (ht.append_of_below hT hbefore hv hbelow) h

/-! ### Results -/

/-- What is no initializer has the result that is settled, or nothing if there are no returns. -/
theorem resultType_eq {c : Context} (hc : c.isInitializer = false) (name : String) :
    resultType name c =
      match c.returns.reverse with
      | [] => pure (builtin .nil)
      | (t, _) :: rest => settle name t rest := by
  obtain ⟨returns, isInitializer, home, method?, class?⟩ := c
  cases hc
  rfl

/-- The results of a function are accepted if each beginning of their list has a type at the top. -/
theorem resultType_accepts_iff (hT : T.law.Holds s) {c : Context} (hc : c.isInitializer = false)
    (hknown : ∀ t ∈ c.results, Knows T (some t)) (name : String) :
    (∃ u s', resultType name c s = .ok u s') ↔
      ∀ l, l ≠ [] → l <+: c.results → ∃ t, s.Tops t l := by
  rw [resultType_eq hc]
  unfold Context.results at hknown ⊢
  -- Without a result there is nothing to unify; else the first one is where the row begins.
  cases hreturns : c.returns.reverse with
  | nil => exact iff_of_true ⟨_, s, rfl⟩ fun l hl hprefix => absurd (List.prefix_nil.1 hprefix) hl
  | cons p rest =>
    obtain ⟨t, keyword⟩ := p
    rw [hreturns] at hknown
    obtain ⟨ht, hrest⟩ := List.forall_mem_cons.1 (List.forall_mem_map.1 hknown)
    refine (settle_accepts_iff hT name (List.forall_mem_singleton.2 ht) hrest
      (tops_singleton s t)).trans ?_
    constructor
    · intro h l hl hprefix
      rcases List.prefix_cons_iff.1 hprefix with rfl | ⟨l, rfl, htail⟩
      · exact absurd rfl hl
      · exact h l htail
    · exact fun h l hprefix =>
        h (t :: l) (List.cons_ne_nil t l) ((List.prefix_cons_inj t).2 hprefix)

/-- The type of a function's result is at the top of the list of the results. -/
theorem tops_of_resultType (hT : T.law.Holds s) {c : Context} (hc : c.isInitializer = false)
    (hknown : ∀ t ∈ c.results, Knows T (some t)) {name : String}
    (h : resultType name c s = .ok u s') :
    s' = s ∧ (c.results = [] → u = builtin .nil) ∧ (c.results ≠ [] → s.Tops u c.results) := by
  rw [resultType_eq hc] at h
  unfold Context.results at hknown ⊢
  -- Without returns the result is nil; otherwise the first one is what the fold starts from.
  cases hreturns : c.returns.reverse with
  | nil =>
    rw [hreturns] at h
    cases h
    exact ⟨rfl, fun _ => rfl, fun hne => absurd rfl hne⟩
  | cons p rest =>
    obtain ⟨t, keyword⟩ := p
    rw [hreturns] at h hknown
    obtain ⟨ht, hrest⟩ := List.forall_mem_cons.1 (List.forall_mem_map.1 hknown)
    obtain ⟨hs, htops⟩ := tops_of_settle hT (List.forall_mem_singleton.2 ht) hrest
      (tops_singleton s t) h
    exact ⟨hs, nofun, fun _ => htops⟩

/-- Two different members of a list can come first. -/
theorem exists_perm_cons_cons {α : Type} {l : List α} {a b : α} (ha : a ∈ l) (hb : b ∈ l)
    (hne : a ≠ b) : ∃ rest, (a :: b :: rest).Perm l := by
  obtain ⟨l₁, l₂, rfl⟩ := List.append_of_mem ha
  have hmem : b ∈ l₁ ++ l₂ := by
    rcases List.mem_append.1 hb with h | h
    · exact List.mem_append_left _ h
    · exact List.mem_append_right _ ((List.mem_cons.1 h).resolve_left hne.symm)
  obtain ⟨l₃, l₄, heq⟩ := List.append_of_mem hmem
  refine ⟨l₃ ++ l₄, ?_⟩
  have hfirst : (b :: (l₃ ++ l₄)).Perm (l₁ ++ l₂) := by
    rw [heq]
    exact List.perm_middle.symm
  exact (hfirst.cons a).trans List.perm_middle.symm

/-- A list of types each two of which are comparable has one at the top. -/
theorem exists_tops (hT : T.law.Holds s) {types : List Ty}
    (hknown : ∀ t ∈ types, Knows T (some t)) (hne : types ≠ [])
    (h : ∀ t ∈ types, ∀ u ∈ types, s.Above (some t) (some u) ∨ s.Above (some u) (some t)) :
    ∃ t, s.Tops t types := by
  -- On the list: the new type is above the top of the rest, or below it.
  induction types with
  | nil => exact absurd rfl hne
  | cons u rest ih =>
    obtain ⟨hu, hrest⟩ := List.forall_mem_cons.1 hknown
    by_cases hnil : rest = []
    · rw [hnil]
      exact ⟨u, tops_singleton s u⟩
    obtain ⟨t, ht⟩ := ih hrest hnil fun t ht v hv =>
      h t (List.mem_cons_of_mem u ht) v (List.mem_cons_of_mem u hv)
    have hmem : ∀ v, v ∈ rest ++ [u] ↔ v ∈ u :: rest := fun v => by
      rw [List.mem_append, List.mem_singleton, List.mem_cons, or_comm]
    rcases h t (List.mem_cons_of_mem u ht.1) u List.mem_cons_self with habove | hbelow
    · exact ⟨t, (ht.append_of_above habove).of_mem_iff hmem⟩
    · exact ⟨u, (ht.append_of_below hT hrest hu hbelow).of_mem_iff hmem⟩

/-- What is settled from the results of a function, and what their order is worth. -/
structure Settles (s : Checker) (name : String) (c : Context) : Prop where
  /-- The results are accepted exactly if each beginning of their list has a type at the top. -/
  accepts : (∃ u s', resultType name c s = .ok u s') ↔
    ∀ l, l ≠ [] → l <+: c.results → ∃ t, s.Tops t l
  /-- The type that is settled on is at the top of the whole list, or that of nothing if there are
  no results. -/
  settled : ∀ u s', resultType name c s = .ok u s' →
    s' = s ∧ (c.results = [] → u = builtin .nil) ∧ (c.results ≠ [] → s.Tops u c.results)
  /-- In another order the same type is settled on, if both orders are accepted. -/
  same : ∀ c', c'.isInitializer = false → c'.results.Perm c.results → ∀ u u' s₁ s₂,
    resultType name c s = .ok u s₁ → resultType name c' s = .ok u' s₂ → s.Same (some u) (some u')
  /-- Every order is accepted exactly if of each two results one is above the other one. -/
  always : (∀ c', c'.isInitializer = false → c'.results.Perm c.results →
      ∃ u s', resultType name c' s = .ok u s') ↔
    ∀ t ∈ c.results, ∀ u ∈ c.results, s.Above (some t) (some u) ∨ s.Above (some u) (some t)

/-- The settlement in a state whose classes are on a roster. -/
theorem settles_of_law (hT : T.law.Holds s) {c : Context} (hc : c.isInitializer = false)
    (hknown : ∀ t ∈ c.results, Knows T (some t)) (name : String) : Settles s name c where
  accepts := resultType_accepts_iff hT hc hknown name
  settled _ _ := tops_of_resultType hT hc hknown
  same c' hc' hperm u u' s₁ s₂ h h' := by
    have hknown' : ∀ t ∈ c'.results, Knows T (some t) := fun t ht => hknown t (hperm.mem_iff.1 ht)
    obtain ⟨-, hnil, htops⟩ := tops_of_resultType hT hc hknown h
    obtain ⟨-, hnil', htops'⟩ := tops_of_resultType hT hc' hknown' h'
    by_cases hne : c.results = []
    · rw [hnil hne, hnil' (List.perm_nil.1 (hne ▸ hperm))]
      exact same_self s _
    · have hne' : c'.results ≠ [] := fun h => hne (List.nil_perm.1 (h ▸ hperm))
      exact (htops hne).same hknown ((htops' hne').of_mem_iff fun _ => hperm.mem_iff)
  always := by
    constructor
    · intro h t ht u hu
      by_cases heq : t = u
      · exact .inl (heq ▸ .refl s _)
      obtain ⟨rest, hperm⟩ := exists_perm_cons_cons ht hu heq
      -- The two come first, so each of them is above or below the other one.
      have hresults := Context.results_ofResults (t :: u :: rest)
      have hknown' : ∀ v ∈ t :: u :: rest, Knows T (some v) := fun v hv =>
        hknown v (hperm.mem_iff.1 hv)
      have haccepted := h (.ofResults (t :: u :: rest)) rfl (by rwa [hresults])
      rw [resultType_accepts_iff hT rfl (by rwa [hresults]) name, hresults] at haccepted
      obtain ⟨v, hv⟩ := haccepted [t, u] (List.cons_ne_nil t _) ⟨rest, rfl⟩
      have hboth : ∀ v ∈ [t] ++ [u], Knows T (some v) :=
        List.forall_mem_cons.2 ⟨hknown t ht, List.forall_mem_singleton.2 (hknown u hu)⟩
      exact (tops_singleton s t).above_or_below hT hboth hv
    · intro h c' hc' hperm
      have hmem : ∀ {t}, t ∈ c'.results → t ∈ c.results := fun ht => hperm.mem_iff.1 ht
      refine (resultType_accepts_iff hT hc' (fun t ht => hknown t (hmem ht)) name).2 ?_
      intro l hne hbegins
      have hsub : ∀ t ∈ l, t ∈ c.results := fun t ht => hmem (hbegins.subset ht)
      exact exists_tops hT (fun t ht => hknown t (hsub t ht)) hne fun t ht u hu =>
        h t (hsub t ht) u (hsub u hu)

/-- The end of a function's body decides its result. The check of the body goes on exactly if each
beginning of the list of results has a type above the rest of it, and the type of the result is the
one above all of them, which in any other order is the same if there is one. All orders have one
exactly if of each two results one is above the other one. -/
theorem function_settles_in_order (hT : T.law.Holds s) (id : NodeId) {params : List Param}
    {f : SignatureId} {context : Context} (hcontext : context.Only T.knows) {body : List Stmt}
    {vars : List (String × Option Ty)}
    (hvars : paramVars params (s.signature f).paramTypes = some vars)
    {s₁ : Checker} (hbody : inScope { origin := .call id, vars := vars.reverse } (stmts body)
      { s with context := some context } = .ok () s₁)
    {c : Context} (hc : s₁.context = some c) (hinit : c.isInitializer = false) :
    Settles s₁ (s.signature f).name c ∧
      ∀ s₂, functionBody id params f context (stmts body) s = .ok () s₂ ↔
        ∃ result, resultType (s.signature f).name c s₁ = .ok result s₁ ∧
          s₂ = { s₁ with
            signatures := s₁.signatures.modify f ({ · with returns := some result })
            context := s.context } := by
  have hscope : VarsOnly T.knows vars.reverse := fun p hp =>
    only_paramVars (L := T.law) (hT.only.signature f).paramTypes hvars p (List.mem_reverse.1 hp)
  have hstart : T.law.Holds { s with context := some context } :=
    hT.of_eq (hT.only.withContext fun _ hc => by cases hc; exact hcontext) rfl rfl
  -- The body is checked under the law, so its results know their superclasses.
  have habides : Abides Roster.laws T (inScope { origin := .call id, vars := vars.reverse }
      (stmts body)) := by
    refine abides_inScope (R := Roster.laws) (i := T) ?_ (abides_stmts (R := Roster.laws) T body)
    exact hscope
  obtain ⟨T₁, -, hT₁, -⟩ := habides.run T (le_refl T) _ hstart
  rw [final_ok hbody] at hT₁
  have hknown : ∀ t ∈ c.results, Knows T₁ (some t) := by
    rintro t ht _ ⟨⟩
    obtain ⟨p, hp, rfl⟩ := List.mem_map.1 ht
    exact (hT₁.only.context c hc).returns p (List.mem_reverse.1 hp)
  have hsettles := settles_of_law hT₁ hinit hknown (s.signature f).name
  refine ⟨hsettles, fun s₂ => ?_⟩
  -- Behind the body nothing is left but the type of the result.
  rw [functionBody_apply, hvars]
  dsimp only
  rw [hbody]
  dsimp only
  rw [hc, Option.getD_some]
  cases hresult : resultType (s.signature f).name c s₁ with
  | error e s₃ => exact iff_of_false nofun fun ⟨_, h, _⟩ => nomatch h
  | ok result s₃ =>
    obtain ⟨rfl, -⟩ := hsettles.settled result s₃ hresult
    constructor
    · rintro ⟨⟩
      exact ⟨result, rfl, rfl⟩
    · rintro ⟨_, ⟨⟩, rfl⟩
      rfl

/-- The common type of an object of a class and one of its superclass, which is found although it
comes last. -/
theorem function_settles_in_order_superclass :
    let s := (checkedSource "class A \x7b\x7d class B < A \x7b\x7d fun f(A a, B b) \x7b\x7d").idle
    let body := (Parse.source "if a \x7b return b \x7d return a" 0).program
    ∃ (T : Roster) (vars : List (String × Option Ty)) (s₁ : Checker) (c : Context),
      T.law.Holds s ∧ paramVars (s.signature 3).params (s.signature 3).paramTypes = some vars ∧
      inScope { origin := .call 0, vars := vars.reverse } (stmts body)
        { s with context := some {} } = .ok () s₁ ∧
      s₁.context = some c ∧ c.isInitializer = false ∧ c.results.length = 2 ∧
      Settles s₁ (s.signature 3).name c := by
  intro s body
  have hsome : (paramVars (s.signature 3).params (s.signature 3).paramTypes).isSome = true := by
    decide +kernel
  let vars := (paramVars (s.signature 3).params (s.signature 3).paramTypes).getD []
  let x := inScope { origin := .call 0, vars := vars.reverse } (stmts body)
  -- The body is checked without an error and leaves two results.
  have hsucceeds : succeeds x { s with context := some {} } = true := by decide +kernel
  have hfinal : (x.final { s with context := some {} }).context.any
      (fun c => !c.isInitializer && c.results.length == 2) = true := by decide +kernel
  obtain ⟨_, s₁, hbody⟩ := exists_of_succeeds hsucceeds
  rw [final_ok hbody] at hfinal
  obtain ⟨c, hc, hresults⟩ := (Option.any_eq_true _ _).1 hfinal
  obtain ⟨hinit, hlength⟩ := Bool.and_eq_true_iff.1 hresults
  rw [Bool.not_eq_true_eq_eq_false] at hinit
  obtain ⟨T, hT⟩ := (reachable_checkedSource _).roster
  have hcontext : Context.Only T.knows {} := ⟨List.forall_mem_nil _, nofun⟩
  have hvars : paramVars (s.signature 3).params (s.signature 3).paramTypes = some vars := by
    obtain ⟨v, hv⟩ := Option.isSome_iff_exists.1 hsome
    change _ = some (Option.getD _ [])
    rw [hv, Option.getD_some]
  have hsettles := function_settles_in_order (law_idle hT) 0 hcontext hvars hbody hc hinit
  exact ⟨T, vars, s₁, c, law_idle hT, hvars, hbody, hc, hinit, eq_of_beq hlength, hsettles.1⟩

/-- Two classes have a common superclass. Their objects are accepted as results behind one of the
superclass, and not before it. -/
theorem order_of_results_matters : ¬∀ (s : Checker) (types types' : List Ty) (name : String),
    s.Reachable → (∀ t ∈ types, s.Plain (some t)) → types'.Perm types →
    ((∃ u s', resultType name (.ofResults types) s = .ok u s') ↔
      ∃ u s', resultType name (.ofResults types') s = .ok u s') := by
  intro h
  let s := checkedSource "class A \x7b\x7d class B < A \x7b\x7d class C < A \x7b\x7d"
  let a := globalType s "A"
  let b := globalType s "B"
  let c := globalType s "C"
  -- The superclass in front of its two subclasses, and behind them.
  have haccepted : succeeds (resultType "f" (.ofResults [a, b, c])) s = true := by decide +kernel
  have hrejected : succeeds (resultType "f" (.ofResults [b, c, a])) s = false := by decide +kernel
  have hplain : ∀ t ∈ [a, b, c], s.Plain (some t) :=
    List.forall_mem_cons.2 ⟨plain_globalType s "A", List.forall_mem_cons.2
      ⟨plain_globalType s "B", List.forall_mem_singleton.2 (plain_globalType s "C")⟩⟩
  obtain ⟨u, s', hr⟩ := (h s [a, b, c] [b, c, a] "f" (reachable_checkedSource _) hplain
    (List.perm_append_singleton a [b, c])).1 (exists_of_succeeds haccepted)
  unfold succeeds at hrejected
  rw [hr] at hrejected
  cases hrejected

end Check

end ClassScript.Typing
