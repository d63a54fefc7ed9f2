import Mathlib.Data.String.Basic
import ClassScript.Editor.Completion
import ClassScript.Proofs.Analysis
import ClassScript.Proofs.Parse.Formed
import ClassScript.Proofs.Typing.Texts

/-!
# Proposals form a set

The proposals away from a dot come from three sources: the global names, the names that the document
declares, and the reserved words. The globals are kept in a table and the reserved words form a set,
so neither has an order of its own, and the proposals are sorted by their labels. That this leaves
no choice depends on the labels: no two proposals have the same one. A name of a document is an
identifier of it and never a reserved word, and no global of the machine is one either.

All proposals are made before any is left out. So a single global name decides whether there is an
answer, whatever is being typed: there is none if the type of a global contains itself.
-/

namespace ClassScript.Editor

open Typing (Checker Nameable)

/-- The proposal for a name: a global one with its type, else a declared one, else a reserved
word. -/
def proposalOf? (a : Analysis) (name : String) : Option Proposal :=
  match a.checker.lookup? name with
  | some t => globalProposal? a.checker (name, t)
  | none =>
    if name ∈ (allDeclarations a.program).map (·.lexeme) then
      some { label := name, kind := .value, detail := "local" }
    else some { label := name, kind := .keyword, detail := "keyword" }

/-- The names that can be proposed away from a dot. -/
def Proposable (a : Analysis) (name : String) : Prop :=
  name ∈ a.checker.globals ∨ name ∈ (allDeclarations a.program).map (·.lexeme) ∨
    name ∈ Token.Kind.keywords.map Token.Kind.name

/-- All proposals away from a dot, with given ones for the global names. -/
def allProposals (a : Analysis) (globals : List Proposal) : List Proposal :=
  globals ++ localProposals a ++ keywordProposals

/-! ### Answers for a whole list -/

section Answers

variable {α β : Type} {f : α → Option β} {xs xs' : List α} {ys : List β}

/-- A list has the answers of its items. -/
theorem mapM_eq_some_iff : xs.mapM f = some ys ↔ xs.map f = ys.map some := by
  -- Item by item; one without an answer leaves the whole list without one.
  induction xs generalizing ys with
  | nil => cases ys <;> simp
  | cons x xs ih =>
    rw [List.mapM_cons, List.map_cons]
    cases hx : f x with
    | none => cases ys <;> simp
    | some y =>
      cases ys with
      | nil => cases xs.mapM f <;> simp
      | cons z zs =>
        rw [List.map_cons, List.cons.injEq, ← ih]
        cases xs.mapM f <;> simp

/-- A list has no answer if one of its items has none. -/
theorem mapM_eq_none_iff : xs.mapM f = none ↔ ∃ x ∈ xs, f x = none := by
  induction xs with
  | nil => simp
  | cons x xs ih =>
    rw [List.mapM_cons, List.exists_mem_cons_iff, ← ih]
    cases f x with
    | none => simp
    | some y => cases xs.mapM f <;> simp

/-- The answers for the same items in another order are the same answers in another order. -/
theorem mapM_perm (hperm : xs'.Perm xs) {ys' : List β} (h : xs.mapM f = some ys)
    (h' : xs'.mapM f = some ys') : ys'.Perm ys := by
  rw [mapM_eq_some_iff] at h h'
  have hsome : (ys'.map some).Perm (ys.map some) := h ▸ h' ▸ hperm.map f
  exact (List.map_perm_map_iff (Option.some_injective β)).1 hsome

/-- What the answers have is what the items have. -/
theorem map_eq_of_mapM {γ : Type} {g : β → γ} {k : α → γ} (hf : ∀ x y, f x = some y → g y = k x)
    (h : xs.mapM f = some ys) : ys.map g = xs.map k := by
  rw [mapM_eq_some_iff] at h
  induction xs generalizing ys with
  | nil => cases ys <;> simp at h ⊢
  | cons x xs ih =>
    cases ys with
    | nil => cases h
    | cons y ys =>
      obtain ⟨hy, hys⟩ := List.cons.inj h
      rw [List.map_cons, List.map_cons, hf x y hy, ih hys]

end Answers

/-! ### Names and reserved words -/

/-- A word that is not reserved. -/
theorem notMem_keywords {name : String} (h : Token.Kind.ofWord name = .identifier) :
    name ∉ Token.Kind.keywords.map Token.Kind.name := by
  intro hmem
  obtain ⟨k, hk, rfl⟩ := List.mem_map.1 hmem
  have hreserved : ∀ k ∈ Token.Kind.keywords, Token.Kind.ofWord k.name ≠ .identifier := by decide
  exact hreserved k hk h

/-- A name among the tokens of a text is no reserved word. -/
theorem ofWord_of_nameIn {text : String} {t : Token} (h : t.NameIn (Token.scanText text)) :
    Token.Kind.ofWord t.lexeme = .identifier :=
  Token.plain_scanFrom .start _ t h.1 h.2

/-- No global name is a reserved word. -/
theorem ofWord_of_mem_globals {source : String} {a : Analysis}
    (h : a.Within (Token.scanText source)) {name : String} (hname : name ∈ a.checker.globals) :
    Token.Kind.ofWord name = .identifier := by
  rcases h.globals name hname with hinitial | rfl | ⟨t, ht, rfl⟩
  · have hall : ∀ name ∈ (Checker.ofMachine .initial).globals.keys,
        Token.Kind.ofWord name = .identifier := by
      decide +kernel
    exact hall name (Std.TreeMap.mem_keys.2 hinitial)
  · decide
  · exact ofWord_of_nameIn ht

/-- No declared name is a reserved word. -/
theorem ofWord_of_declared {source : String} {a : Analysis}
    (h : a.Within (Token.scanText source)) {name : String}
    (hname : name ∈ (allDeclarations a.program).map (·.lexeme)) :
    Token.Kind.ofWord name = .identifier := by
  obtain ⟨t, ht, rfl⟩ := List.mem_map.1 hname
  obtain ⟨n, hn, ht⟩ := List.mem_flatMap.1 ht
  exact ofWord_of_nameIn
    ((h.program n hn).names t (List.mem_append_left _ (List.mem_append_right _ ht)))

/-! ### Labels -/

/-- No name is left twice when repetitions are erased. -/
theorem nodup_eraseDups : ∀ names : List String, names.eraseDups.Nodup
  | [] => List.nodup_nil
  | name :: rest => by
    rw [List.eraseDups_cons, List.nodup_cons, List.mem_eraseDups]
    exact ⟨by simp, nodup_eraseDups _⟩
termination_by names => names.length
decreasing_by exact Nat.lt_succ_of_le (List.length_filter_le _ _)

/-- A global name is the label of its proposal. -/
theorem label_globalProposal? {c : Checker} {p : String × Option Typing.Ty} {x : Proposal}
    (h : globalProposal? c p = some x) : x.label = p.1 := by
  obtain ⟨detail, -, rfl⟩ := Option.map_eq_some_iff.1 h
  rfl

/-- The labels of the proposals for the global names are these names. -/
theorem labels_globalProposals? {c : Checker} {globals : List Proposal}
    (h : globalProposals? c = some globals) : globals.map (·.label) = c.globals.keys := by
  rw [← Std.TreeMap.map_fst_toList_eq_keys]
  exact map_eq_of_mapM (fun _ _ => label_globalProposal?) h

/-- There are no proposals for the global names exactly if the type of one of them contains
itself. -/
theorem globalProposals?_eq_none_iff {c : Checker} (hc : c.Reachable) :
    globalProposals? c = none ↔ ∃ name t, c.lookup? name = some t ∧ ¬c.Founded t := by
  obtain ⟨T, hT⟩ := hc.roster
  rw [globalProposals?, mapM_eq_none_iff]
  constructor
  · rintro ⟨⟨name, t⟩, hmem, hnone⟩
    have htext := Option.map_eq_none_iff.1 hnone
    exact ⟨name, t, Std.TreeMap.mem_toList_iff_getElem?_eq_some.1 hmem,
      (Checker.typeText?_eq_none_iff hT.tables.sized).1 htext⟩
  · rintro ⟨name, t, hmem, hcircular⟩
    have htext := (Checker.typeText?_eq_none_iff hT.tables.sized).2 hcircular
    exact ⟨(name, t), Std.TreeMap.mem_toList_iff_getElem?_eq_some.2 hmem,
      Option.map_eq_none_iff.2 htext⟩

/-- The names that a document declares are proposed once each, unless they are global. -/
theorem labels_localProposals (a : Analysis) :
    (localProposals a).map (·.label) = (((allDeclarations a.program).map (·.lexeme)).filter
      fun name => (a.checker.lookup? name).isNone).eraseDups := by
  rw [localProposals, declarations_empty, List.map_map]
  exact List.map_id _

/-- The reserved words are proposed. -/
theorem labels_keywordProposals :
    keywordProposals.map (·.label) = Token.Kind.keywords.map Token.Kind.name :=
  List.map_map

/-- A name has no type exactly if it is not among the globals. -/
theorem lookup?_eq_none_iff (c : Checker) (name : String) :
    c.lookup? name = none ↔ name ∉ c.globals := by
  rw [Checker.lookup?, ← Std.TreeMap.isSome_getElem?_iff_mem, Option.not_isSome_iff_eq_none]

/-- The local proposals are those for declared names that are not global. -/
theorem mem_labels_localProposals {a : Analysis} {name : String} :
    name ∈ (localProposals a).map (·.label) ↔
      name ∈ (allDeclarations a.program).map (·.lexeme) ∧ name ∉ a.checker.globals := by
  rw [labels_localProposals, List.mem_eraseDups, List.mem_filter, Option.isNone_iff_eq_none,
    lookup?_eq_none_iff]

section All

variable {a : Analysis} {globals : List Proposal}
  (hglobals : globalProposals? a.checker = some globals)

include hglobals

/-- The labels of all proposals are the names that can be proposed. -/
theorem mem_labels_allProposals (name : String) :
    name ∈ (allProposals a globals).map (·.label) ↔ Proposable a name := by
  rw [allProposals, List.map_append, List.map_append, List.mem_append, List.mem_append,
    labels_globalProposals? hglobals, Std.TreeMap.mem_keys, mem_labels_localProposals,
    labels_keywordProposals, Proposable, or_assoc]
  tauto

variable {source : String} (h : a.Within (Token.scanText source))

include h

/-- No two proposals have the same label. -/
theorem nodup_labels : ((allProposals a globals).map (·.label)).Nodup := by
  have hlocals : ((localProposals a).map (·.label)).Nodup := by
    rw [labels_localProposals]
    exact nodup_eraseDups _
  have hkeywords : (keywordProposals.map (·.label)).Nodup := by decide
  rw [allProposals, List.map_append, List.map_append, labels_globalProposals? hglobals]
  refine (List.Nodup.append Std.TreeMap.nodup_keys hlocals ?_).append hkeywords ?_
  · -- A declared name is proposed only if it is no global one, and neither is a reserved word.
    intro name hglobal hlocal
    rw [Std.TreeMap.mem_keys] at hglobal
    exact (mem_labels_localProposals.1 hlocal).2 hglobal
  · intro name hname hkeyword
    rw [labels_keywordProposals] at hkeyword
    rcases List.mem_append.1 hname with hglobal | hlocal
    · rw [Std.TreeMap.mem_keys] at hglobal
      exact notMem_keywords (ofWord_of_mem_globals h hglobal) hkeyword
    · exact notMem_keywords (ofWord_of_declared h (mem_labels_localProposals.1 hlocal).1) hkeyword

/-- A proposal is determined by its label. -/
theorem proposalOf?_label {x : Proposal} (hx : x ∈ allProposals a globals) :
    proposalOf? a x.label = some x := by
  -- A global name comes first, then a declared one, and then a reserved word.
  rcases List.mem_append.1 hx with hx | hx
  · rcases List.mem_append.1 hx with hx | hx
    · have hsome : some x ∈ a.checker.globals.toList.map (globalProposal? a.checker) :=
        mapM_eq_some_iff.1 hglobals ▸ List.mem_map_of_mem hx
      obtain ⟨p, hmem, hp⟩ := List.mem_map.1 hsome
      have hlookup : a.checker.lookup? x.label = some p.2 :=
        label_globalProposal? hp ▸ Std.TreeMap.mem_toList_iff_getElem?_eq_some.1 hmem
      simp only [proposalOf?, hlookup]
      rw [label_globalProposal? hp]
      exact hp
    · obtain ⟨hdeclared, hglobal⟩ :=
        mem_labels_localProposals.1 (List.mem_map_of_mem (f := (·.label)) hx)
      obtain ⟨name, -, rfl⟩ := List.mem_map.1 hx
      simp only [proposalOf?, (lookup?_eq_none_iff _ _).2 hglobal, if_pos hdeclared]
  · obtain ⟨k, hk, rfl⟩ := List.mem_map.1 hx
    have hkeyword : k.name ∈ Token.Kind.keywords.map Token.Kind.name := List.mem_map_of_mem hk
    have hglobal : k.name ∉ a.checker.globals := fun hglobal =>
      notMem_keywords (ofWord_of_mem_globals h hglobal) hkeyword
    have hdeclared : k.name ∉ (allDeclarations a.program).map (·.lexeme) := fun hdeclared =>
      notMem_keywords (ofWord_of_declared h hdeclared) hkeyword
    simp only [proposalOf?, (lookup?_eq_none_iff _ _).2 hglobal, if_neg hdeclared]

end All

/-! ### Sorted proposals -/

/-- Proposals with different labels that are sorted increase strictly. -/
theorem pairwise_lt_of_sorted {xs : List Proposal} (hlabels : (xs.map (·.label)).Nodup)
    (h : xs.Pairwise fun x y => x.label ≤ y.label) :
    xs.Pairwise fun x y => x.label < y.label :=
  h.imp₂ (fun _ _ hle hne => lt_of_le_of_ne hle hne) (List.pairwise_map.1 hlabels)

/-- Proposals with different labels can be sorted in only one way. -/
theorem eq_of_sorted {xs ys : List Proposal} (hlabels : (xs.map (·.label)).Nodup)
    (hperm : ys.Perm xs) (hx : xs.Pairwise fun x y => x.label ≤ y.label)
    (hy : ys.Pairwise fun x y => x.label ≤ y.label) : ys = xs := by
  have hx' := pairwise_lt_of_sorted hlabels hx
  have hy' := pairwise_lt_of_sorted ((hperm.map _).nodup_iff.2 hlabels) hy
  exact hperm.eq_of_pairwise (fun x y _ _ hxy hyx => absurd hxy (lt_asymm hyx)) hy' hx'

/-- The proposals that start like a fragment, sorted by their labels. -/
def sortedProposals (a : Analysis) (globals : List Proposal) (fragment : String) : List Proposal :=
  ((allProposals a globals).filter fun x => startsLike fragment x.label).mergeSort
    fun x y => decide (x.label ≤ y.label)

/-- Sorting keeps the proposals that start like the fragment. -/
theorem sortedProposals_perm (a : Analysis) (globals : List Proposal) (fragment : String) :
    (sortedProposals a globals fragment).Perm
      ((allProposals a globals).filter fun x => startsLike fragment x.label) :=
  List.mergeSort_perm _ _

/-- The sorted proposals stand in the order of their labels. -/
theorem pairwise_sortedProposals (a : Analysis) (globals : List Proposal) (fragment : String) :
    (sortedProposals a globals fragment).Pairwise fun x y => x.label ≤ y.label := by
  have hsorted := @List.pairwise_mergeSort _ (fun x y : Proposal => decide (x.label ≤ y.label))
    (fun x y z hxy hyz => decide_eq_true ((of_decide_eq_true hxy).trans (of_decide_eq_true hyz)))
    (fun x y => by simpa using le_total x.label y.label)
    ((allProposals a globals).filter fun x => startsLike fragment x.label)
  exact hsorted.imp fun h => of_decide_eq_true h

section Sorted

variable {a : Analysis} {globals : List Proposal}
  (hglobals : globalProposals? a.checker = some globals)

include hglobals

/-- The labels of the sorted proposals are the names that can be proposed for the fragment. -/
theorem mem_labels_sortedProposals (fragment name : String) :
    name ∈ (sortedProposals a globals fragment).map (·.label) ↔
      Proposable a name ∧ startsLike fragment name = true := by
  rw [((sortedProposals_perm a globals fragment).map _).mem_iff,
    ← mem_labels_allProposals hglobals]
  simp only [List.mem_map, List.mem_filter]
  constructor
  · rintro ⟨x, ⟨hx, hstarts⟩, rfl⟩
    exact ⟨⟨x, hx, rfl⟩, hstarts⟩
  · rintro ⟨⟨x, hx, rfl⟩, hstarts⟩
    exact ⟨x, ⟨hx, hstarts⟩, rfl⟩

variable {source : String} (h : a.Within (Token.scanText source))

include h

/-- No label is proposed twice. -/
theorem nodup_labels_sortedProposals (fragment : String) :
    ((sortedProposals a globals fragment).map (·.label)).Nodup :=
  (((sortedProposals_perm a globals fragment).map _).nodup_iff).2
    ((nodup_labels hglobals h).sublist (List.filter_sublist.map _))

/-- The sorted proposals are determined by their labels. -/
theorem map_proposalOf?_labels (fragment : String) :
    ((sortedProposals a globals fragment).map (·.label)).map (proposalOf? a) =
      (sortedProposals a globals fragment).map some := by
  rw [List.map_map]
  refine List.map_congr_left fun x hx => proposalOf?_label hglobals h ?_
  exact List.mem_of_mem_filter ((sortedProposals_perm a globals fragment).mem_iff.1 hx)

end Sorted

/-! ### Answers away from a dot -/

/-- Away from a dot, the proposals are the first hundred of the sorted ones. -/
theorem complete?_eq_take {a : Analysis} {text : String} {p : Position}
    (hfragment : fragmentAt text p ≠ "") (hreceiver : receiverAt text p = "") :
    complete? a text p = (globalProposals? a.checker).map fun globals =>
      (sortedProposals a globals (fragmentAt text p)).take 100 := by
  unfold complete?
  rw [hreceiver, if_neg (by decide), if_neg (by simpa using hfragment)]
  rfl

/-- The proposals for a fragment form a set. -/
structure ProposesSet (a : Analysis) (fragment : String) (proposals : List Proposal) : Prop where
  /-- They are those for the names that can be proposed and start like the fragment, each once, in
  strictly increasing order, cut to the first hundred. -/
  names : ∃ names : List String, names.Pairwise (· < ·) ∧
    (∀ name, name ∈ names ↔ Proposable a name ∧ startsLike fragment name = true) ∧
    (names.take 100).map (proposalOf? a) = proposals.map some
  /-- Neither the order in which the tables list the names nor the way of sorting makes a
  difference. -/
  canonical : ∀ (order : List (String × Option Typing.Ty)) (globals keywords items : List Proposal),
    order.Perm a.checker.globals.toList → order.mapM (globalProposal? a.checker) = some globals →
    keywords.Perm keywordProposals →
    items.Perm
      ((globals ++ localProposals a ++ keywords).filter fun x => startsLike fragment x.label) →
    items.Pairwise (fun x y => x.label ≤ y.label) → items.take 100 = proposals

/-- Away from a dot, the proposals at a place are a set, cut to its first hundred elements. They are
those for the global names, the declared names and the reserved words that start like the fragment
at the place, and the type of a global name comes before its declaration. There is an answer unless
the type of some global name contains itself, even if this name does not start like the fragment. -/
theorem complete_eq {source text : String} {a : Analysis} {p : Position}
    (h : Analysis.ofSource? source = some a) (hfragment : fragmentAt text p ≠ "")
    (hreceiver : receiverAt text p = "") :
    (complete? a text p = none ↔ ∃ name t, a.checker.lookup? name = some t ∧
      ¬a.checker.Founded t) ∧
    ∀ proposals, complete? a text p = some proposals →
      ProposesSet a (fragmentAt text p) proposals := by
  have hwithin := Analysis.within_ofSource? h
  have hcomplete := complete?_eq_take (a := a) hfragment hreceiver
  constructor
  · -- There is no answer exactly if some global name has no text.
    rw [hcomplete, Option.map_eq_none_iff]
    exact globalProposals?_eq_none_iff (Analysis.reachable_ofSource? h)
  intro proposals hproposals
  rw [hcomplete] at hproposals
  obtain ⟨globals, hglobals, rfl⟩ := Option.map_eq_some_iff.1 hproposals
  have hlabels := nodup_labels_sortedProposals hglobals hwithin (fragmentAt text p)
  have hsorted := pairwise_sortedProposals a globals (fragmentAt text p)
  constructor
  · refine ⟨(sortedProposals a globals (fragmentAt text p)).map (·.label),
      List.pairwise_map.2 (pairwise_lt_of_sorted hlabels hsorted),
      mem_labels_sortedProposals hglobals _, ?_⟩
    rw [List.map_take, map_proposalOf?_labels hglobals hwithin, List.map_take]
  · intro order others keywords items horder hothers hkeywords hitems hitemsSorted
    -- In whatever order the three sources are walked, sorting brings them to the same one.
    have hall : (others ++ localProposals a ++ keywords).Perm (allProposals a globals) :=
      ((mapM_perm horder hglobals hothers).append_right _).append hkeywords
    have hperm : items.Perm (sortedProposals a globals (fragmentAt text p)) :=
      (hitems.trans (hall.filter _)).trans (sortedProposals_perm a globals _).symm
    rw [eq_of_sorted hlabels hperm hsorted hitemsSorted]

/-- Proposals of all three sources. The name of the function is global and declared, and is proposed
once. -/
theorem complete_eq_letter :
    ∃ a, Analysis.ofSource? "fun f(First) \x7b\x7d" = some a ∧
      complete? a "x = F" ⟨0, 5⟩ =
        some [⟨"First", .value, "local"⟩, ⟨"Float", .classValue, "class Float"⟩,
          ⟨"f", .function, "fun(Object First) -> Nil"⟩, ⟨"false", .keyword, "keyword"⟩,
          ⟨"for", .keyword, "keyword"⟩, ⟨"fun", .keyword, "keyword"⟩] := by
  let items : List Proposal :=
    [⟨"First", .value, "local"⟩, ⟨"Float", .classValue, "class Float"⟩,
      ⟨"f", .function, "fun(Object First) -> Nil"⟩, ⟨"false", .keyword, "keyword"⟩,
      ⟨"for", .keyword, "keyword"⟩, ⟨"fun", .keyword, "keyword"⟩]
  -- The six proposals are those of the names that start like the letter.
  have hfound : (Analysis.ofSource? "fun f(First) \x7b\x7d").any (fun a =>
      (globalProposals? a.checker).any fun globals => decide
        (items.Perm ((allProposals a globals).filter fun x =>
          startsLike (fragmentAt "x = F" ⟨0, 5⟩) x.label))) = true := by
    decide +kernel
  obtain ⟨a, ha, hglobals⟩ := (Option.any_eq_true _ _).1 hfound
  obtain ⟨globals, hglobals, hitems⟩ := (Option.any_eq_true _ _).1 hglobals
  have hfragment : fragmentAt "x = F" ⟨0, 5⟩ ≠ "" := by decide +kernel
  have hreceiver : receiverAt "x = F" ⟨0, 5⟩ = "" := by decide +kernel
  have hsome := complete?_eq_take (a := a) hfragment hreceiver
  rw [hglobals] at hsome
  have hset := (complete_eq ha hfragment hreceiver).2 _ hsome
  have hsame := hset.canonical _ globals _ items (.refl _) hglobals (.refl _)
    (of_decide_eq_true hitems) (by decide +kernel)
  exact ⟨a, ha, hsome.trans (congrArg some hsame.symm)⟩

/-- While the name of a function that returns itself is typed, or any other one, there is no answer:
the text of its type has no end. -/
theorem complete_beside_circular_function :
    ∃ a, Analysis.ofSource? "fun f() \x7b return f \x7d" = some a ∧
      fragmentAt "x = F" ⟨0, 5⟩ ≠ "" ∧ receiverAt "x = F" ⟨0, 5⟩ = "" ∧
      complete? a "x = F" ⟨0, 5⟩ = none := by
  have hfound : (Analysis.ofSource? "fun f() \x7b return f \x7d").any (fun a =>
      (complete? a "x = F" ⟨0, 5⟩).isNone) = true := by
    decide +kernel
  obtain ⟨a, ha, hnone⟩ := (Option.any_eq_true _ _).1 hfound
  exact ⟨a, ha, by decide +kernel, by decide +kernel, Option.isNone_iff_eq_none.1 hnone⟩

end ClassScript.Editor
