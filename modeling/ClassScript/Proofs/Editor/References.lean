import Mathlib.Data.List.Sort
import ClassScript.Proofs.Parse.Identifiers
import ClassScript.Proofs.Token.Places

/-!
# References to a name

The places where a program uses or declares a name, next to the identifiers of the source with this
name. They are the same, in the same order and without repetitions, except for the types of
parameters: those name classes, but count neither as uses nor as declarations.
-/

namespace ClassScript.Editor

/-- The identifiers among tokens that spell a name. -/
def occurrences (ts : List Token) (name : String) : List Token :=
  ts.filter fun t => t.kind = .identifier && t.lexeme = name

/-- The places where a program gives a parameter the type of that name. -/
def typeReferences (program : List Stmt) (name : String) : List Token :=
  ((allNodes program).flatMap Node.writtenTypes).filter (·.lexeme = name)

/-! ### The order of the source -/

section Order

variable {a b c : Token}

/-- A token in front of another one stands at another place. -/
theorem position_ne_of_before (h : a.Before b) : a.position ≠ b.position := by
  intro heq
  unfold Token.Before Token.Position.Before at h
  rw [heq] at h
  omega

/-- Tokens are in the order of the source if they stand at one place or one in front of the other.
-/
theorem inSourceOrder_iff : inSourceOrder a b = true ↔ a.position = b.position ∨ a.Before b := by
  simp only [inSourceOrder, Token.Before, Token.position, Token.Position.Before, Bool.or_eq_true,
    Bool.and_eq_true, decide_eq_true_eq, Token.Position.mk.injEq]
  omega

/-- The order of the source is transitive. -/
theorem inSourceOrder_trans (h : inSourceOrder a b = true) (h' : inSourceOrder b c = true) :
    inSourceOrder a c = true := by
  simp only [inSourceOrder, Bool.or_eq_true, Bool.and_eq_true, decide_eq_true_eq] at *
  omega

/-- The order of the source compares all tokens. -/
theorem inSourceOrder_total (a b : Token) : (inSourceOrder a b || inSourceOrder b a) = true := by
  simp only [inSourceOrder, Bool.or_eq_true, Bool.and_eq_true, decide_eq_true_eq]
  omega

end Order

/-! ### The references of a program -/

/-- The references stand in the order of the source. -/
theorem pairwise_references (program : List Stmt) (name : String) (withDeclarations : Bool) :
    (references program name withDeclarations).Pairwise fun a b => inSourceOrder a b = true :=
  @List.pairwise_mergeSort _ inSourceOrder (fun _ _ _ => inSourceOrder_trans) inSourceOrder_total _

/-- The occurrences of a name are found among the identifiers. -/
theorem occurrences_eq (ts : List Token) (name : String) :
    occurrences ts name = (ts.filter (·.kind = .identifier)).filter (·.lexeme = name) := by
  rw [occurrences, List.filter_filter]
  exact List.filter_congr fun t _ => Bool.and_comm _ _

/-- The occurrences of a name stand one behind the other. -/
theorem pairwise_occurrences (src : List Glyph) (name : String) :
    (occurrences (Token.scan src) name).Pairwise Token.Before :=
  (Token.inOrder_scan src).filter _

variable {src : List Glyph} {n : NodeId}

/-- The references to a name and the types of that name are the identifiers that spell it. -/
theorem references_append_perm (h : (Parse.tokens (Token.scan src) n).errors = [])
    {name : String} (hname : name ≠ "") :
    (references (Parse.tokens (Token.scan src) n).program name true ++
      typeReferences (Parse.tokens (Token.scan src) n).program name).Perm
      (occurrences (Token.scan src) name) := by
  generalize hprogram : (Parse.tokens (Token.scan src) n).program = program
  -- The identifiers of the source are the names in the nodes.
  have hscan : ((Token.scan src).filter (·.kind = .identifier)).Perm
      ((allNodes program).flatMap Node.names) := by
    have hnames := Parse.identifiers_scan h
    rw [hprogram] at hnames
    exact Multiset.coe_eq_coe.1 hnames
  -- References are the uses and the declarations, sorted by place.
  have hrefs : (references program name true).Perm
      (((allNodes program).flatMap fun m => m.usedNames ++ m.declaredNames).filter
        (·.lexeme = name)) := by
    have hsorted : (references program name true).Perm
        (((allNodes program).flatMap Node.usedNames ++ allDeclarations program).filter
          (·.lexeme = name)) := by
      rw [List.filter_append, ← declarations_of_ne hname]
      exact List.mergeSort_perm _ _
    exact hsorted.trans ((List.flatMap_append_perm _ _ _).filter _)
  have hall : (references program name true ++ typeReferences program name).Perm
      (((allNodes program).flatMap Node.names).filter (·.lexeme = name)) := by
    have happend := hrefs.append_right (typeReferences program name)
    rw [typeReferences, ← List.filter_append] at happend
    exact happend.trans ((List.flatMap_append_perm _ _ _).filter _)
  rw [occurrences_eq]
  exact hall.trans (hscan.symm.filter _)

/-- In a source that is parsed without errors, the references to a name are identifiers that spell
it, each once and in source order. The others are the types of parameters: with those of that name
the references are all identifiers that spell it, and without them only where there are none. -/
theorem references_eq_occurrences_iff (h : (Parse.tokens (Token.scan src) n).errors = [])
    {name : String} (hname : name ≠ "") :
    let program := (Parse.tokens (Token.scan src) n).program
    let named := occurrences (Token.scan src) name
    (references program name true).Sublist named ∧
      (references program name true).Pairwise Token.Before ∧
      (references program name true ++ typeReferences program name).Perm named ∧
      (references program name true = named ↔ typeReferences program name = []) := by
  intro program named
  have hperm : (references program name true ++ typeReferences program name).Perm named :=
    references_append_perm h hname
  have hnamed : named.Pairwise Token.Before := pairwise_occurrences src name
  -- no two identifiers share a place, so sorting by places leaves no choice
  have hplaces : (references program name true).Pairwise fun a b => a.position ≠ b.position := by
    have hall := hnamed.imp fun hab => position_ne_of_before hab
    have happend := hall.perm hperm.symm fun hab => hab.symm
    exact (List.pairwise_append.1 happend).1
  have hordered : (references program name true).Pairwise Token.Before := by
    refine (pairwise_references program name true).imp₂ (fun a b hle hne => ?_) hplaces
    exact (inSourceOrder_iff.1 hle).resolve_left hne
  have : Std.Antisymm Token.Before :=
    ⟨fun a b hab hba => absurd rfl (position_ne_of_before (hab.trans hba))⟩
  have hsub : (references program name true).Sublist named := by
    have hsubperm : (references program name true).Subperm named :=
      (List.sublist_append_left _ _).subperm.trans hperm.subperm
    exact List.sublist_of_subperm_of_pairwise hsubperm hordered hnamed
  refine ⟨hsub, hordered, hperm, ?_⟩
  have hlength := hperm.length_eq
  rw [List.length_append] at hlength
  constructor
  · intro heq
    rw [heq] at hlength
    exact List.eq_nil_of_length_eq_zero (by omega)
  · intro hnil
    rw [hnil, List.length_nil] at hlength
    exact hsub.eq_of_length hlength

/-- A source without typed parameters, where every identifier is found. -/
theorem references_eq_occurrences_iff_assigned :
    (Parse.tokens (Token.scan (Glyph.ofString "var a = 1 a = a")) 0).errors = [] ∧
      references
        (Parse.tokens (Token.scan (Glyph.ofString "var a = 1 a = a")) 0).program "a" true =
          occurrences (Token.scan (Glyph.ofString "var a = 1 a = a")) "a" := by
  have h : (Parse.tokens (Token.scan (Glyph.ofString "var a = 1 a = a")) 0).errors = [] :=
    List.isEmpty_iff.1 (by decide +kernel)
  have htypes : typeReferences
      (Parse.tokens (Token.scan (Glyph.ofString "var a = 1 a = a")) 0).program "a" = [] :=
    List.isEmpty_iff.1 (by decide +kernel)
  exact ⟨h, (references_eq_occurrences_iff h (by decide)).2.2.2.2 htypes⟩

/-- The type of a parameter spells the name of a class, and is no reference to it. -/
theorem references_miss_types :
    ¬ ∀ (src : List Glyph) (n : NodeId) (name : String), name ≠ "" →
      (Parse.tokens (Token.scan src) n).errors = [] →
        references (Parse.tokens (Token.scan src) n).program name true =
          occurrences (Token.scan src) name := by
  intro hall
  let src := Glyph.ofString "class A \x7b\x7d fun f(A a) \x7b\x7d"
  have h : (Parse.tokens (Token.scan src) 0).errors = [] := List.isEmpty_iff.1 (by decide +kernel)
  have hlength := congrArg List.length (hall src 0 "A" (by decide) h)
  rw [references, List.length_mergeSort] at hlength
  revert hlength
  decide +kernel

end ClassScript.Editor
