import ClassScript.Proofs.Parse.Faithful.Programs
import ClassScript.Proofs.Parse.Parts
import ClassScript.Proofs.Token.Layout

/-!
# Methods have names

In a source without errors every method has a name, and so has every method of the superclasses that
is asked for by name: a program spells the tokens of its source, and no identifier of a source is
empty.
-/

namespace ClassScript

/-! ### Identifiers -/

namespace Token

/-- A token that is not empty if it is an identifier. -/
def Worded (t : Token) : Prop := t.kind = .identifier → t.lexeme ≠ ""

/-- An identifier takes glyphs from the source, and they are its lexeme. -/
theorem worded_cut (g : Glyph) (rest : List Glyph) (p : Position) :
    ((cut g rest).token p).Worded := by
  intro hkind hempty
  have hkind' : (cut g rest).kind = .identifier := hkind
  have hlegal : (cut g rest).kind ≠ .illegal := by
    rw [hkind']
    decide
  have hspelling := (cuts_cut g rest).exact.spelling hlegal
  have hlexeme : Glyph.text (cut g rest).spelling = "" := hempty
  rw [hspelling, Glyph.text, String.ofList_eq_empty_iff, List.map_eq_nil_iff] at hlexeme
  exact (cuts_cut g rest).taken_ne_nil hlexeme

/-- The scanner makes no empty identifier. -/
theorem worded_scanFrom (p : Position) (src : List Glyph) :
    ∀ t ∈ scanFrom p src, t.Worded := by
  fun_induction scanFrom p src with
  | case1 p src q h =>
    intro t ht
    rw [List.mem_singleton.1 ht]
    intro hname
    cases hname
  | case2 p src q g rest h c ih =>
    intro t ht
    rcases List.mem_cons.1 ht with rfl | ht
    · exact worded_cut g rest q
    · exact ih t ht

end Token

/-! ### Trees -/

/-- What a program gives a name to by a method, and what it asks the superclasses for, is not
empty. -/
def Node.Worded : Node → Prop
  | stmt (.classDecl _ _ _ methods) => ∀ fn ∈ methods, fn.title ≠ ""
  | expr (.super _ _ (some method)) => method.lexeme ≠ ""
  | _ => True

section Trees

variable {lone : Prop} {ending : Endings}

/-- A method of a class whose tokens are worded has a name. -/
theorem Lambda.title_ne_empty {fn : Lambda} (h : fn.Named) (ht : ∀ t ∈ fn.spell ending, t.Worded) :
    fn.title ≠ "" := by
  obtain ⟨id, keyword, name, params, body⟩ := fn
  obtain ⟨name, rfl, hkind⟩ := h
  have hmem : name ∈ Lambda.spell ending ⟨id, keyword, some name, params, body⟩ := by
    simp [Lambda.spell]
  exact ht name hmem hkind

/-- Methods that are spelled with worded tokens have names that are not empty. -/
theorem Lambda.titles_ne_empty {fns : List Lambda} (h : Lambda.AllGrammatical lone fns)
    (ht : ∀ t ∈ Lambda.spellAll ending fns, t.Worded) : ∀ fn ∈ fns, fn.title ≠ "" := by
  induction fns with
  | nil => exact List.forall_mem_nil _
  | cons fn rest ih =>
    rw [Lambda.spellAll, List.forall_mem_append, List.forall_mem_append] at ht
    exact List.forall_mem_cons.2 ⟨Lambda.title_ne_empty h.1.1 ht.1.1, ih h.2 ht.2⟩

/-- A node of the grammar whose tokens are worded is worded. -/
theorem Node.worded {n : Node} (h : n.Grammatical lone) (ht : ∀ t ∈ n.spell ending, t.Worded) :
    n.Worded := by
  unfold Node.Worded
  -- Only classes and uses of a superclass have names to look at.
  split
  · next methods =>
    simp only [Node.spell, Stmt.spell, List.forall_mem_append, List.forall_mem_cons] at ht
    obtain ⟨-, -, -, -, hmethods, -⟩ := ht
    exact Lambda.titles_ne_empty h.2.2 hmethods
  · next method =>
    rcases h with hbare | hg
    · exact hbare.elim
    · exact ht method (by simp [Node.spell, Expr.spell]) hg.2
  · trivial

end Trees

/-- The methods of a source without errors have names. -/
theorem Parse.worded_source {source : String} {n : NodeId}
    (h : (Parse.source source n).errors = []) :
    ∀ node ∈ Stmt.nodesOf everywhere (Parse.source source n).program, node.Worded := by
  obtain ⟨taken, last, htokens, -, -, hwritten, hgrammatical⟩ := written_tokens h
  -- The program spells tokens of the source.
  have hspelled : ∀ t ∈ Stmt.spellAll .omitted (Parse.source source n).program, t.Worded := by
    intro t ht hkind
    have hview := List.mem_map_of_mem (f := Token.view) ht
    obtain ⟨t', ht', hsame⟩ := List.mem_map.1 (hwritten.bare.symm ▸ hview)
    obtain ⟨hkinds, hlexemes⟩ := Prod.ext_iff.1 hsame
    have hmem : t' ∈ Token.scan (Glyph.ofString source) :=
      htokens ▸ List.mem_append_left _ (List.mem_filter.1 ht').1
    have hlexeme : t'.lexeme = t.lexeme := hlexemes
    have hidentifier : t'.kind = .identifier := hkinds.trans hkind
    exact hlexeme ▸ Token.worded_scanFrom _ _ t' hmem hidentifier
  intro node hnode
  have hpart : node.PartOf True .omitted (Stmt.spellAll .omitted (Parse.source source n).program) :=
    Stmt.partsOf _ hgrammatical (List.infix_refl _) node hnode
  exact node.worded hpart.grammatical fun t ht => hspelled t (hpart.piece.subset ht)

end ClassScript
