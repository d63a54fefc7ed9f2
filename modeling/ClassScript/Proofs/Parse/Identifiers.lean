import Mathlib.Algebra.BigOperators.Group.List.Basic
import Mathlib.Algebra.Order.Group.Multiset
import Mathlib.Tactic.Abel
import ClassScript.Editor.Names
import ClassScript.Proofs.Parse.Faithful.Programs
import ClassScript.Proofs.Parse.Ordered

/-!
# The identifiers of a tree

A tree is written with the names that its nodes declare or use, with the types of parameters where
the source has them, and with no other identifiers. Each name belongs to one node only, so the two
sides agree with their repetitions: they are equal as multisets.
-/

namespace ClassScript

/-! ### Identifiers among tokens -/

namespace Token

variable {t : Token} {kind : Kind}

/-- The identifiers among tokens. -/
def identifiers (ts : List Token) : Multiset Token := ts.filter (·.kind = .identifier)

/-- No tokens have no identifiers. -/
@[simp] theorem identifiers_nil : identifiers [] = 0 := rfl

/-- An identifier in front is counted. -/
theorem identifiers_cons (h : t.kind = .identifier) (ts : List Token) :
    identifiers (t :: ts) = {t} + identifiers ts := by
  rw [identifiers, List.filter_cons_of_pos (by simp [h])]
  rfl

/-- Another token in front is not. -/
theorem identifiers_cons_of_ne (h : t.kind ≠ .identifier) (ts : List Token) :
    identifiers (t :: ts) = identifiers ts := by
  rw [identifiers, List.filter_cons_of_neg (by simp [h]), identifiers]

/-- Neither is one of a kind that is known to be another. -/
theorem identifiers_cons_of_kind (h : t.kind = kind) (hkind : kind ≠ .identifier)
    (ts : List Token) : identifiers (t :: ts) = identifiers ts :=
  identifiers_cons_of_ne (h ▸ hkind) ts

/-- The identifiers of two rows of tokens are those of both. -/
@[simp] theorem identifiers_append (ts us : List Token) :
    identifiers (ts ++ us) = identifiers ts + identifiers us := by
  rw [identifiers, List.filter_append, ← Multiset.coe_add]
  rfl

/-- Commas are no identifiers. -/
theorem identifiers_commas (pieces : List (List Token)) :
    identifiers (commas pieces) = (pieces.map identifiers).sum := by
  induction pieces with
  | nil => rfl
  | cons piece rest ih =>
    by_cases hrest : rest = []
    · subst hrest
      rw [commas_singleton, List.map_singleton, List.sum_singleton]
    · rw [commas_cons piece hrest, identifiers_append, identifiers_cons_of_ne (by decide), ih,
        List.map_cons, List.sum_cons]

/-- A list of identifiers has no others. -/
theorem identifiers_eq_coe {ts : List Token} (h : ∀ t ∈ ts, t.kind = .identifier) :
    identifiers ts = ts := by
  rw [identifiers, List.filter_eq_self.2 fun t ht => decide_eq_true (h t ht)]

end Token

/-! ### Names of nodes -/

/-- The types that parameters have in the source. -/
def Param.writtenTypes (params : List Param) : List Token :=
  (params.map (·.type)).filter (!·.isImplied)

namespace Node

/-- The types that a node itself gives to its parameters. -/
def writtenTypes : Node → List Token
  | .expr (.lambda fn) => Param.writtenTypes fn.params
  | _ => []

/-- The names in a node itself. -/
def names (n : Node) : List Token := n.usedNames ++ n.declaredNames ++ n.writtenTypes

/-- The names in nodes. -/
def namesOf (ns : List Node) : Multiset Token := ns.flatMap names

/-- The names of a node in front are counted. -/
@[simp] theorem namesOf_cons (n : Node) (ns : List Node) :
    namesOf (n :: ns) = (n.names : Multiset Token) + namesOf ns := by
  rw [namesOf, List.flatMap_cons, ← Multiset.coe_add]
  rfl

/-- The names in two rows of nodes are those in both. -/
@[simp] theorem namesOf_append (ns ms : List Node) :
    namesOf (ns ++ ms) = namesOf ns + namesOf ms := by
  rw [namesOf, List.flatMap_append, ← Multiset.coe_add]
  rfl

end Node

/-! ### Trees -/

section Trees

open Token Node

variable {lone : Prop}

/-- A node that is visited adds its names to those below. -/
theorem namesOf_visit (n : Node) (below : List Node) :
    namesOf (n.visit everywhere below) = (n.names : Multiset Token) + namesOf below := by
  rw [visit_everywhere, namesOf_cons]

/-- Operators are no identifiers. -/
theorem Expr.Joined.not_identifier {low high : Nat} {left right : Expr} {op : Token}
    (h : Expr.Joined low high left op right) : op.kind ≠ .identifier := by
  obtain ⟨r, hbinding, -⟩ := h
  intro hop
  rw [hop] at hbinding
  cases hbinding

/-- Constants are no identifiers. -/
theorem Parse.constant?_not_identifier {t : Token} {value : Literal}
    (h : Parse.constant? t = some value) : t.kind ≠ .identifier := by
  intro ht
  rw [Parse.constant?, ht] at h
  cases h

/-- The name of a function with a name is an identifier. -/
theorem Lambda.Named.identifier {fn : Lambda} (h : fn.Named) :
    ∀ name ∈ fn.name, name.kind = .identifier := by
  obtain ⟨name, hname, hkind⟩ := h
  rw [hname]
  rintro _ ⟨⟩
  exact hkind

/-- A parameter in front adds the type that the source gives it. -/
theorem Param.writtenTypes_cons (p : Param) (rest : List Param) :
    Param.writtenTypes (p :: rest) =
      (if p.type.isImplied then [] else [p.type]) ++ Param.writtenTypes rest := by
  unfold Param.writtenTypes
  rw [List.map_cons, List.filter_cons]
  cases p.type.isImplied <;> rfl

/-- The identifiers in front of a parameter's default. -/
theorem Param.identifiers_front {p : Param} (hp : p.Grammatical lone) (ending : Endings) :
    identifiers (p.spell ending) =
      ((if p.type.isImplied then [] else [p.type] : List Token) : Multiset Token) + {p.name} +
        identifiers (Expr.spellGiven ending p.defaultValue) := by
  obtain ⟨htype, -, hname, -⟩ := Param.grammatical_iff.1 hp
  have hmark : identifiers (if p.variadic then [.mark .ellipsis] else []) = 0 := by
    split
    · exact identifiers_cons_of_ne (by decide) []
    · rfl
  have htypes : identifiers (if p.type.isImplied then [] else [p.type]) =
      ((if p.type.isImplied then [] else [p.type] : List Token) : Multiset Token) := by
    split
    · rfl
    · exact identifiers_eq_coe (List.forall_mem_singleton.2 htype)
  rw [Param.spell_eq, identifiers_append, identifiers_append, hmark, htypes,
    identifiers_cons hname, zero_add, add_assoc]

/-- The word in front of a function is no identifier. -/
theorem Lambda.identifiers_front (fn : Lambda)
    (hname : ∀ name ∈ fn.name, name.kind = .identifier) :
    identifiers ((if fn.keyword.kind = .funWord then [fn.keyword] else []) ++ fn.name.toList) =
      (fn.name.toList : Multiset Token) := by
  have hword : identifiers (if fn.keyword.kind = .funWord then [fn.keyword] else []) = 0 := by
    split
    case isTrue h => exact identifiers_cons_of_ne (by rw [h]; decide) []
    case isFalse => rfl
  rw [identifiers_append, hword, zero_add,
    identifiers_eq_coe fun t ht => hname t (Option.mem_toList.1 ht)]

/-- The superclasses of a class are written with their names. -/
theorem NameUse.identifiers_spellSupers {supers : List NameUse}
    (h : ∀ s ∈ supers, s.name.kind = .identifier) :
    identifiers (NameUse.spellSupers supers) =
      namesOf (supers.flatMap fun s => Node.visit everywhere (.expr (.var s)) []) := by
  -- Between the names stand commas, which are no identifiers.
  have hpieces : ((supers.map fun s => [s.name]).map identifiers).sum =
      namesOf (supers.flatMap fun s => Node.visit everywhere (.expr (.var s)) []) := by
    induction supers with
    | nil => rfl
    | cons s rest ih =>
      obtain ⟨hs, hrest⟩ := List.forall_mem_cons.1 h
      rw [List.map_cons, List.map_cons, List.sum_cons, ih hrest, identifiers_cons hs]
      rfl
  cases supers with
  | nil => rfl
  | cons s rest =>
    rw [NameUse.spellSupers, identifiers_cons_of_ne (by decide), identifiers_commas, hpieces]

mutual

/-- The identifiers of an expression are the names in its nodes. -/
theorem Expr.identifiers_spell : ∀ e : Expr, e.BareSuper ∨ e.Grammatical lone →
    identifiers (e.spell .omitted) = namesOf (e.nodes everywhere)
  | .assign _ name value, .inr hg => by
    rw [Expr.spell, identifiers_cons hg.1, identifiers_cons_of_ne (by decide),
      value.identifiers_spell (.inr hg.2), Expr.nodes, namesOf_visit]
    rfl
  | .binary _ left op right, .inr hg | .logical _ left op right, .inr hg => by
    rw [Expr.spell, identifiers_append, identifiers_cons_of_ne hg.1.not_identifier,
      left.identifiers_spell (.inr hg.2.1), right.identifiers_spell (.inr hg.2.2), Expr.nodes,
      namesOf_visit, namesOf_append]
    exact (zero_add _).symm
  | .call _ callee paren args named, .inr hg => by
    rw [Expr.spell, identifiers_append, identifiers_cons_of_ne (by decide), identifiers_append,
      identifiers_commas, List.map_append, List.sum_append,
      identifiers_cons_of_kind hg.2.2.1 (by decide), callee.identifiers_spell hg.2.1,
      Expr.identifiers_spellEach args hg.2.2.2.1,
      NamedArg.identifiers_spellEach named hg.2.2.2.2.1, Expr.nodes, namesOf_visit,
      namesOf_append, namesOf_append]
    -- The names of the arguments are the only ones of the call's own node.
    change _ = ((named.map (·.name) ++ [] ++ [] : List Token) : Multiset Token) + _
    rw [List.append_nil, List.append_nil, identifiers_nil]
    abel
  | .get _ object name, .inr hg => by
    rw [Expr.spell, identifiers_append, identifiers_cons_of_ne (by decide),
      identifiers_cons hg.2.2, object.identifiers_spell (.inr hg.2.1), Expr.nodes, namesOf_visit]
    exact add_comm _ _
  | .set _ object name value, .inr hg => by
    rw [Expr.spell, identifiers_append, identifiers_cons_of_ne (by decide),
      identifiers_cons hg.2.2.1, identifiers_cons_of_ne (by decide),
      object.identifiers_spell (.inr hg.2.1), value.identifiers_spell (.inr hg.2.2.2), Expr.nodes,
      namesOf_visit, namesOf_append]
    exact add_left_comm _ _ _
  | .group _ paren inner, .inr hg => by
    rw [Expr.spell, identifiers_cons_of_kind hg.1 (by decide), identifiers_append,
      identifiers_cons_of_ne (by decide), inner.identifiers_spell (.inr hg.2), Expr.nodes,
      namesOf_visit]
    exact add_comm _ _
  | .literal _ token value, .inr hg => by
    rw [Expr.spell, identifiers_cons_of_ne (Parse.constant?_not_identifier hg)]
    rfl
  | .list _ bracket elements, .inr hg => by
    rw [Expr.spell, identifiers_cons_of_kind hg.1 (by decide), identifiers_append,
      identifiers_cons_of_ne (by decide), identifiers_commas,
      Expr.identifiers_spellEach elements hg.2, Expr.nodes, namesOf_visit]
    exact add_comm _ _
  | .self _ keyword, .inr hg => by
    rw [Expr.spell, identifiers_cons_of_kind hg (by decide)]
    rfl
  | .super _ keyword none, h => by
    rw [Expr.spell, identifiers_cons_of_kind (h.elim id (·.2)) (by decide)]
    rfl
  | .super _ keyword (some method), .inr hg => by
    rw [Expr.spell, identifiers_cons_of_kind hg.1 (by decide), identifiers_cons_of_ne (by decide),
      identifiers_cons hg.2]
    rfl
  | .unary _ op right, .inr hg => by
    have hop : op.kind ≠ .identifier := by
      rcases hg.1 with h | h <;> rw [h] <;> decide
    rw [Expr.spell, identifiers_cons_of_ne hop, right.identifiers_spell (.inr hg.2.2), Expr.nodes,
      namesOf_visit]
    exact (zero_add _).symm
  | .var use, .inr hg => by
    rw [Expr.spell, identifiers_cons hg]
    rfl
  | .lambda fn, .inr hg => by
    rw [Expr.spell, Expr.nodes]
    -- A function without a name spells none.
    refine fn.identifiers_spell (fun name hname => ?_) hg.2.2
    rw [hg.2.1] at hname
    cases hname

/-- Expressions in a row are spelled with the names in their nodes. -/
theorem Expr.identifiers_spellEach : ∀ es : List Expr, Expr.AllGrammatical lone es →
    ((Expr.spellEach .omitted es).map identifiers).sum = namesOf (Expr.nodesOf everywhere es)
  | [], _ => rfl
  | e :: rest, hg => by
    rw [Expr.spellEach, List.map_cons, List.sum_cons, e.identifiers_spell (.inr hg.1),
      Expr.identifiers_spellEach rest hg.2, Expr.nodesOf, namesOf_append]

/-- Named arguments are spelled with their own names besides. -/
theorem NamedArg.identifiers_spellEach : ∀ args : List NamedArg, NamedArg.AllGrammatical lone args →
    ((NamedArg.spellEach .omitted args).map identifiers).sum =
      (args.map (·.name) : Multiset Token) + namesOf (NamedArg.nodesOf everywhere args)
  | [], _ => rfl
  | ⟨name, value⟩ :: rest, hg => by
    rw [NamedArg.spellEach, List.map_cons, List.sum_cons, identifiers_cons hg.1.1,
      identifiers_cons_of_ne (by decide), value.identifiers_spell (.inr hg.1.2),
      NamedArg.identifiers_spellEach rest hg.2, NamedArg.nodesOf, namesOf_append, List.map_cons,
      ← Multiset.cons_coe, ← Multiset.singleton_add]
    abel

/-- Parameters are spelled with their own names and their types besides. -/
theorem Param.identifiers_spellEach : ∀ params : List Param, Param.AllGrammatical lone params →
    ((Param.spellEach .omitted params).map identifiers).sum =
      (params.map (·.name) : Multiset Token) + (Param.writtenTypes params : Multiset Token) +
        namesOf (Param.nodesOf everywhere params)
  | [], _ => rfl
  | ⟨type, name, none, variadic⟩ :: rest, hg => by
    rw [Param.spellEach, List.map_cons, List.sum_cons, Param.identifiers_front hg.1,
      Param.identifiers_spellEach rest hg.2, Param.writtenTypes_cons, Param.nodesOf, List.map_cons,
      ← Multiset.cons_coe, ← Multiset.singleton_add, ← Multiset.coe_add, Expr.spellGiven,
      identifiers_nil]
    abel
  | ⟨type, name, some value, variadic⟩ :: rest, hg => by
    rw [Param.spellEach, List.map_cons, List.sum_cons, Param.identifiers_front hg.1,
      Param.identifiers_spellEach rest hg.2, Param.writtenTypes_cons, Param.nodesOf, List.map_cons,
      ← Multiset.cons_coe, ← Multiset.singleton_add, ← Multiset.coe_add, Expr.spellGiven,
      identifiers_cons_of_ne (by decide), value.identifiers_spell (.inr hg.1.2.2.2.2),
      namesOf_append]
    abel

/-- A function is spelled with the names in its nodes. -/
theorem Lambda.identifiers_spell : ∀ fn : Lambda, (∀ name ∈ fn.name, name.kind = .identifier) →
    fn.Grammatical lone → identifiers (fn.spell .omitted) = namesOf (fn.nodes everywhere)
  | ⟨n, keyword, name, params, body⟩, hname, hg => by
    rw [Lambda.spell, identifiers_append,
      Lambda.identifiers_front ⟨n, keyword, name, params, body⟩ hname,
      identifiers_cons_of_ne (by decide), identifiers_append, identifiers_commas,
      identifiers_cons_of_ne (by decide), identifiers_cons_of_ne (by decide), identifiers_append,
      identifiers_cons_of_ne (by decide),
      Param.identifiers_spellEach params hg.2.1, Stmt.identifiers_spellAll body hg.2.2,
      Lambda.nodes, namesOf_visit, namesOf_append]
    change _ = (([] ++ (name.toList ++ params.map (·.name)) ++ Param.writtenTypes params :
      List Token) : Multiset Token) + _
    rw [List.nil_append, ← Multiset.coe_add, ← Multiset.coe_add, identifiers_nil]
    abel

/-- So are methods in a row. -/
theorem Lambda.identifiers_spellAll : ∀ fns : List Lambda, Lambda.AllGrammatical lone fns →
    identifiers (Lambda.spellAll .omitted fns) = namesOf (Lambda.nodesOf everywhere fns)
  | [], _ => rfl
  | fn :: rest, hg => by
    rw [Lambda.spellAll, identifiers_append, identifiers_append,
      fn.identifiers_spell hg.1.1.identifier hg.1.2.2, Lambda.identifiers_spellAll rest hg.2,
      Lambda.nodesOf, namesOf_append]
    exact congrArg (· + _) (add_zero _)

/-- So is a block. -/
theorem Block.identifiers_spell : ∀ b : Block, b.Grammatical lone →
    identifiers (b.spell .omitted) = namesOf (b.nodes everywhere)
  | ⟨_, brace, body⟩, hg => by
    rw [Block.spell, identifiers_cons_of_kind hg.1 (by decide), identifiers_append,
      identifiers_cons_of_ne (by decide), Stmt.identifiers_spellAll body hg.2, Block.nodes,
      namesOf_visit]
    exact add_comm _ _

/-- So is a statement. -/
theorem Stmt.identifiers_spell : ∀ s : Stmt, s.Grammatical lone →
    identifiers (s.spell .omitted) = namesOf (s.nodes everywhere)
  | .block b, hg => by
    rw [Stmt.spell, Stmt.nodes, b.identifiers_spell hg]
  | .classDecl _ name supers methods, hg => by
    rw [Stmt.spell, identifiers_cons_of_ne (by decide), identifiers_cons hg.1, identifiers_append,
      identifiers_cons_of_ne (by decide), identifiers_append, identifiers_cons_of_ne (by decide),
      NameUse.identifiers_spellSupers hg.2.1, Lambda.identifiers_spellAll methods hg.2.2,
      Stmt.nodes, namesOf_visit, namesOf_append, identifiers_nil, add_zero]
    rfl
  | .expr _ value, hg => by
    rw [Stmt.spell, Stmt.nodes, namesOf_visit, value.identifiers_spell (.inr hg)]
    exact (zero_add _).symm
  | .function _ fn, hg => by
    rw [Stmt.spell, Stmt.nodes, namesOf_visit, fn.identifiers_spell hg.1.identifier hg.2.2]
    exact (zero_add _).symm
  | .ifElse _ keyword condition body none, hg => by
    rw [Stmt.spell, identifiers_cons_of_kind hg.1 (by decide), identifiers_append,
      condition.identifiers_spell (.inr hg.2.1), body.identifiers_spell hg.2.2, Stmt.nodes,
      namesOf_visit, namesOf_append]
    exact (zero_add _).symm
  | .ifElse _ keyword condition body (some otherwise), hg => by
    rw [Stmt.spell, identifiers_cons_of_kind hg.1 (by decide), identifiers_append,
      identifiers_append,
      identifiers_cons_of_ne (by decide), condition.identifiers_spell (.inr hg.2.1),
      body.identifiers_spell hg.2.2.1, otherwise.identifiers_spell hg.2.2.2.2, Stmt.nodes,
      namesOf_visit, namesOf_append, namesOf_append]
    exact (zero_add _).symm
  | .forIn _ keyword name iterable body, hg => by
    rw [Stmt.spell, identifiers_cons_of_kind hg.1 (by decide), identifiers_cons hg.2.1,
      identifiers_cons_of_ne (by decide), identifiers_append,
      iterable.identifiers_spell (.inr hg.2.2.1), body.identifiers_spell hg.2.2.2, Stmt.nodes,
      namesOf_visit, namesOf_append]
    rfl
  | .whileLoop _ keyword condition body, hg => by
    rw [Stmt.spell, identifiers_cons_of_kind hg.1 (by decide), identifiers_append,
      condition.identifiers_spell (.inr hg.2.1), body.identifiers_spell hg.2.2, Stmt.nodes,
      namesOf_visit, namesOf_append]
    exact (zero_add _).symm
  | .ret _ keyword none, hg => by
    rw [Stmt.spell, identifiers_cons_of_kind hg (by decide)]
    rfl
  | .ret _ keyword (some value), hg => by
    rw [Stmt.spell, identifiers_cons_of_kind hg.1 (by decide), value.identifiers_spell (.inr hg.2),
      Stmt.nodes, namesOf_visit]
    exact (zero_add _).symm
  | .varDecl _ name none, hg => by
    rw [Stmt.spell, identifiers_cons_of_ne (by decide), identifiers_cons hg]
    rfl
  | .varDecl _ name (some value), hg => by
    rw [Stmt.spell, identifiers_cons_of_ne (by decide), identifiers_cons hg.1,
      identifiers_cons_of_ne (by decide), value.identifiers_spell (.inr hg.2), Stmt.nodes,
      namesOf_visit]
    rfl

/-- The identifiers of a program are the names in its nodes. -/
theorem Stmt.identifiers_spellAll : ∀ body : List Stmt, Stmt.AllGrammatical lone body →
    identifiers (Stmt.spellAll .omitted body) = namesOf (Stmt.nodesOf everywhere body)
  | [], _ => rfl
  | s :: rest, hg => by
    rw [Stmt.spellAll, identifiers_append, identifiers_append, s.identifiers_spell hg.1,
      Stmt.identifiers_spellAll rest hg.2, Stmt.nodesOf, namesOf_append]
    exact congrArg (· + _) (add_zero _)

end

end Trees

/-! ### Sources -/

/-- A tree keeps the very identifiers of the tokens it was made of. -/
theorem Token.identifiers_eq_of_kept {ts us : List Token} (h : List.Forall₂ Kept ts us) :
    identifiers ts = identifiers us := by
  induction h with
  | nil => rfl
  | @cons t u ts us hkept _ ih =>
    -- An identifier is kept as it is; other tokens may be replaced by their marks.
    by_cases hu : u.kind = .identifier
    · have htu : u = t := hkept.eq_of_varies (hu ▸ rfl)
      rw [identifiers_cons hu, identifiers_cons (htu ▸ hu), ih, htu]
    · have ht : t.kind ≠ .identifier := by
        rcases hkept with rfl | ⟨-, rfl⟩
        · exact hu
        · exact hu
      rw [identifiers_cons_of_ne hu, identifiers_cons_of_ne ht, ih]

/-- The identifiers of a source that is parsed without errors are the names in its nodes. -/
theorem Parse.identifiers_scan {src : List Glyph} {n : NodeId}
    (h : (tokens (Token.scan src) n).errors = []) :
    Token.identifiers (Token.scan src) =
      Node.namesOf (allNodes (tokens (Token.scan src) n).program) := by
  obtain ⟨taken, last, hscan, hlast, -, hwritten, hgrammatical⟩ := written_tokens h
  -- Neither the mark of the end nor a semicolon is an identifier.
  have hends : Token.identifiers (Token.scan src) = Token.identifiers taken := by
    rw [hscan, Token.identifiers_append, Token.identifiers_cons_of_kind hlast (by decide),
      Token.identifiers_nil, add_zero]
  have hbare : Token.identifiers (taken.filter (·.kind ≠ .semicolon)) =
      Token.identifiers taken := by
    unfold Token.identifiers
    rw [List.filter_filter]
    refine congrArg _ (List.filter_congr fun t _ => ?_)
    by_cases ht : t.kind = .identifier <;> simp [ht]
  rw [hends, ← hbare, Token.identifiers_eq_of_kept hwritten.kept,
    Stmt.identifiers_spellAll _ hgrammatical]
  rfl

end ClassScript
