import Mathlib.Data.List.Nodup
import ClassScript.Parse.Grammar
import ClassScript.Proofs.Scope.Uses
import ClassScript.Proofs.Token.Lexemes

/-!
# What the grammar promises of a tree

The nodes of a parsed program have identities of their own, all of them new, and whatever a
program gives a name to has a name that is not a reserved word. `Formed` says so of the nodes of a
piece of syntax, and `Parse.Yields` follows it through the steps of a parse: a step yields a tree
whose identities lie between the first free identity before the step and the one after it.
-/

namespace ClassScript

/-! ### Names -/

/-- A token that names something: an identifier, and so not a reserved word. -/
def Token.IsName (t : Token) : Prop :=
  t.kind = .identifier ∧ Token.Kind.ofWord t.lexeme = .identifier

/-- A token that names something if it is an identifier. -/
def Token.Plain (t : Token) : Prop :=
  t.kind = .identifier → Token.Kind.ofWord t.lexeme = .identifier

/-- No name is the word for the receiver. -/
theorem Token.IsName.ne_self {t : Token} (h : t.IsName) : t.lexeme ≠ "self" := by
  intro e
  have hw := h.2
  rw [e] at hw
  exact absurd hw (by decide)

/-- No name is the word for the superclasses. -/
theorem Token.IsName.ne_super {t : Token} (h : t.IsName) : t.lexeme ≠ "super" := by
  intro e
  have hw := h.2
  rw [e] at hw
  exact absurd hw (by decide)

namespace Token

/-- A cut that is not a reserved word if it is an identifier. -/
def Cut.IsPlain (c : Cut) : Prop :=
  c.kind = .identifier → Kind.ofWord (Glyph.text c.spelling) = .identifier

/-- Only words are identifiers, and only those that are not reserved. -/
theorem Cuts.isPlain {g : Glyph} {rest : List Glyph} {c : Cut} (h : Cuts g rest c) :
    c.IsPlain := by
  cases h with
  | punctuation hkind => exact fun h => absurd h (isSign_of_punctuation hkind).ne_identifier
  | alone hkinds => exact fun h => absurd h (isSign_of_comparison hkinds).1.ne_identifier
  | doubled hkinds => exact fun h => absurd h (isSign_of_comparison hkinds).2.ne_identifier
  | word => exact fun h => h
  | dot | ellipsis | string | unterminated | integer | outOfRange | float | infinite | unexpected =>
    exact nofun

/-- No token of a source that is an identifier is a reserved word. -/
theorem plain_scanFrom (p : Position) (src : List Glyph) : ∀ t ∈ scanFrom p src, t.Plain := by
  fun_induction scanFrom p src with
  | case1 p src q h =>
    intro t ht
    rw [List.mem_singleton.1 ht]
    intro hname
    cases hname
  | case2 p src q g rest h c ih =>
    intro t ht
    rcases List.mem_cons.1 ht with rfl | ht
    · exact (cuts_cut g rest).isPlain
    · exact ih t ht

end Token

/-! ### Trees -/

/-- What the grammar promises of a node: what it names has a name, and the other branch of a
conditional is a block or a conditional. -/
def Node.Proper : Node → Prop
  | expr (.var use) => use.name.IsName
  | expr (.assign _ name _) => name.IsName
  | expr (.lambda fn) => ∀ p ∈ fn.params, p.name.IsName
  | stmt (.varDecl _ name _) | stmt (.classDecl _ name _ _) | stmt (.forIn _ _ name _ _) =>
    name.IsName
  | stmt (.function _ fn) => ∃ name, fn.name = some name ∧ name.IsName
  | stmt (.ifElse _ _ _ _ (some s)) =>
    (∃ b, s = .block b) ∨ ∃ id keyword condition body otherwise,
      s = .ifElse id keyword condition body otherwise
  | _ => True

/-- Nodes as the grammar makes them, with different identities from one on and below another. -/
structure Formed (lo hi : Nat) (ns : List Node) : Prop where
  /-- The identities were handed out in between. -/
  le : lo ≤ hi
  /-- Every identity was handed out in between. -/
  range : ∀ n ∈ ns, lo ≤ n.id ∧ hi > n.id
  /-- No two nodes have one identity. -/
  nodup : (ns.map Node.id).Nodup
  /-- Every node is as the grammar promises. -/
  proper : ∀ n ∈ ns, n.Proper

namespace Formed

variable {lo mid hi hi' : Nat} {ns ns₁ ns₂ : List Node}

/-- No nodes are formed, with nothing in the range of their identities. -/
theorem nil (h : lo ≤ hi) : Formed lo hi [] := ⟨h, nofun, .nil, nofun⟩

/-- Trees that were made one after the other. -/
theorem append (h₁ : Formed lo mid ns₁) (h₂ : Formed mid hi ns₂) :
    Formed lo hi (ns₁ ++ ns₂) where
  le := Nat.le_trans h₁.le h₂.le
  range n hn := by
    have l₁ := h₁.le
    have l₂ := h₂.le
    rcases List.mem_append.1 hn with hn | hn
    · have := h₁.range n hn
      omega
    · have := h₂.range n hn
      omega
  nodup := by
    rw [List.map_append, List.nodup_append]
    refine ⟨h₁.nodup, h₂.nodup, ?_⟩
    -- One identity on both sides would be below the middle and at or above it.
    rintro (i : Nat) hi₁ _ hi₂ rfl
    obtain ⟨n₁, hn₁, rfl⟩ := List.mem_map.1 hi₁
    obtain ⟨n₂, hn₂, e⟩ := List.mem_map.1 hi₂
    have r₁ := (h₁.range n₁ hn₁).2
    have r₂ := (h₂.range n₂ hn₂).1
    rw [e] at r₂
    omega
  proper n hn := by
    rcases List.mem_append.1 hn with hn | hn
    · exact h₁.proper n hn
    · exact h₂.proper n hn

/-- The range of identities may end later. -/
theorem widen (h : Formed lo hi ns) (hh : hi ≤ hi') : Formed lo hi' ns where
  le := Nat.le_trans h.le hh
  range n hn := ⟨(h.range n hn).1, Nat.lt_of_lt_of_le (h.range n hn).2 hh⟩
  nodup := h.nodup
  proper := h.proper

/-- Nodes that are left out. -/
theorem sublist (h : Formed lo hi ns) (hs : ns₁.Sublist ns) : Formed lo hi ns₁ where
  le := h.le
  range n hn := h.range n (hs.subset hn)
  nodup := (hs.map _).nodup h.nodup
  proper n hn := h.proper n (hs.subset hn)

/-- A node that is made after the nodes below it. -/
theorem cons {n : Node} (h : Formed lo hi ns) (hid : hi = n.id) (hp : n.Proper) :
    Formed lo (hi + 1) (n :: ns) where
  le := Nat.le_succ_of_le h.le
  range x hx := by
    have l := h.le
    rcases List.mem_cons.1 hx with rfl | hx
    · omega
    · have := h.range x hx
      omega
  nodup := by
    rw [List.map_cons, List.nodup_cons]
    -- The identity of the new node is the bound of those below it.
    refine ⟨fun hm => ?_, h.nodup⟩
    obtain ⟨x, hx, e⟩ := List.mem_map.1 hm
    have r := (h.range x hx).2
    rw [e] at r
    omega
  proper x hx := by
    rcases List.mem_cons.1 hx with rfl | hx
    · exact hp
    · exact h.proper x hx

/-- Nodes in another order. -/
theorem perm (h : Formed lo hi ns) (hp : ns₁.Perm ns) : Formed lo hi ns₁ where
  le := h.le
  range n hn := h.range n (hp.subset hn)
  nodup := (hp.map _).nodup_iff.2 h.nodup
  proper n hn := h.proper n (hp.subset hn)

end Formed

/-! ### Trees in a row -/

/-- Expressions in two rows have the nodes of both. -/
theorem Expr.nodesOf_append (xs ys : List Expr) :
    Expr.nodesOf everywhere (xs ++ ys) =
      Expr.nodesOf everywhere xs ++ Expr.nodesOf everywhere ys := by
  induction xs with
  | nil => rfl
  | cons x rest ih => simp only [List.cons_append, Expr.nodesOf, ih, List.append_assoc]

/-- So have named arguments. -/
theorem NamedArg.nodesOf_append (xs ys : List NamedArg) :
    NamedArg.nodesOf everywhere (xs ++ ys) =
      NamedArg.nodesOf everywhere xs ++ NamedArg.nodesOf everywhere ys := by
  induction xs with
  | nil => rfl
  | cons x rest ih =>
    obtain ⟨name, value⟩ := x
    simp only [List.cons_append, NamedArg.nodesOf, ih, List.append_assoc]

/-- So have parameters. -/
theorem Param.nodesOf_append (xs ys : List Param) :
    Param.nodesOf everywhere (xs ++ ys) =
      Param.nodesOf everywhere xs ++ Param.nodesOf everywhere ys := by
  induction xs with
  | nil => rfl
  | cons x rest ih =>
    obtain ⟨type, name, value, variadic⟩ := x
    cases value <;> simp only [List.cons_append, Param.nodesOf, ih, List.append_assoc]

/-- So have methods. -/
theorem Lambda.nodesOf_append (xs ys : List Lambda) :
    Lambda.nodesOf everywhere (xs ++ ys) =
      Lambda.nodesOf everywhere xs ++ Lambda.nodesOf everywhere ys := by
  induction xs with
  | nil => rfl
  | cons x rest ih => simp only [List.cons_append, Lambda.nodesOf, ih, List.append_assoc]

/-- So have statements. -/
theorem Stmt.nodesOf_append (xs ys : List Stmt) :
    Stmt.nodesOf everywhere (xs ++ ys) =
      Stmt.nodesOf everywhere xs ++ Stmt.nodesOf everywhere ys := by
  induction xs with
  | nil => rfl
  | cons x rest ih => simp only [List.cons_append, Stmt.nodesOf, ih, List.append_assoc]

end ClassScript
