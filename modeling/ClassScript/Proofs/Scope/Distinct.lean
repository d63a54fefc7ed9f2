import ClassScript.Proofs.Scope.Uses

/-!
# The scopes around a use are different

Every scope of the walk belongs to a node of its own, or to one half of a class. Around a use there
are thus no two scopes of the same syntax, and the syntax of a scope tells which scope it is.
-/

namespace ClassScript

open Scope

namespace Scope

/-- The node that opens a scope. -/
def Origin.node? : Origin → Option NodeId
  | .globals => none
  | .block id | .call id | .loop id | .supers id | .receiver id => some id

/-- The syntax of the scopes around a place. -/
def origins (scopes : List Region) : List Origin := scopes.map (·.origin)

/-- A declaration opens no scope. -/
theorem origins_declareIn (name : String) (scopes : List Region) :
    origins (declareIn name scopes) = origins scopes := by
  cases scopes <;> rfl

/-- Neither does what is pending. -/
theorem origins_pendIn (name : String) (scopes : List Region) :
    origins (pendIn name scopes) = origins scopes := by
  cases scopes <;> rfl

/-- Neither does a statement. -/
theorem origins_after (scopes : List Region) (s : Stmt) :
    origins (s.after scopes) = origins scopes := by
  rcases s.after_cases scopes with h | ⟨name, h⟩
  · rw [h]
  · rw [h, origins_declareIn]

/-- Different scopes, which belong to nodes outside of some syntax with different nodes. -/
structure Apart (os : List Origin) (ns : List Node) : Prop where
  /-- The scopes are different. -/
  scopes : os.Nodup
  /-- None is the outermost one. -/
  inner : .globals ∉ os
  /-- The nodes are different. -/
  nodes : (ns.map Node.id).Nodup
  /-- The scopes belong to other nodes. -/
  outside : ∀ o ∈ os, ∀ n ∈ ns, o.node? ≠ some n.id

namespace Apart

variable {os : List Origin} {ns ns₁ ns₂ : List Node} {n : Node}

/-- The scopes lie outside of fewer nodes as well. -/
theorem sublist (h : Apart os ns) (hs : List.Sublist ns₁ ns) : Apart os ns₁ where
  scopes := h.scopes
  inner := h.inner
  nodes := (hs.map Node.id).nodup h.nodes
  outside o ho n hn := h.outside o ho n (hs.subset hn)

/-- So they do for the first of two parts. -/
theorem left (h : Apart os (ns₁ ++ ns₂)) : Apart os ns₁ := h.sublist (List.sublist_append_left ..)

/-- So they do for the second one. -/
theorem right (h : Apart os (ns₁ ++ ns₂)) : Apart os ns₂ := h.sublist (List.sublist_append_right ..)

/-- So they do for what is below a node. -/
theorem below (h : Apart os (n :: ns)) : Apart os ns := h.sublist (List.sublist_cons_self ..)

/-- The scope of a node is none of those around it, nor one of a node below. -/
theorem inside (h : Apart os (n :: ns)) {o : Origin} (ho : o.node? = some n.id) :
    Apart (o :: os) ns where
  scopes := by
    refine List.nodup_cons.2 ⟨fun hmem => ?_, h.scopes⟩
    exact h.outside o hmem n List.mem_cons_self ho
  inner := by
    rintro (_ | ⟨_, hmem⟩)
    · cases ho
    · exact h.inner hmem
  nodes := h.below.nodes
  outside := by
    have hnew : n.id ∉ ns.map Node.id := by
      have hnodes := h.nodes
      rw [List.map_cons, List.nodup_cons] at hnodes
      exact hnodes.1
    -- The new scope is that of the node itself, which is none of those below.
    intro o' ho' x hx hid
    rcases List.mem_cons.1 ho' with rfl | ho'
    · rw [ho] at hid
      have hsame : n.id = x.id := Option.some.inj hid
      rw [hsame] at hnew
      exact hnew (List.mem_map_of_mem hx)
    · exact h.below.outside o' ho' x hx hid

/-- The two scopes of a class are different. -/
theorem methods (h : Apart os (n :: ns)) (id : NodeId) (hid : n.id = id) :
    Apart (.receiver id :: .supers id :: os) ns := by
  -- Both scopes belong to the node of the class, and no other scope does.
  have hsupers := h.inside (o := .supers id) (congrArg some hid.symm)
  have hreceiver := h.inside (o := .receiver id) (congrArg some hid.symm)
  refine ⟨List.nodup_cons.2 ⟨fun hmem => ?_, hsupers.scopes⟩, fun hmem => ?_, hsupers.nodes, ?_⟩
  · rcases List.mem_cons.1 hmem with e | hmem
    · cases e
    · exact (List.nodup_cons.1 hreceiver.scopes).1 hmem
  · rcases List.mem_cons.1 hmem with e | hmem
    · cases e
    · exact hsupers.inner hmem
  · intro o ho
    rcases List.mem_cons.1 ho with rfl | ho
    · exact hreceiver.outside _ List.mem_cons_self
    · exact hsupers.outside o ho

end Apart

/-- Uses around each of which the scopes are different, and none is the outermost one. -/
abbrev Distinct (us : List Use) : Prop :=
  ∀ u ∈ us, (origins u.scopes).Nodup ∧ .globals ∉ origins u.scopes

/-- The uses of two parts have different scopes if those of each part have. -/
theorem Distinct.append {us us' : List Use} (h : Distinct us) (h' : Distinct us') :
    Distinct (us ++ us') :=
  List.forall_mem_append.2 ⟨h, h'⟩

/-- A use has different scopes around it if they are apart. -/
theorem Apart.single {u : Use} {ns : List Node} (h : Apart (origins u.scopes) ns) : Distinct [u] :=
  List.forall_mem_singleton.2 ⟨h.scopes, h.inner⟩

end Scope

/-- So have the uses of variables in a row. -/
theorem NameUse.distinct {scopes : List Region} {ns : List Node} (h : Apart (origins scopes) ns)
    (uses : List NameUse) : Distinct (uses.map (NameUse.use scopes)) := by
  intro u hu
  obtain ⟨use, -, rfl⟩ := List.mem_map.1 hu
  exact ⟨h.scopes, h.inner⟩

mutual

/-- So have the uses in an expression. -/
theorem Expr.distinct (scopes : List Region) :
    ∀ e : Expr, Apart (origins scopes) (e.nodes everywhere) → Distinct (e.uses scopes)
  | .assign _ _ value, h => (value.distinct scopes h.below).append h.single
  | .binary _ left _ right, h | .logical _ left _ right, h =>
    (left.distinct scopes h.below.left).append (right.distinct scopes h.below.right)
  | .call _ callee _ args named, h =>
    ((callee.distinct scopes h.below.left.left).append
      (Expr.distinctOf scopes args h.below.left.right)).append
      (NamedArg.distinctOf scopes named h.below.right)
  | .get _ object _, h => object.distinct scopes h.below
  | .set _ object _ value, h =>
    -- The value is used before the object, whose nodes are walked first.
    (value.distinct scopes h.below.right).append (object.distinct scopes h.below.left)
  | .group _ _ inner, h => inner.distinct scopes h.below
  | .literal .., _ => List.forall_mem_nil _
  | .list _ _ elements, h => Expr.distinctOf scopes elements h.below
  | .self .., h | .super .., h | .var _, h => h.single
  | .unary _ _ right, h => right.distinct scopes h.below
  | .lambda fn, h => fn.distinct scopes scopes h h

/-- So have the uses in expressions in a row. -/
theorem Expr.distinctOf (scopes : List Region) : ∀ es : List Expr,
    Apart (origins scopes) (Expr.nodesOf everywhere es) → Distinct (Expr.usesOf scopes es)
  | [], _ => List.forall_mem_nil _
  | e :: rest, h => (e.distinct scopes h.left).append (Expr.distinctOf scopes rest h.right)

/-- So have the uses in named arguments. -/
theorem NamedArg.distinctOf (scopes : List Region) : ∀ args : List NamedArg,
    Apart (origins scopes) (NamedArg.nodesOf everywhere args) →
    Distinct (NamedArg.usesOf scopes args)
  | [], _ => List.forall_mem_nil _
  | ⟨_, value⟩ :: rest, h =>
    (value.distinct scopes h.left).append (NamedArg.distinctOf scopes rest h.right)

/-- So have the uses in the defaults of parameters. -/
theorem Param.distinctOf (scopes : List Region) : ∀ params : List Param,
    Apart (origins scopes) (Param.nodesOf everywhere params) → Distinct (Param.usesOf scopes params)
  | [], _ => List.forall_mem_nil _
  | ⟨_, _, none, _⟩ :: rest, h => Param.distinctOf scopes rest h
  | ⟨_, _, some value, _⟩ :: rest, h =>
    (value.distinct scopes h.left).append (Param.distinctOf scopes rest h.right)

/-- So have the uses in a function, whose defaults may lie in other scopes than its body. -/
theorem Lambda.distinct (outer scopes : List Region) : ∀ fn : Lambda,
    Apart (origins outer) (fn.nodes everywhere) → Apart (origins scopes) (fn.nodes everywhere) →
    Distinct (fn.uses outer scopes)
  | ⟨id, _, _, params, body⟩, ho, hs =>
    (Param.distinctOf outer params ho.below.left).append
      (Stmt.distinctOf (.call id params :: scopes) body (hs.inside rfl).right)

/-- So have the uses in methods. -/
theorem Lambda.distinctOf (scopes : List Region) : ∀ fns : List Lambda,
    Apart (origins scopes) (Lambda.nodesOf everywhere fns) → Distinct (Lambda.usesOf scopes fns)
  | [], _ => List.forall_mem_nil _
  | fn :: rest, h =>
    (fn.distinct scopes scopes h.left h.left).append (Lambda.distinctOf scopes rest h.right)

/-- So have the uses in a block. -/
theorem Block.distinct (scopes : List Region) : ∀ b : Block,
    Apart (origins scopes) (b.nodes everywhere) → Distinct (b.uses scopes)
  | ⟨id, _, body⟩, h => Stmt.distinctOf (.block id :: scopes) body (h.inside rfl)

/-- The scopes around a use in a statement are different. -/
theorem Stmt.distinct (scopes : List Region) : ∀ s : Stmt,
    Apart (origins scopes) (s.nodes everywhere) → Distinct (s.uses scopes)
  | .block b, h => b.distinct scopes h
  | .classDecl id name supers methods, h => by
    -- The superclasses are used around the class, and the methods inside its two scopes.
    have hpend := NameUse.distinct ((origins_pendIn name.lexeme scopes).symm ▸ h) supers
    have hinside := (h.methods id rfl).right
    rw [← origins_declareIn name.lexeme scopes] at hinside
    exact hpend.append (Lambda.distinctOf (methodScopes id _) methods hinside)
  | .expr _ value, h => value.distinct scopes h.below
  | .function _ fn, h => by
    refine fn.distinct _ _ ?_ ?_
    · rw [origins_pendIn]
      exact h.below
    · rw [origins_declareIn]
      exact h.below
  | .ifElse _ _ condition body none, h =>
    (condition.distinct scopes h.below.left).append (body.distinct scopes h.below.right)
  | .ifElse _ _ condition body (some otherwise), h =>
    ((condition.distinct scopes h.below.left.left).append
      (body.distinct scopes h.below.left.right)).append (otherwise.distinct scopes h.below.right)
  | .forIn id _ name iterable body, h =>
    (iterable.distinct scopes h.below.left).append
      (body.distinct (.loop id name :: scopes) (h.inside rfl).right)
  | .ret _ _ none, _ => List.forall_mem_nil _
  | .ret _ _ (some value), h => value.distinct scopes h.below
  | .varDecl _ _ none, _ => List.forall_mem_nil _
  | .varDecl _ name (some value), h =>
    value.distinct (pendIn name.lexeme scopes) ((origins_pendIn name.lexeme scopes).symm ▸ h.below)
  | .whileLoop _ _ condition body, h =>
    (condition.distinct scopes h.below.left).append (body.distinct scopes h.below.right)

/-- The scopes around a use in statements in a row are different. -/
theorem Stmt.distinctOf (scopes : List Region) : ∀ body : List Stmt,
    Apart (origins scopes) (Stmt.nodesOf everywhere body) → Distinct (Stmt.usesOf scopes body)
  | [], _ => List.forall_mem_nil _
  | s :: rest, h =>
    (s.distinct scopes h.left).append
      (Stmt.distinctOf (s.after scopes) rest ((origins_after scopes s).symm ▸ h.right))

end

end ClassScript
