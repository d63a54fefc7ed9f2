import ClassScript.Proofs.Parse.Spelling

/-!
# The parts of a tree

Every node of a tree of the grammar is one of the grammar itself, and its tokens stand in one piece
among those of the tree.
-/

namespace ClassScript

/-! ### Pieces -/

section Pieces

variable {x : Token} {xs ys us : List Token}

/-- The front of a piece is a piece. -/
theorem piece_left (h : xs ++ ys <:+: us) : xs <:+: us :=
  (List.prefix_append xs ys).isInfix.trans h

/-- So is the back of it. -/
theorem piece_right (h : xs ++ ys <:+: us) : ys <:+: us :=
  (List.suffix_append xs ys).isInfix.trans h

/-- So is what stands behind its first token. -/
theorem piece_behind (h : x :: xs <:+: us) : xs <:+: us :=
  (List.suffix_cons x xs).isInfix.trans h

/-- The pieces between commas. -/
theorem piece_between {pieces : List (List Token)} (h : Token.commas pieces <:+: us) :
    ∀ piece ∈ pieces, piece <:+: us := by
  induction pieces with
  | nil => exact nofun
  | cons first rest ih =>
    by_cases hrest : rest = []
    · subst hrest
      rw [Token.commas_singleton] at h
      exact List.forall_mem_singleton.2 h
    · rw [Token.commas_cons first hrest] at h
      exact List.forall_mem_cons.2 ⟨piece_left h, ih (piece_behind (piece_right h))⟩

end Pieces

/-! ### Nodes -/

namespace Node

/-- The tokens of a node. -/
def spell (ending : Endings) : Node → List Token
  | expr e => e.spell ending
  | stmt s => s.spell ending

/-- The nodes of the grammar: functions whatever they are called, and the word for the superclasses
also where it can only stand in front of arguments. -/
def Grammatical (lone : Prop) : Node → Prop
  | expr (.lambda fn) => fn.Grammatical lone
  | expr e => e.BareSuper ∨ e.Grammatical lone
  | stmt s => s.Grammatical lone

/-- A node of the grammar whose tokens stand in one piece among given ones. -/
structure PartOf (lone : Prop) (ending : Endings) (us : List Token) (n : Node) : Prop where
  /-- The node is one of the grammar. -/
  grammatical : n.Grammatical lone
  /-- Its tokens stand in one piece. -/
  piece : n.spell ending <:+: us

end Node

section Trees

variable {lone : Prop} {ending : Endings} {us : List Token}

mutual

/-- The nodes of an expression are parts of it. -/
theorem Expr.parts : ∀ e : Expr, e.BareSuper ∨ e.Grammatical lone → e.spell ending <:+: us →
    ∀ n ∈ e.nodes everywhere, n.PartOf lone ending us
  | .assign _ _ value, .inr hg, h =>
    List.forall_mem_cons.2 ⟨⟨.inr hg, h⟩, value.parts (.inr hg.2) (piece_behind (piece_behind h))⟩
  | .binary _ left _ right, .inr hg, h | .logical _ left _ right, .inr hg, h =>
    List.forall_mem_cons.2 ⟨⟨.inr hg, h⟩, List.forall_mem_append.2
      ⟨left.parts (.inr hg.2.1) (piece_left h),
        right.parts (.inr hg.2.2) (piece_behind (piece_right h))⟩⟩
  | .call _ callee _ args named, .inr hg, h => by
    -- The pieces between the commas of the call, positional ones first.
    have hpieces := piece_between (piece_left (piece_behind (piece_right h)))
    obtain ⟨hargs, hnamed⟩ := List.forall_mem_append.1 hpieces
    exact List.forall_mem_cons.2 ⟨⟨.inr hg, h⟩, List.forall_mem_append.2 ⟨List.forall_mem_append.2
      ⟨callee.parts hg.2.1 (piece_left h), Expr.partsOf args hg.2.2.2.1 hargs⟩,
      NamedArg.partsOf named hg.2.2.2.2.1 hnamed⟩⟩
  | .get _ object _, .inr hg, h =>
    List.forall_mem_cons.2 ⟨⟨.inr hg, h⟩, object.parts (.inr hg.2.1) (piece_left h)⟩
  | .set _ object _ value, .inr hg, h =>
    List.forall_mem_cons.2 ⟨⟨.inr hg, h⟩, List.forall_mem_append.2
      ⟨object.parts (.inr hg.2.1) (piece_left h),
        value.parts (.inr hg.2.2.2) (piece_behind (piece_behind (piece_behind (piece_right h))))⟩⟩
  | .group _ _ inner, .inr hg, h =>
    List.forall_mem_cons.2 ⟨⟨.inr hg, h⟩, inner.parts (.inr hg.2) (piece_left (piece_behind h))⟩
  | .list _ _ elements, .inr hg, h =>
    List.forall_mem_cons.2 ⟨⟨.inr hg, h⟩,
      Expr.partsOf elements hg.2 (piece_between (piece_left (piece_behind h)))⟩
  | .literal .., hg, h | .self .., hg, h | .var _, hg, h | .super .., hg, h =>
    List.forall_mem_singleton.2 ⟨hg, h⟩
  | .unary _ _ right, .inr hg, h =>
    List.forall_mem_cons.2 ⟨⟨.inr hg, h⟩, right.parts (.inr hg.2.2) (piece_behind h)⟩
  | .lambda fn, .inr hg, h => fn.parts hg.2.2 h

/-- The nodes of expressions in a row are parts if the expressions are. -/
theorem Expr.partsOf : ∀ es : List Expr, Expr.AllGrammatical lone es →
    (∀ piece ∈ Expr.spellEach ending es, piece <:+: us) →
    ∀ n ∈ Expr.nodesOf everywhere es, n.PartOf lone ending us
  | [], _, _ => List.forall_mem_nil _
  | e :: rest, hg, h => by
    rw [Expr.spellEach, List.forall_mem_cons] at h
    exact List.forall_mem_append.2 ⟨e.parts (.inr hg.1) h.1, Expr.partsOf rest hg.2 h.2⟩

/-- So are those of named arguments. -/
theorem NamedArg.partsOf : ∀ args : List NamedArg, NamedArg.AllGrammatical lone args →
    (∀ piece ∈ NamedArg.spellEach ending args, piece <:+: us) →
    ∀ n ∈ NamedArg.nodesOf everywhere args, n.PartOf lone ending us
  | [], _, _ => List.forall_mem_nil _
  | ⟨_, value⟩ :: rest, hg, h => by
    rw [NamedArg.spellEach, List.forall_mem_cons] at h
    exact List.forall_mem_append.2 ⟨value.parts (.inr hg.1.2) (piece_behind (piece_behind h.1)),
      NamedArg.partsOf rest hg.2 h.2⟩

/-- So are those of parameters. -/
theorem Param.partsOf : ∀ params : List Param, Param.AllGrammatical lone params →
    (∀ piece ∈ Param.spellEach ending params, piece <:+: us) →
    ∀ n ∈ Param.nodesOf everywhere params, n.PartOf lone ending us
  | [], _, _ => List.forall_mem_nil _
  | ⟨_, _, none, _⟩ :: rest, hg, h => by
    rw [Param.spellEach, List.forall_mem_cons] at h
    exact Param.partsOf rest hg.2 h.2
  | ⟨_, _, some value, _⟩ :: rest, hg, h => by
    rw [Param.spellEach, Param.spell, List.forall_mem_cons] at h
    exact List.forall_mem_append.2
      ⟨value.parts (.inr hg.1.2.2.2.2) (piece_behind (piece_behind (piece_right h.1))),
        Param.partsOf rest hg.2 h.2⟩

/-- So are those of a function. -/
theorem Lambda.parts : ∀ fn : Lambda, fn.Grammatical lone → fn.spell ending <:+: us →
    ∀ n ∈ fn.nodes everywhere, n.PartOf lone ending us
  | ⟨_, _, _, params, body⟩, hg, h => by
    have hrest := piece_behind (piece_right h)
    have hbody := piece_left (piece_behind (piece_behind (piece_right hrest)))
    exact List.forall_mem_cons.2 ⟨⟨hg, h⟩, List.forall_mem_append.2
      ⟨Param.partsOf params hg.2.1 (piece_between (piece_left hrest)),
        Stmt.partsOf body hg.2.2 hbody⟩⟩

/-- So are those of methods. -/
theorem Lambda.partsOf : ∀ fns : List Lambda, Lambda.AllGrammatical lone fns →
    Lambda.spellAll ending fns <:+: us →
    ∀ n ∈ Lambda.nodesOf everywhere fns, n.PartOf lone ending us
  | [], _, _ => List.forall_mem_nil _
  | fn :: rest, hg, h =>
    List.forall_mem_append.2 ⟨fn.parts hg.1.2.2 (piece_left (piece_left h)),
      Lambda.partsOf rest hg.2 (piece_right h)⟩

/-- So are those of a block. -/
theorem Block.parts : ∀ b : Block, b.Grammatical lone → b.spell ending <:+: us →
    ∀ n ∈ b.nodes everywhere, n.PartOf lone ending us
  | ⟨_, _, body⟩, hg, h =>
    List.forall_mem_cons.2 ⟨⟨hg, h⟩, Stmt.partsOf body hg.2 (piece_left (piece_behind h))⟩

/-- The nodes of a statement are parts of it. -/
theorem Stmt.parts : ∀ s : Stmt, s.Grammatical lone → s.spell ending <:+: us →
    ∀ n ∈ s.nodes everywhere, n.PartOf lone ending us
  | .block b, hg, h => b.parts hg h
  | .classDecl _ name supers methods, hg, h => by
    have hrest := piece_behind (piece_behind h)
    -- A superclass is a piece of one token between the commas.
    have hsupers : ∀ n ∈ supers.flatMap fun u => Node.visit everywhere (.expr (.var u)) [],
        n.PartOf lone ending us := by
      intro n hn
      obtain ⟨u, hu, hn⟩ := List.mem_flatMap.1 hn
      rw [List.mem_singleton.1 hn]
      refine ⟨.inr (hg.2.1 u hu), ?_⟩
      have hnames := piece_left hrest
      obtain ⟨first, others, rfl⟩ := List.exists_cons_of_ne_nil (List.ne_nil_of_mem hu)
      exact piece_between (piece_behind hnames) [u.name]
        (List.mem_map_of_mem (f := fun s : NameUse => [s.name]) hu)
    exact List.forall_mem_cons.2 ⟨⟨hg, h⟩, List.forall_mem_append.2
      ⟨hsupers, Lambda.partsOf methods hg.2.2 (piece_left (piece_behind (piece_right hrest)))⟩⟩
  | .expr _ value, hg, h => List.forall_mem_cons.2 ⟨⟨hg, h⟩, value.parts (.inr hg) h⟩
  | .function _ fn, hg, h => List.forall_mem_cons.2 ⟨⟨hg, h⟩, fn.parts hg.2.2 h⟩
  | .ifElse _ _ condition body none, hg, h | .whileLoop _ _ condition body, hg, h =>
    List.forall_mem_cons.2 ⟨⟨hg, h⟩, List.forall_mem_append.2
      ⟨condition.parts (.inr hg.2.1) (piece_left (piece_behind h)),
        body.parts hg.2.2 (piece_right (piece_behind h))⟩⟩
  | .ifElse _ _ condition body (some otherwise), hg, h => by
    have hfirst := piece_left (piece_behind h)
    exact List.forall_mem_cons.2 ⟨⟨hg, h⟩, List.forall_mem_append.2 ⟨List.forall_mem_append.2
      ⟨condition.parts (.inr hg.2.1) (piece_left hfirst),
        body.parts hg.2.2.1 (piece_right hfirst)⟩,
      otherwise.parts hg.2.2.2.2 (piece_behind (piece_right (piece_behind h)))⟩⟩
  | .forIn _ _ _ iterable body, hg, h => by
    have hrest := piece_behind (piece_behind (piece_behind h))
    exact List.forall_mem_cons.2 ⟨⟨hg, h⟩, List.forall_mem_append.2
      ⟨iterable.parts (.inr hg.2.2.1) (piece_left hrest),
        body.parts hg.2.2.2 (piece_right hrest)⟩⟩
  | .ret _ _ none, hg, h | .varDecl _ _ none, hg, h => List.forall_mem_singleton.2 ⟨hg, h⟩
  | .ret _ _ (some value), hg, h =>
    List.forall_mem_cons.2 ⟨⟨hg, h⟩, value.parts (.inr hg.2) (piece_behind h)⟩
  | .varDecl _ _ (some value), hg, h =>
    List.forall_mem_cons.2 ⟨⟨hg, h⟩, value.parts (.inr hg.2)
      (piece_behind (piece_behind (piece_behind h)))⟩

/-- The nodes of a program are parts of it. -/
theorem Stmt.partsOf : ∀ body : List Stmt, Stmt.AllGrammatical lone body →
    Stmt.spellAll ending body <:+: us →
    ∀ n ∈ Stmt.nodesOf everywhere body, n.PartOf lone ending us
  | [], _, _ => List.forall_mem_nil _
  | s :: rest, hg, h =>
    List.forall_mem_append.2 ⟨s.parts hg.1 (piece_left (piece_left h)),
      Stmt.partsOf rest hg.2 (piece_right h)⟩

end

end Trees

end ClassScript
