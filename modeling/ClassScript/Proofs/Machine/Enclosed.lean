import ClassScript.Proofs.Machine.Execution
import ClassScript.Proofs.Parse.Worded
import ClassScript.Proofs.Scope.Sites

/-!
# Superclasses are used in methods

The resolver lets superclasses be used only where they are known, and they are known only in the
scopes around the methods of a class. Two walks over a program are compared here: one that lists the
uses of names with the scopes around them, and one that lists the nodes with the method around them.
-/

namespace ClassScript

open Scope

/-! ### Resolved pieces -/

/-- Uses that are resolved, and nodes as the grammar promises in which methods have names. -/
structure Ledger.Placed (L : Ledger) (us : List Use) (ns : List Node) : Prop where
  /-- The uses are resolved. -/
  settled : L.Settled us ns
  /-- The methods have names. -/
  worded : ∀ n ∈ ns, n.Worded

namespace Ledger.Placed

variable {L : Ledger} {us us' us₁ us₂ : List Use} {ns ns' ns₁ ns₂ : List Node} {n : Node}

/-- Fewer uses and nodes are placed as well. -/
theorem mono (h : L.Placed us ns) (hu : us' ⊆ us) (hn : ns' ⊆ ns) : L.Placed us' ns' :=
  ⟨h.settled.mono hu hn, fun n hmem => h.worded n (hn hmem)⟩

/-- Two parts are placed if they are together. -/
theorem append (h : L.Placed (us₁ ++ us₂) (ns₁ ++ ns₂)) :
    L.Placed us₁ ns₁ ∧ L.Placed us₂ ns₂ :=
  ⟨h.mono (List.subset_append_left ..) (List.subset_append_left ..),
    h.mono (List.subset_append_right ..) (List.subset_append_right ..)⟩

/-- What is below a node is placed with it. -/
theorem below (h : L.Placed us (n :: ns)) : L.Placed us ns :=
  h.mono (fun _ h => h) (List.subset_cons_self ..)

end Ledger.Placed

/-! ### Methods and scopes -/

/-- What is around a place and the scopes around it are in step. -/
structure InStep (scopes : List Region) (around : Option Enclosing) : Prop where
  /-- The innermost scope that knows superclasses belongs to the class of the method. -/
  known : (scopes.find? (·.knows "super")).map Region.origin = around.map fun d => .supers d.owner
  /-- The method has a name. -/
  title : ∀ d, around = some d → d.title ≠ ""

namespace InStep

variable {scopes : List Region} {around : Option Enclosing} {name : Token}

/-- Outside of everything, there is neither a scope nor a method. -/
theorem nil : InStep [] none := ⟨rfl, nofun⟩

/-- A method with a name, in the scopes of its class. -/
theorem method (owner : NodeId) (scopes : List Region) (inDefault : Bool) {fn : Lambda}
    (h : fn.title ≠ "") :
    InStep (methodScopes owner scopes) (some (fn.enclosing owner inDefault)) := by
  refine ⟨rfl, ?_⟩
  rintro _ ⟨⟩
  exact h

/-- A scope that does not know superclasses. -/
theorem cons (h : InStep scopes around) {r : Region} (hr : r.knows "super" = false) :
    InStep (r :: scopes) around where
  known := by
    rw [List.find?_cons, hr]
    exact h.known
  title := h.title

/-- Another scope in the place of the innermost one. -/
theorem replace {r r' : Region} (h : InStep (r :: scopes) around)
    (hknows : r'.knows "super" = r.knows "super") (horigin : r'.origin = r.origin) :
    InStep (r' :: scopes) around where
  known := by
    have hknown := h.known
    rw [List.find?_cons] at hknown ⊢
    rw [hknows]
    -- Either the innermost scope is the one in step, before and after, or it is passed over.
    cases hr : r.knows "super" with
    | true =>
      rw [hr] at hknown
      rw [← hknown]
      exact congrArg some horigin
    | false =>
      rw [hr] at hknown
      exact hknown
  title := h.title

/-- A name is not the word for the superclasses. -/
theorem knows_name (hname : name.IsName) : ("super" == name.lexeme) = false :=
  beq_eq_false_iff_ne.2 hname.ne_super.symm

/-- A declaration keeps a place in step. -/
theorem declareIn (h : InStep scopes around) (hname : name.IsName) :
    InStep (declareIn name.lexeme scopes) around := by
  cases scopes with
  | nil => exact h
  | cons r rest =>
    refine h.replace ?_ rfl
    rw [Region.knows_declare, knows_name hname, Bool.false_or]

/-- So does what is pending. -/
theorem pendIn (h : InStep scopes around) (hname : name.IsName) :
    InStep (pendIn name.lexeme scopes) around := by
  cases scopes with
  | nil => exact h
  | cons r rest =>
    refine h.replace ?_ rfl
    rw [Region.knows_pend, knows_name hname, Bool.false_or]

/-- So does the scope of a function. -/
theorem call (h : InStep scopes around) (id : NodeId) {params : List Param}
    (hparams : ∀ p ∈ params, p.name.IsName) : InStep (.call id params :: scopes) around := by
  refine h.cons ?_
  have hnames : "super" ∉ params.map (·.name.lexeme) := by
    intro hmem
    obtain ⟨p, hp, hname⟩ := List.mem_map.1 hmem
    exact (hparams p hp).ne_super hname
  simpa [Region.knows, Region.call] using hnames

/-- So does that of a block. -/
theorem block (h : InStep scopes around) (id : NodeId) : InStep (.block id :: scopes) around :=
  h.cons rfl

/-- So does that of a loop. -/
theorem loop (h : InStep scopes around) (id : NodeId) (hname : name.IsName) :
    InStep (.loop id name :: scopes) around := by
  refine h.cons ?_
  simpa [Region.knows, Region.loop] using hname.ne_super.symm

/-- Behind a statement. -/
theorem after (h : InStep scopes around) (s : Stmt) (hs : ∀ n ∈ s.nodes everywhere, n.Proper) :
    InStep (s.after scopes) around := by
  cases s with
  | varDecl id name initial =>
    have hname : name.IsName := by
      cases initial <;> exact hs _ List.mem_cons_self
    exact h.declareIn hname
  | classDecl id name supers methods =>
    have hname : name.IsName := hs _ List.mem_cons_self
    exact h.declareIn hname
  | function id fn =>
    -- The grammar gives every declared function a name, and the name is no reserved word.
    obtain ⟨name, hfn, hname⟩ := hs _ List.mem_cons_self
    have htoken : fn.token = name := by simp [Lambda.token, hfn]
    have hafter : (Stmt.function id fn).after scopes = Scope.declareIn name.lexeme scopes := by
      rw [Stmt.after, htoken]
    exact hafter ▸ h.declareIn hname
  | ifElse id keyword condition body otherwise =>
    -- What a branch declares stays in the branch.
    have hsame := Stmt.after_otherwise scopes (.ifElse id keyword condition body otherwise)
      (.inr ⟨id, keyword, condition, body, otherwise, rfl⟩) hs
    exact hsame.symm ▸ h
  | _ => exact h

end InStep

/-! ### Uses of superclasses -/

/-- A use of the superclasses lies in a method with a name. -/
def Site.Named (s : Site) : Prop :=
  ∀ id keyword method, s.node = .expr (.super id keyword method) →
    ∃ d, s.around = some d ∧ d.title ≠ "" ∧ ∀ name, method = some name → name.lexeme ≠ ""

/-- A use of the superclasses is recorded with the class of the method around it. -/
def Site.Owned (targets : Targets) (s : Site) : Prop :=
  ∀ id keyword method, s.node = .expr (.super id keyword method) →
    ∃ d, s.around = some d ∧ targets[id]? = some (.supers d.owner)

/-- What the resolver finds out about a place. -/
structure Site.Resolved (targets : Targets) (s : Site) : Prop where
  /-- A use of the superclasses lies in a method. -/
  named : s.Named
  /-- It is recorded with the class of the method. -/
  owned : s.Owned targets

/-- Other records that say the same of the node. -/
theorem Site.Resolved.same {targets targets' : Targets} {s : Site} (h : s.Resolved targets)
    (hsame : targets'[s.node.id]? = targets[s.node.id]?) : s.Resolved targets' := by
  refine ⟨h.named, ?_⟩
  intro id keyword method hnode
  obtain ⟨d, hd, htarget⟩ := h.owned id keyword method hnode
  rw [hnode] at hsame
  exact ⟨d, hd, hsame.trans htarget⟩

/-- Whether a node is a use of the superclasses. -/
def Node.isSuper : Node → Bool
  | expr (.super ..) => true
  | _ => false

/-- A node that does not use the superclasses has nothing to be found out about. -/
theorem Site.resolved_of_not {targets : Targets} {n : Node} {around : Option Enclosing}
    (h : n.isSuper = false) : (Site.mk n around).Resolved targets := by
  constructor <;>
  · rintro id keyword method rfl
    cases h

section Walk

variable {L : Ledger}

/-- A use of the superclasses lies in a method, and is recorded with its class. -/
theorem Site.resolved_super {scopes : List Region} {around : Option Enclosing} {id : NodeId}
    {keyword : Token} {method : Option Token} (hstep : InStep scopes around)
    (h : L.Placed ((Expr.super id keyword method).uses scopes)
      ((Expr.super id keyword method).nodes everywhere)) :
    (Site.mk (.expr (.super id keyword method)) around).Resolved L.tables.targets := by
  have huse : L.Settles ⟨.super, id, "super", scopes⟩ := h.settled.uses _ List.mem_cons_self
  have htarget : L.tables.targets[id]? = around.map fun d => .supers d.owner :=
    huse.holds.2.trans hstep.known
  have hmethod : ∀ name, method = some name → name.lexeme ≠ "" := by
    rintro name rfl
    exact h.worded _ List.mem_cons_self
  cases around with
  | some d =>
    constructor
    · rintro _ _ _ ⟨⟩
      exact ⟨d, rfl, hstep.title d rfl, hmethod⟩
    · rintro _ _ _ ⟨⟩
      exact ⟨d, rfl, htarget⟩
  | none =>
    -- Outside of all methods the use would not be resolved.
    obtain ⟨r, hr, hknows⟩ := huse.known (.inr rfl)
    have hnone : scopes.find? (·.knows "super") = none := Option.map_eq_none_iff.1 hstep.known
    exact absurd hknows (List.find?_eq_none.1 hnone r hr)

mutual

/-- Uses of superclasses in an expression lie in methods. -/
theorem Expr.resolved (scopes : List Region) (around : Option Enclosing) : ∀ e : Expr,
    InStep scopes around → L.Placed (e.uses scopes) (e.nodes everywhere) →
    ∀ s ∈ e.sites around, s.Resolved L.tables.targets
  | .assign _ _ value, hstep, h => by
    have hvalue := h.below.mono (List.subset_append_left ..) (List.Subset.refl _)
    exact List.forall_mem_cons.2 ⟨Site.resolved_of_not rfl,
      value.resolved scopes around hstep hvalue⟩
  | .binary _ left _ right, hstep, h | .logical _ left _ right, hstep, h => by
    obtain ⟨hleft, hright⟩ := h.below.append
    exact List.forall_mem_cons.2 ⟨Site.resolved_of_not rfl, List.forall_mem_append.2
      ⟨left.resolved scopes around hstep hleft, right.resolved scopes around hstep hright⟩⟩
  | .call _ callee _ args named, hstep, h => by
    obtain ⟨hfront, hnamed⟩ := h.below.append
    obtain ⟨hcallee, hargs⟩ := hfront.append
    exact List.forall_mem_cons.2 ⟨Site.resolved_of_not rfl, List.forall_mem_append.2
      ⟨List.forall_mem_append.2 ⟨callee.resolved scopes around hstep hcallee,
        Expr.resolvedOf scopes around args hstep hargs⟩,
        NamedArg.resolvedOf scopes around named hstep hnamed⟩⟩
  | .get _ object _, hstep, h =>
    List.forall_mem_cons.2
      ⟨Site.resolved_of_not rfl, object.resolved scopes around hstep h.below⟩
  | .set _ object _ value, hstep, h => by
    -- The uses of the value come in front of those of the object, but its nodes come behind.
    have hobject : L.Placed (object.uses scopes) (object.nodes everywhere) :=
      h.below.mono (List.subset_append_right ..) (List.subset_append_left ..)
    have hvalue : L.Placed (value.uses scopes) (value.nodes everywhere) :=
      h.below.mono (List.subset_append_left ..) (List.subset_append_right ..)
    exact List.forall_mem_cons.2 ⟨Site.resolved_of_not rfl, List.forall_mem_append.2
      ⟨object.resolved scopes around hstep hobject, value.resolved scopes around hstep hvalue⟩⟩
  | .group _ _ inner, hstep, h =>
    List.forall_mem_cons.2 ⟨Site.resolved_of_not rfl, inner.resolved scopes around hstep h.below⟩
  | .literal .., _, _ | .self .., _, _ | .var _, _, _ =>
    List.forall_mem_singleton.2 (Site.resolved_of_not rfl)
  | .list _ _ elements, hstep, h =>
    List.forall_mem_cons.2
      ⟨Site.resolved_of_not rfl, Expr.resolvedOf scopes around elements hstep h.below⟩
  | .super .., hstep, h => List.forall_mem_singleton.2 (Site.resolved_super hstep h)
  | .unary _ _ right, hstep, h =>
    List.forall_mem_cons.2 ⟨Site.resolved_of_not rfl, right.resolved scopes around hstep h.below⟩
  | .lambda fn, hstep, h => fn.resolved scopes scopes around around hstep hstep h

/-- All places in expressions in a row are resolved. -/
theorem Expr.resolvedOf (scopes : List Region) (around : Option Enclosing) : ∀ es : List Expr,
    InStep scopes around → L.Placed (Expr.usesOf scopes es) (Expr.nodesOf everywhere es) →
    ∀ s ∈ Expr.sitesOf around es, s.Resolved L.tables.targets
  | [], _, _ => List.forall_mem_nil _
  | e :: rest, hstep, h =>
    List.forall_mem_append.2 ⟨e.resolved scopes around hstep h.append.1,
      Expr.resolvedOf scopes around rest hstep h.append.2⟩

/-- So are those in named arguments. -/
theorem NamedArg.resolvedOf (scopes : List Region) (around : Option Enclosing) :
    ∀ args : List NamedArg, InStep scopes around →
    L.Placed (NamedArg.usesOf scopes args) (NamedArg.nodesOf everywhere args) →
    ∀ s ∈ NamedArg.sitesOf around args, s.Resolved L.tables.targets
  | [], _, _ => List.forall_mem_nil _
  | ⟨_, value⟩ :: rest, hstep, h =>
    List.forall_mem_append.2 ⟨value.resolved scopes around hstep h.append.1,
      NamedArg.resolvedOf scopes around rest hstep h.append.2⟩

/-- So are those in the defaults of parameters. -/
theorem Param.resolvedOf (scopes : List Region) (around : Option Enclosing) :
    ∀ params : List Param, InStep scopes around →
    L.Placed (Param.usesOf scopes params) (Param.nodesOf everywhere params) →
    ∀ s ∈ Param.sitesOf around params, s.Resolved L.tables.targets
  | [], _, _ => List.forall_mem_nil _
  | ⟨_, _, none, _⟩ :: rest, hstep, h => Param.resolvedOf scopes around rest hstep h
  | ⟨_, _, some value, _⟩ :: rest, hstep, h =>
    List.forall_mem_append.2 ⟨value.resolved scopes around hstep h.append.1,
      Param.resolvedOf scopes around rest hstep h.append.2⟩

/-- A function, in step outside with its defaults and inside with its body. -/
theorem Lambda.resolved (outer scopes : List Region) (around inner : Option Enclosing) :
    ∀ fn : Lambda, InStep outer around → InStep scopes inner →
    L.Placed (fn.uses outer scopes) (fn.nodes everywhere) →
    ∀ s ∈ fn.sites around inner, s.Resolved L.tables.targets
  | ⟨id, _, _, params, body⟩, houter, hstep, h => by
    obtain ⟨hdefaults, hbody⟩ := h.below.append
    have hinside := hstep.call id h.settled.proper
    exact List.forall_mem_cons.2 ⟨Site.resolved_of_not rfl, List.forall_mem_append.2
      ⟨Param.resolvedOf outer around params houter hdefaults,
        Stmt.resolvedOf (.call id params :: scopes) inner body hinside hbody⟩⟩

/-- Methods with names are in step in the scopes of their class, wherever the class is. -/
theorem Lambda.resolvedOf (owner : NodeId) (scopes : List Region) : ∀ fns : List Lambda,
    (∀ fn ∈ fns, fn.title ≠ "") →
    L.Placed (Lambda.usesOf (methodScopes owner scopes) fns) (Lambda.nodesOf everywhere fns) →
    ∀ s ∈ Lambda.sitesOf owner fns, s.Resolved L.tables.targets
  | [], _, _ => List.forall_mem_nil _
  | fn :: rest, htitles, h => by
    obtain ⟨htitle, hrest⟩ := List.forall_mem_cons.1 htitles
    have hfirst := fn.resolved _ _ _ _ (.method owner scopes true htitle)
      (.method owner scopes false htitle) h.append.1
    exact List.forall_mem_append.2 ⟨hfirst, Lambda.resolvedOf owner scopes rest hrest h.append.2⟩

/-- So are those in a block. -/
theorem Block.resolved (scopes : List Region) (around : Option Enclosing) : ∀ b : Block,
    InStep scopes around → L.Placed (b.uses scopes) (b.nodes everywhere) →
    ∀ s ∈ b.sites around, s.Resolved L.tables.targets
  | ⟨id, _, body⟩, hstep, h =>
    List.forall_mem_cons.2 ⟨Site.resolved_of_not rfl,
      Stmt.resolvedOf (.block id :: scopes) around body (hstep.block id) h.below⟩

/-- Uses of superclasses in a statement lie in methods. -/
theorem Stmt.resolved (scopes : List Region) (around : Option Enclosing) : ∀ s : Stmt,
    InStep scopes around → L.Placed (s.uses scopes) (s.nodes everywhere) →
    ∀ s' ∈ s.sites around, s'.Resolved L.tables.targets
  | .block b, hstep, h => b.resolved scopes around hstep h
  | .classDecl id name supers methods, _, h => by
    -- The superclasses are plain names. Around the methods, the class is what is around.
    have htitles : ∀ fn ∈ methods, fn.title ≠ "" := h.worded _ List.mem_cons_self
    have hsupers : ∀ s ∈ supers.map fun use => Site.mk (.expr (.var use)) around,
        s.Resolved L.tables.targets := by
      intro s hs
      obtain ⟨use, -, rfl⟩ := List.mem_map.1 hs
      exact Site.resolved_of_not rfl
    exact List.forall_mem_cons.2 ⟨Site.resolved_of_not rfl, List.forall_mem_append.2
      ⟨hsupers, Lambda.resolvedOf id (declareIn name.lexeme scopes) methods htitles
        h.below.append.2⟩⟩
  | .expr _ value, hstep, h =>
    List.forall_mem_cons.2 ⟨Site.resolved_of_not rfl, value.resolved scopes around hstep h.below⟩
  | .function _ fn, hstep, h => by
    -- The defaults are looked up where the name of the function is pending, its body where it is
    -- declared.
    obtain ⟨name, hfn, hname⟩ := h.settled.proper
    have htoken : fn.token = name := by simp [Lambda.token, hfn]
    rw [← htoken] at hname
    exact List.forall_mem_cons.2 ⟨Site.resolved_of_not rfl,
      fn.resolved _ _ around around (hstep.pendIn hname) (hstep.declareIn hname) h.below⟩
  | .ifElse _ _ condition body none, hstep, h | .whileLoop _ _ condition body, hstep, h => by
    obtain ⟨hcondition, hbody⟩ := h.below.append
    exact List.forall_mem_cons.2 ⟨Site.resolved_of_not rfl, List.forall_mem_append.2
      ⟨condition.resolved scopes around hstep hcondition, body.resolved scopes around hstep hbody⟩⟩
  | .ifElse _ _ condition body (some otherwise), hstep, h => by
    obtain ⟨hfront, hotherwise⟩ := h.below.append
    obtain ⟨hcondition, hbody⟩ := hfront.append
    exact List.forall_mem_cons.2 ⟨Site.resolved_of_not rfl, List.forall_mem_append.2
      ⟨List.forall_mem_append.2 ⟨condition.resolved scopes around hstep hcondition,
        body.resolved scopes around hstep hbody⟩,
        otherwise.resolved scopes around hstep hotherwise⟩⟩
  | .forIn id _ name iterable body, hstep, h => by
    obtain ⟨hiterable, hbody⟩ := h.below.append
    exact List.forall_mem_cons.2 ⟨Site.resolved_of_not rfl, List.forall_mem_append.2
      ⟨iterable.resolved scopes around hstep hiterable,
        body.resolved (.loop id name :: scopes) around (hstep.loop id h.settled.proper) hbody⟩⟩
  | .ret _ _ none, _, _ | .varDecl _ _ none, _, _ =>
    List.forall_mem_singleton.2 (Site.resolved_of_not rfl)
  | .ret _ _ (some value), hstep, h =>
    List.forall_mem_cons.2 ⟨Site.resolved_of_not rfl, value.resolved scopes around hstep h.below⟩
  | .varDecl _ name (some value), hstep, h =>
    List.forall_mem_cons.2 ⟨Site.resolved_of_not rfl,
      value.resolved (pendIn name.lexeme scopes) around (hstep.pendIn h.settled.proper) h.below⟩

/-- So are those in statements in a row. -/
theorem Stmt.resolvedOf (scopes : List Region) (around : Option Enclosing) : ∀ body : List Stmt,
    InStep scopes around → L.Placed (Stmt.usesOf scopes body) (Stmt.nodesOf everywhere body) →
    ∀ s ∈ Stmt.sitesOf around body, s.Resolved L.tables.targets
  | [], _, _ => List.forall_mem_nil _
  | s :: rest, hstep, h => by
    obtain ⟨hfirst, hrest⟩ := h.append
    exact List.forall_mem_append.2 ⟨s.resolved scopes around hstep hfirst,
      Stmt.resolvedOf (s.after scopes) around rest (hstep.after s hfirst.settled.nodes) hrest⟩

end

end Walk

end ClassScript
