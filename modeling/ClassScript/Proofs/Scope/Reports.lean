import ClassScript.Proofs.Parse.Keeps
import ClassScript.Proofs.Scope.Resolves

/-!
# What the resolver reports is in the program

Every misuse is reported at a token of a node, or at a name in one. So the reports about a program
that consists of given tokens are about these tokens. `Reports` says so of one step: whatever the
state it starts in, it adds no report about another token.
-/

namespace ClassScript.Scope.Resolver

open Node (AllWithin)

/-- A resolver whose reports are about given tokens. -/
def Cites (ts : List Token) (r : Resolver) : Prop := ∀ report ∈ r.reports, report.token ∈ ts

/-- A step that reports given tokens only. -/
def Reports (ts : List Token) (x : Step) : Prop := ∀ r : Resolver, r.Cites ts → (x r).2.Cites ts

namespace Reports

variable {ts : List Token} {x y : Step}

/-- A step that reports nothing. -/
theorem silent (h : ∀ r : Resolver, (x r).2.reports = r.reports) : Reports ts x := fun r hr => by
  unfold Cites
  rw [h]
  exact hr

/-- Doing nothing reports nothing. -/
theorem skip : Reports ts (pure ()) := fun _ hr => hr

/-- Steps in a row. -/
theorem seq (hx : Reports ts x) (hy : Reports ts y) : Reports ts (do x; y) :=
  fun r hr => hy _ (hx r hr)

/-- A step that depends on the state. -/
theorem look {f : Resolver → Step} (h : ∀ s, Reports ts (f s)) : Reports ts (do f (← get)) :=
  fun r hr => h r r hr

/-- A step that may be left out in front of another one. -/
theorem ifDo (c : Prop) [Decidable c] (hx : Reports ts x) (hy : Reports ts y) :
    Reports ts (do
      if c then x
      y) := by
  by_cases hc : c
  · simp only [if_pos hc]
    exact hx.seq hy
  · simp only [if_neg hc]
    exact hy

/-- A misuse is reported at a given token. -/
theorem note {token : Token} (h : token ∈ ts) (misuse : Misuse) :
    Reports ts (note token misuse) :=
  fun _ hr => List.forall_mem_cons.2 ⟨h, hr⟩

/-- Opening a scope reports nothing. -/
theorem openScope (origin : Origin) : Reports ts (openScope origin) := silent fun _ => rfl

/-- Closing one reports nothing. -/
theorem closeScope : Reports ts closeScope := silent fun _ => rfl

/-- The flag for functions reports nothing. -/
theorem setFunction (o : Bool) : Reports ts (modify ({ · with inFunction := o })) :=
  silent fun _ => rfl

/-- The kind of a class reports nothing. -/
theorem setClass (c : ClassContext) : Reports ts (modify ({ · with inClass := c })) :=
  silent fun _ => rfl

/-- Putting a name reports nothing. -/
theorem put (name : String) (ready : Bool) : Reports ts (put name ready) := by
  rw [put_eq]
  exact silent fun _ => rfl

/-- Recording a use reports nothing. -/
theorem record (id : NodeId) (name : String) : Reports ts (record id name) := by
  refine silent fun r => ?_
  rw [record_apply]
  split <;> rfl

/-- A declaration may report its name. -/
theorem declare {name : Token} (h : name ∈ ts) : Reports ts (declare name) := by
  refine look fun s => ?_
  split
  · exact skip
  · exact ifDo _ (note h .redeclared) (put name.lexeme false)

/-- The use of a variable may report its name. -/
theorem useName {use : NameUse} (h : use.name ∈ ts) : Reports ts (useName use) :=
  look fun _ => ifDo _ (note h .readInInitial) (record use.id use.name.lexeme)

/-- The use of a receiver may report its word. -/
theorem useSelf {keyword : Token} (h : keyword ∈ ts) (id : NodeId) :
    Reports ts (useSelf id keyword) := by
  refine look fun s => ?_
  split
  · exact note h .selfOutside
  · exact record id "self"

/-- The use of superclasses may report its word. -/
theorem useSuper {keyword : Token} (h : keyword ∈ ts) (id : NodeId) :
    Reports ts (useSuper id keyword) := by
  refine look fun s => ?_
  split
  · exact note h .superOutside
  · exact note h .superWithoutSuperclass
  · exact record id "super"

/-- A superclass may be reported by its name. -/
theorem useSuperclass {use : NameUse} (h : use.name ∈ ts) (className : String) :
    Reports ts (useSuperclass className use) := by
  unfold Resolver.useSuperclass
  split
  · exact note h .inheritsItself
  · exact useName h

/-- So may each of several ones. -/
theorem useSuperclasses {supers : List NameUse} (h : ∀ use ∈ supers, use.name ∈ ts)
    (className : String) : Reports ts (supers.forM (Resolver.useSuperclass className)) := by
  induction supers with
  | nil => exact skip
  | cons use rest ih =>
    obtain ⟨huse, hrest⟩ := List.forall_mem_cons.1 h
    exact (useSuperclass huse className).seq (ih hrest)

/-- Parameters may be reported by their names. -/
theorem declareParams {params : List Param} (h : ∀ p ∈ params, p.name ∈ ts) :
    Reports ts (declareParams params) := by
  unfold Resolver.declareParams
  induction params with
  | nil => exact skip
  | cons p rest ih =>
    obtain ⟨hp, hrest⟩ := List.forall_mem_cons.1 h
    exact ((declare hp).seq (put p.name.lexeme true)).seq (ih hrest)

/-- A return may be reported by its word. -/
theorem checkReturn {keyword : Token} (h : keyword ∈ ts) : Reports ts (checkReturn keyword) := by
  refine look fun s => ?_
  split
  · exact skip
  · exact note h .returnOutside

end Reports

/-! ### The syntax -/

variable {ts : List Token}

mutual

/-- What is reported of an expression is about its tokens. -/
theorem reports_expr : ∀ e : Expr, AllWithin ts (e.nodes everywhere) → Reports ts (expr e)
  | .assign id name value, h => (reports_expr value h.tail).seq (.record id name.lexeme)
  | .binary _ left _ right, h | .logical _ left _ right, h =>
    (reports_expr left h.tail.left).seq (reports_expr right h.tail.right)
  | .call _ callee _ args named, h =>
    (reports_expr callee h.tail.left.left).seq <| (reports_exprs args h.tail.left.right).seq <|
    reports_namedArgs named h.tail.right
  | .get _ object _, h => reports_expr object h.tail
  | .set _ object _ value, h =>
    (reports_expr value h.tail.right).seq (reports_expr object h.tail.left)
  | .group _ _ inner, h => reports_expr inner h.tail
  | .literal .., _ => .skip
  | .list _ _ elements, h => reports_exprs elements h.tail
  | .self id _, h => .useSelf h.head.token id
  | .super id _ _, h => .useSuper h.head.token id
  | .unary _ _ right, h => reports_expr right h.tail
  | .var _, h => .useName h.head.token
  | .lambda fn, h => reports_function fn h

/-- Expressions in a row report their tokens only. -/
theorem reports_exprs : ∀ es : List Expr, AllWithin ts (Expr.nodesOf everywhere es) →
    Reports ts (exprs es)
  | [], _ => .skip
  | e :: rest, h => (reports_expr e h.left).seq (reports_exprs rest h.right)

/-- So do named arguments. -/
theorem reports_namedArgs : ∀ args : List NamedArg,
    AllWithin ts (NamedArg.nodesOf everywhere args) → Reports ts (namedArgs args)
  | [], _ => .skip
  | ⟨_, value⟩ :: rest, h => (reports_expr value h.left).seq (reports_namedArgs rest h.right)

/-- So do the defaults of parameters. -/
theorem reports_defaults : ∀ params : List Param, AllWithin ts (Param.nodesOf everywhere params) →
    Reports ts (defaults params)
  | [], _ => .skip
  | ⟨_, _, none, _⟩ :: rest, h => reports_defaults rest h
  | ⟨_, _, some value, _⟩ :: rest, h =>
    (reports_expr value h.left).seq (reports_defaults rest h.right)

/-- So does a function. -/
theorem reports_function : ∀ fn : Lambda, AllWithin ts (fn.nodes everywhere) →
    Reports ts (function fn)
  | ⟨id, _, _, params, body⟩, h => by
    have hparams : ∀ p ∈ params, p.name ∈ ts := fun p hp => (h.head.params p hp).1
    refine (reports_defaults params h.tail.left).seq (.look fun s => ?_)
    exact (Reports.setFunction true).seq <| (Reports.openScope (.call id)).seq <|
      (Reports.declareParams hparams).seq <| (reports_stmts body h.tail.right).seq <|
      Reports.closeScope.seq (.setFunction s.inFunction)

/-- So do the methods of a class. -/
theorem reports_functions : ∀ fns : List Lambda, AllWithin ts (Lambda.nodesOf everywhere fns) →
    Reports ts (functions fns)
  | [], _ => .skip
  | fn :: rest, h => (reports_function fn h.left).seq (reports_functions rest h.right)

/-- So does a block. -/
theorem reports_block : ∀ b : Block, AllWithin ts (b.nodes everywhere) → Reports ts (block b)
  | ⟨id, _, body⟩, h =>
    (Reports.openScope (.block id)).seq <| (reports_stmts body h.tail).seq .closeScope

/-- What is reported of a statement is about its tokens. -/
theorem reports_stmt : ∀ s : Stmt, AllWithin ts (s.nodes everywhere) → Reports ts (stmt s)
  | .block b, h => reports_block b h
  | .varDecl _ name none, h => (Reports.declare h.head.token).seq (.put name.lexeme true)
  | .varDecl _ name (some value), h =>
    (Reports.declare h.head.token).seq <| (reports_expr value h.tail).seq (.put name.lexeme true)
  | .function _ fn, h =>
    (Reports.declare h.head.token).seq <| (Reports.put fn.token.lexeme true).seq <|
    reports_function fn h.tail
  | .classDecl id name supers methods, h => by
    rw [stmt]
    refine .look fun s => (Reports.setClass .plain).seq <| (Reports.declare h.head.token).seq <|
      (Reports.put name.lexeme true).seq <|
      (Reports.useSuperclasses h.tail.left.supers name.lexeme).seq ?_
    have hmethods (enclosing : ClassContext) :=
      (Reports.openScope (.supers id)).seq <| (Reports.put "super" true).seq <|
      (Reports.openScope (.receiver id)).seq <| (Reports.put "self" true).seq <|
      (reports_functions methods h.tail.right).seq <| Reports.closeScope.seq <|
      Reports.closeScope.seq (.setClass enclosing)
    -- A class with superclasses differs in the context only.
    cases supers.isEmpty with
    | true => exact hmethods s.inClass
    | false => exact (Reports.setClass .derived).seq (hmethods s.inClass)
  | .expr _ value, h => reports_expr value h.tail
  | .ifElse _ _ condition body none, h =>
    (reports_expr condition h.tail.left).seq (reports_block body h.tail.right)
  | .ifElse _ _ condition body (some otherwise), h =>
    (reports_expr condition h.tail.left.left).seq <| (reports_block body h.tail.left.right).seq <|
    reports_stmt otherwise h.tail.right
  | .whileLoop _ _ condition body, h =>
    (reports_expr condition h.tail.left).seq (reports_block body h.tail.right)
  | .forIn id _ name iterable body, h =>
    (reports_expr iterable h.tail.left).seq <| (Reports.openScope (.loop id)).seq <|
    (Reports.declare (h.head.names name List.mem_cons_self).1).seq <|
    (Reports.put name.lexeme true).seq <| (reports_block body h.tail.right).seq .closeScope
  | .ret _ _ none, h => .checkReturn h.head.token
  | .ret _ _ (some value), h => (Reports.checkReturn h.head.token).seq (reports_expr value h.tail)

/-- So do statements in a row. -/
theorem reports_stmts : ∀ body : List Stmt, AllWithin ts (Stmt.nodesOf everywhere body) →
    Reports ts (stmts body)
  | [], _ => .skip
  | s :: rest, h => (reports_stmt s h.left).seq (reports_stmts rest h.right)

end

/-- The reports about a program are about its tokens. -/
theorem cites_run (r : Resolver) {program : List Stmt} (h : AllWithin ts (allNodes program)) :
    ∀ report ∈ (r.run program).1, report.token ∈ ts := by
  have hstart : Cites ts { r with reports := [] } := List.forall_mem_nil _
  exact fun report hreport => reports_stmts program h _ hstart report (List.mem_reverse.1 hreport)

end ClassScript.Scope.Resolver
