import Mathlib.Data.List.Induction
import ClassScript.Proofs.Scope.Resolves

/-!
# Programs do not influence each other's resolution

One resolver serves program after program, and its tables grow from one to the next. Besides them
nothing is carried over. Two runs over the same syntax are compared: one goes on with the tables of
the programs before, the other one starts with empty ones. `Atop` relates the two resolvers; every
step keeps it (`Alike`), because no step looks at the tables or at the reports.
-/

namespace ClassScript.Scope

/-- Tables that say what newer tables say, and what older ones say of all other nodes. -/
structure Tables.Atop (t new old : Tables) : Prop where
  /-- The newer distance counts. -/
  distances : ∀ id : NodeId, t.distances[id]? = new.distances[id]?.or old.distances[id]?
  /-- So does the newer scope. -/
  targets : ∀ id : NodeId, t.targets[id]? = new.targets[id]?.or old.targets[id]?

namespace Resolver

/-- A resolver that started with tables, and one that started without any: they differ in nothing
but the tables they started with. -/
structure Atop (old : Tables) (r new : Resolver) : Prop where
  frames : r.frames = new.frames
  inFunction : r.inFunction = new.inFunction
  inClass : r.inClass = new.inClass
  reports : r.reports = new.reports
  tables : r.tables.Atop new.tables old

/-- A step that does the same to both resolvers. It starts inside of a function or outside, and it
ends inside of one or outside. -/
def Alike (i : Bool) (x : Step) (o : Bool) : Prop :=
  ∀ ⦃old : Tables⦄ ⦃r new : Resolver⦄, r.inFunction = i → Atop old r new →
    (x r).2.inFunction = o ∧ Atop old (x r).2 (x new).2

/-- A distance leads to a scope. -/
theorem target?_of_distance? {frames : List Frame} {name : String} {d : Nat}
    (h : distance? frames name = some d) : ∃ origin, target? frames d = some origin := by
  obtain ⟨hd, -⟩ := List.findIdx?_eq_some_iff_getElem.1 h
  exact ⟨frames[d].origin, by rw [target?, List.getElem?_eq_getElem hd, Option.map_some]⟩

namespace Alike

variable {i m o : Bool} {x y : Step}

/-- Doing nothing is the same for both resolvers. -/
theorem skip (i : Bool) : Alike i (pure ()) i := fun _ _ _ hi h => ⟨hi, h⟩

/-- Steps in a row. -/
theorem seq (hx : Alike i x m) (hy : Alike m y o) : Alike i (do x; y) o := by
  intro old r new hi h
  obtain ⟨hm, hmid⟩ := hx hi h
  exact hy hm hmid

/-- A step that looks at something that both resolvers have in common. -/
theorem look {α : Type} {f : Resolver → Step} (view : Resolver → α) (k : α → Step)
    (hf : ∀ s, f s = k (view s)) (hview : ∀ ⦃old r new⦄, Atop old r new → view r = view new)
    (hk : ∀ s : Resolver, s.inFunction = i → Alike i (k (view s)) o) :
    Alike i (do f (← get)) o := by
  intro old r new hi h
  show (f r r).2.inFunction = o ∧ Atop old (f r r).2 (f new new).2
  rw [hf, hf, ← hview h]
  exact hk r hi hi h

/-- A step that may be left out in front of another one. -/
theorem ifDo (c : Prop) [Decidable c] (hx : Alike i x i) (hy : Alike i y o) :
    Alike i (do
      if c then x
      y) o := by
  by_cases hc : c
  · simp only [if_pos hc]
    exact hx.seq hy
  · simp only [if_neg hc]
    exact hy

/-- A misuse is reported by both. -/
theorem note (i : Bool) (token : Token) (misuse : Misuse) : Alike i (note token misuse) i :=
  fun _ _ _ hi h =>
    ⟨hi, h.frames, h.inFunction, h.inClass,
      congrArg (List.cons (⟨token, misuse⟩ : Report)) h.reports, h.tables⟩

/-- Both open the same scope. -/
theorem openScope (i : Bool) (origin : Origin) : Alike i (openScope origin) i :=
  fun _ _ _ hi h =>
    ⟨hi, congrArg (List.cons (⟨origin, []⟩ : Frame)) h.frames, h.inFunction, h.inClass, h.reports,
      h.tables⟩

/-- Both close it. -/
theorem closeScope (i : Bool) : Alike i closeScope i :=
  fun _ _ _ hi h => ⟨hi, congrArg List.tail h.frames, h.inFunction, h.inClass, h.reports, h.tables⟩

/-- Both enter or leave a function. -/
theorem setFunction (i o : Bool) : Alike i (modify ({ · with inFunction := o })) o :=
  fun _ _ _ _ h => ⟨rfl, h.frames, rfl, h.inClass, h.reports, h.tables⟩

/-- Both enter or leave a class. -/
theorem setClass (i : Bool) (c : ClassContext) : Alike i (modify ({ · with inClass := c })) i :=
  fun _ _ _ hi h => ⟨hi, h.frames, h.inFunction, rfl, h.reports, h.tables⟩

/-- Both put the same name. -/
theorem put (i : Bool) (name : String) (ready : Bool) : Alike i (put name ready) i := by
  rw [put_eq]
  exact fun _ _ _ hi h =>
    ⟨hi, congrArg (putIn name ready) h.frames, h.inFunction, h.inClass, h.reports, h.tables⟩

/-- Both declare a name in the same scope, or a global. -/
theorem declare (i : Bool) (name : Token) : Alike i (declare name) i := by
  intro old r new hi h
  rw [declare_apply, declare_apply, ← h.frames]
  cases r.frames with
  | nil => exact skip i hi h
  | cons f rest => exact ifDo _ (note i name .redeclared) (put i name.lexeme false) hi h

/-- Both find a name in the same scope. The newer distance hides an older one. -/
theorem record (i : Bool) (id : NodeId) (name : String) : Alike i (record id name) i := by
  intro old r new hi h
  rw [record_apply, record_apply, ← h.frames]
  cases hd : distance? r.frames name with
  | none => exact ⟨hi, h⟩
  | some d =>
    dsimp only
    obtain ⟨origin, hd⟩ := target?_of_distance? hd
    -- Both write the same entry over what they know of the node, and leave all other nodes alone.
    refine ⟨hi, rfl, h.inFunction, h.inClass, h.reports, fun x => ?_, fun x => ?_⟩
    · have := h.tables.distances x
      simp only [tables, Std.TreeMap.getElem?_insert] at this ⊢
      split
      · rfl
      · exact this
    · have := h.tables.targets x
      simp only [tables, Std.TreeMap.getElem?_alter, hd] at this ⊢
      split
      · rfl
      · exact this

/-- Both find a variable in the same scope, or in none. -/
theorem useName (i : Bool) (use : NameUse) : Alike i (useName use) i :=
  look (·.frames) (fun frames => do
    if frames.head?.bind (·.ready? use.name.lexeme) = some false then
      Resolver.note use.name .readInInitial
    Resolver.record use.id use.name.lexeme) (fun _ => rfl) (fun _ _ _ h => h.frames)
    fun _ _ => ifDo _ (note i use.name .readInInitial) (record i use.id use.name.lexeme)

/-- Both do the same with a receiver. -/
theorem useSelf (i : Bool) (id : NodeId) (keyword : Token) : Alike i (useSelf id keyword) i := by
  intro old r new hi h
  rw [Resolves.useSelf_apply, Resolves.useSelf_apply, ← h.inClass]
  cases r.inClass with
  | outside => exact note i keyword .selfOutside hi h
  | plain => exact record i id "self" hi h
  | derived => exact record i id "self" hi h

/-- Both do the same with superclasses. -/
theorem useSuper (i : Bool) (id : NodeId) (keyword : Token) : Alike i (useSuper id keyword) i := by
  intro old r new hi h
  rw [Resolves.useSuper_apply, Resolves.useSuper_apply, ← h.inClass]
  cases r.inClass with
  | outside => exact note i keyword .superOutside hi h
  | plain => exact note i keyword .superWithoutSuperclass hi h
  | derived => exact record i id "super" hi h

/-- Both do the same with a superclass of a class. -/
theorem useSuperclass (i : Bool) (className : String) (use : NameUse) :
    Alike i (useSuperclass className use) i := by
  unfold Resolver.useSuperclass
  split
  · exact note i use.name .inheritsItself
  · exact useName i use

/-- Both do the same with all of them. -/
theorem useSuperclasses (i : Bool) (className : String) (supers : List NameUse) :
    Alike i (supers.forM (Resolver.useSuperclass className)) i := by
  induction supers with
  | nil => exact skip i
  | cons use rest ih => exact (useSuperclass i className use).seq ih

/-- Both declare the same parameters. -/
theorem declareParams (i : Bool) (params : List Param) : Alike i (declareParams params) i := by
  unfold Resolver.declareParams
  induction params with
  | nil => exact skip i
  | cons p rest ih => exact ((declare i p.name).seq (put i p.name.lexeme true)).seq ih

/-- Both are inside of a function or outside, so they judge a return alike. -/
theorem checkReturn (i : Bool) (keyword : Token) : Alike i (checkReturn keyword) i := by
  refine look (·.inFunction)
    (fun inFunction => if inFunction then pure () else Resolver.note keyword .returnOutside)
    (fun _ => rfl) (fun _ _ _ h => h.inFunction) fun s _ => ?_
  split
  · exact skip i
  · exact note i keyword .returnOutside

end Alike

/-! ### The syntax -/

mutual

/-- Both resolvers do the same with an expression. -/
theorem alike_expr (i : Bool) : ∀ e : Expr, Alike i (expr e) i
  | .assign id name value => (alike_expr i value).seq (.record i id name.lexeme)
  | .binary _ left _ right | .logical _ left _ right =>
    (alike_expr i left).seq (alike_expr i right)
  | .call _ callee _ args named =>
    (alike_expr i callee).seq ((alike_exprs i args).seq (alike_namedArgs i named))
  | .get _ object _ => alike_expr i object
  | .set _ object _ value => (alike_expr i value).seq (alike_expr i object)
  | .group _ _ inner => alike_expr i inner
  | .literal .. => .skip i
  | .list _ _ elements => alike_exprs i elements
  | .self id keyword => .useSelf i id keyword
  | .super id keyword _ => .useSuper i id keyword
  | .unary _ _ right => alike_expr i right
  | .var use => .useName i use
  | .lambda fn => alike_function i fn

/-- Both do the same with expressions in a row. -/
theorem alike_exprs (i : Bool) : ∀ es : List Expr, Alike i (exprs es) i
  | [] => .skip i
  | e :: rest => (alike_expr i e).seq (alike_exprs i rest)

/-- Both do the same with named arguments. -/
theorem alike_namedArgs (i : Bool) : ∀ args : List NamedArg, Alike i (namedArgs args) i
  | [] => .skip i
  | ⟨_, value⟩ :: rest => (alike_expr i value).seq (alike_namedArgs i rest)

/-- Both do the same with the defaults of parameters. -/
theorem alike_defaults (i : Bool) : ∀ params : List Param, Alike i (defaults params) i
  | [] => .skip i
  | ⟨_, _, none, _⟩ :: rest => alike_defaults i rest
  | ⟨_, _, some value, _⟩ :: rest => (alike_expr i value).seq (alike_defaults i rest)

/-- Behind a function, both are again where they were in front of it. -/
theorem alike_function (i : Bool) : ∀ fn : Lambda, Alike i (function fn) i
  | ⟨id, _, _, params, body⟩ => by
    refine (alike_defaults i params).seq (.look (·.inFunction) (fun enclosing => do
      modify ({ · with inFunction := true })
      openScope (.call id)
      declareParams params
      stmts body
      closeScope
      modify ({ · with inFunction := enclosing })) (fun _ => rfl) (fun _ _ _ h => h.inFunction)
      fun s hs => ?_)
    rw [hs]
    -- What is around the function matters for its defaults only.
    exact (Alike.setFunction i true).seq <| (Alike.openScope true (.call id)).seq <|
      (Alike.declareParams true params).seq <| (alike_stmts true body).seq <|
      (Alike.closeScope true).seq (.setFunction true i)

/-- Both do the same with the methods of a class. -/
theorem alike_functions (i : Bool) : ∀ fns : List Lambda, Alike i (functions fns) i
  | [] => .skip i
  | fn :: rest => (alike_function i fn).seq (alike_functions i rest)

/-- Both do the same with a block. -/
theorem alike_block (i : Bool) : ∀ b : Block, Alike i (block b) i
  | ⟨id, _, body⟩ =>
    (Alike.openScope i (.block id)).seq ((alike_stmts i body).seq (.closeScope i))

/-- Both resolvers do the same with a statement. -/
theorem alike_stmt (i : Bool) : ∀ s : Stmt, Alike i (stmt s) i
  | .block b => alike_block i b
  | .varDecl _ name none => (Alike.declare i name).seq (.put i name.lexeme true)
  | .varDecl _ name (some value) =>
    (Alike.declare i name).seq ((alike_expr i value).seq (.put i name.lexeme true))
  | .function _ fn =>
    (Alike.declare i fn.token).seq ((Alike.put i fn.token.lexeme true).seq (alike_function i fn))
  | .classDecl id name supers methods => by
    -- The steps behind the superclasses are the same in a class without any.
    have hmethods (enclosing : ClassContext) := (Alike.openScope i (.supers id)).seq <|
      (Alike.put i "super" true).seq <| (Alike.openScope i (.receiver id)).seq <|
      (Alike.put i "self" true).seq <| (alike_functions i methods).seq <|
      (Alike.closeScope i).seq <| (Alike.closeScope i).seq (.setClass i enclosing)
    rw [stmt]
    refine .look (·.inClass) (fun enclosing => do
      modify ({ · with inClass := .plain })
      declare name
      define name
      supers.forM (useSuperclass name.lexeme)
      unless supers.isEmpty do modify ({ · with inClass := .derived })
      openScope (.supers id)
      put "super" true
      openScope (.receiver id)
      put "self" true
      functions methods
      closeScope
      closeScope
      modify ({ · with inClass := enclosing })) (fun _ => by rfl) (fun _ _ _ h => h.inClass)
      fun s _ => ?_
    refine (Alike.setClass i .plain).seq <| (Alike.declare i name).seq <|
      (Alike.put i name.lexeme true).seq <| (Alike.useSuperclasses i name.lexeme supers).seq ?_
    cases supers.isEmpty with
    | true => exact hmethods s.inClass
    | false => exact (Alike.setClass i .derived).seq (hmethods s.inClass)
  | .expr _ value => alike_expr i value
  | .ifElse _ _ condition body none => (alike_expr i condition).seq (alike_block i body)
  | .ifElse _ _ condition body (some otherwise) =>
    (alike_expr i condition).seq ((alike_block i body).seq (alike_stmt i otherwise))
  | .whileLoop _ _ condition body => (alike_expr i condition).seq (alike_block i body)
  | .forIn id _ name iterable body =>
    (alike_expr i iterable).seq <| (Alike.openScope i (.loop id)).seq <|
      (Alike.declare i name).seq <| (Alike.put i name.lexeme true).seq <|
      (alike_block i body).seq (.closeScope i)
  | .ret _ keyword none => .checkReturn i keyword
  | .ret _ keyword (some value) => (Alike.checkReturn i keyword).seq (alike_expr i value)

/-- Both do the same with statements in a row. -/
theorem alike_stmts (i : Bool) : ∀ body : List Stmt, Alike i (stmts body) i
  | [] => .skip i
  | s :: rest => (alike_stmt i s).seq (alike_stmts i rest)

end

/-! ### Programs -/

/-- The resolver after programs, from the first one on. -/
def after (programs : List (List Stmt)) : Resolver :=
  programs.foldl (fun r program => (r.run program).2) {}

/-- One more program is resolved behind the others. -/
theorem after_concat (programs : List (List Stmt)) (program : List Stmt) :
    after (programs ++ [program]) = ((after programs).run program).2 :=
  List.foldl_concat ..

/-- A resolver that is not in the middle of a program. -/
structure Idle (r : Resolver) : Prop where
  /-- No scope is open. -/
  frames : r.frames = []
  /-- It is in no function. -/
  inFunction : r.inFunction = false
  /-- It is in no class. -/
  inClass : r.inClass = .outside

/-- An idle resolver differs from a new one in its tables. -/
theorem Idle.atop {r : Resolver} (h : r.Idle) :
    Atop r.tables { r with reports := [] } { } where
  frames := h.frames
  inFunction := h.inFunction
  inClass := h.inClass
  reports := rfl
  tables := ⟨fun _ => by simp [tables], fun _ => by simp [tables]⟩

/-- A program on an idle resolver. -/
theorem Idle.run {r : Resolver} (h : r.Idle) (program : List Stmt) :
    (r.run program).2.Idle ∧ Atop r.tables (r.run program).2 (run {} program).2 := by
  have hstart : ({ r with reports := [] } : Resolver).inFunction = false := h.inFunction
  obtain ⟨hinFunction, hatop⟩ := alike_stmts false program hstart h.atop
  have hready := ready_run ⟨h.inClass, h.frames ▸ .nil⟩ program
  exact ⟨⟨List.forall₂_nil_right_iff.1 hready.frames, hinFunction, hready.inClass⟩, hatop⟩

/-- Between programs a resolver is idle. -/
theorem idle_after (programs : List (List Stmt)) : (after programs).Idle := by
  -- The last program runs on what all others have led to, so it is taken off first.
  induction programs using List.reverseRec with
  | nil => exact ⟨rfl, rfl, rfl⟩
  | append_singleton programs program ih =>
    rw [after_concat]
    exact (ih.run program).1

/-- The resolver knows nothing of nodes that no program uses. -/
theorem after_none (programs : List (List Stmt)) {id : NodeId}
    (h : ∀ p ∈ programs, id ∉ (Stmt.usesOf [] p).map Use.id) :
    (after programs).distances[id]? = none ∧ (after programs).targets[id]? = none := by
  induction programs using List.reverseRec with
  | nil => exact ⟨by simp [after], by simp [after]⟩
  | append_singleton programs program ih =>
    have hidle := idle_after programs
    have hsame := run_same ⟨hidle.inClass, hidle.frames ▸ .nil⟩ program
      (h program List.mem_concat_self)
    obtain ⟨hdistances, htargets⟩ := ih fun p hp => h p (List.mem_append_left _ hp)
    rw [after_concat]
    exact ⟨hsame.1.trans hdistances, hsame.2.trans htargets⟩

/-- Programs do not influence each other. After any programs, with whatever was wrong with them, the
resolver is idle; for the last program it reports what a new resolver reports, it records what a new
resolver records and leaves everything else as it was, so that it says of the nodes that no earlier
program uses what a new resolver says. -/
theorem run_independent (programs : List (List Stmt)) (program : List Stmt) :
    let r := after programs
    let last := r.run program
    let alone := run {} program
    last.2.Idle ∧ last.1 = alone.1 ∧ last.2.tables.Atop alone.2.tables r.tables ∧
      ∀ id, (∀ p ∈ programs, id ∉ (Stmt.usesOf [] p).map Use.id) →
        last.2.tables.Same alone.2.tables id := by
  intro r last alone
  obtain ⟨hidle, hatop⟩ := (idle_after programs).run program
  refine ⟨hidle, congrArg List.reverse hatop.reports, hatop.tables, fun id hid => ?_⟩
  obtain ⟨hdistances, htargets⟩ := after_none programs hid
  refine ⟨(hatop.tables.distances id).trans ?_, (hatop.tables.targets id).trans ?_⟩
  · exact (congrArg _ hdistances).trans Option.or_none
  · exact (congrArg _ htargets).trans Option.or_none

end Resolver

end ClassScript.Scope
