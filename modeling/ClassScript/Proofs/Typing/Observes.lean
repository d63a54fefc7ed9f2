import ClassScript.Proofs.Typing.Lawful

/-!
# A check keeps laws as classes are made

A step of a check that may make classes leads from a state of which the law of one stage holds to a
state of which the law of a later stage holds. `Check.Observes` says so of one step, and here is a
lemma for every function of the checker that checks a part of a program.
-/

namespace ClassScript.Typing

namespace Check

variable {α β : Type} {R : Laws} {i j : R.Stage}

/-- A step that keeps laws from a stage on, as they change with the classes that are made. Its value
has a property at the stage where the step ends. -/
structure Observes (R : Laws) (i : R.Stage) (A : R.Stage → α → Prop) (x : Check α) : Prop where
  /-- The law of some later stage holds where the step ends, early or not. -/
  run : ∀ j, i ≤ j → ∀ s, (R.law j).Holds s →
    ∃ k, j ≤ k ∧ (R.law k).Holds (x.final s) ∧ ∀ a s', x s = .ok a s' → A k a

/-- A step that keeps laws and whose value is of no interest. -/
abbrev Abides (R : Laws) (i : R.Stage) (x : Check α) : Prop := Observes R i (fun _ => Whatever) x

/-- The type is of a class under the law of a stage. -/
abbrev Covers (R : Laws) (i : R.Stage) (t : Ty) : Prop := t.Only (R.law i).classes

namespace Observes

variable {A : R.Stage → α → Prop} {B : R.Stage → β → Prop} {x y : Check α}

/-! ### Rules -/

/-- A step that makes no class. -/
theorem of_lawful (h : ∀ j, i ≤ j → Lawful (R.law j) (A j) x) : Observes R i A x where
  run j hij s hs := ⟨j, le_refl j, (h j hij).state s hs, fun _ _ hr => (h j hij).value hs hr⟩

/-- A value keeps every law. -/
theorem done (a : α) : Abides R i (Pure.pure a) := .of_lawful fun _ _ => .done a

/-- A step that stops keeps every law. -/
theorem throw (e : Stop) : Observes R i A (MonadExcept.throw e) := .of_lawful fun _ _ => .throw e

/-- What keeps laws from a stage on keeps them from a later one on. -/
theorem later (h : Observes R i A x) (hij : i ≤ j) : Observes R j A x where
  run k hjk := h.run k (le_trans hij hjk)

/-- One step after another: the second one starts at the stage where the first one ends. -/
theorem bind {f : α → Check β} (hx : Observes R i A x)
    (hf : ∀ j, i ≤ j → ∀ a, A j a → Observes R j B (f a)) : Observes R i B (x >>= f) where
  run j hij s hs := by
    obtain ⟨k, hjk, hstate, hvalue⟩ := hx.run j hij s hs
    unfold Check.final at *
    rw [bind_apply]
    cases hr : x s with
    | error e s' =>
      rw [hr] at hstate
      exact ⟨k, hjk, hstate, nofun⟩
    | ok a s' =>
      -- The second step starts at a stage that is no earlier than that of the first one.
      rw [hr] at hstate
      obtain ⟨m, hkm, hfinal, hresult⟩ :=
        (hf k (le_trans hij hjk) a (hvalue a s' hr)).run k (le_refl k) s' hstate
      exact ⟨m, le_trans hjk hkm, hfinal, hresult⟩

/-- Looks at the state and goes on. -/
theorem getBind {f : Checker → Check β}
    (hf : ∀ j, i ≤ j → ∀ s, (R.law j).Holds s → Observes R j B (f s)) :
    Observes R i B (MonadState.get >>= f) where
  run j hij s hs := (hf j hij s hs).run j (le_refl j) s hs

/-- Both branches of a choice have to keep laws. -/
theorem ite {c : Prop} [Decidable c] (hx : Observes R i A x) (hy : Observes R i A y) :
    Observes R i A (if c then x else y) := by
  split
  · exact hx
  · exact hy

/-- A test in front of a step, which is left early or goes on. -/
theorem guard {c : Prop} [Decidable c] {x : Check PUnit} {k : PUnit → Check β}
    (hx : Abides R i x) (hk : ∀ j, i ≤ j → ∀ r, Observes R j B (k r)) :
    Observes R i B (if c then x >>= k else k ()) :=
  .ite (hx.bind fun j hij r _ => hk j hij r) (hk i (le_refl i) ())

end Observes

/-! ### Functions and classes -/

/-- A scope may have types of classes under the law. -/
theorem abides_inScope {scope : StaticScope} (hscope : VarsOnly (R.law i).classes scope.vars)
    {x : Check α} (hx : Abides R i x) : Abides R i (inScope scope x) := by
  refine Observes.bind (A := fun _ => Whatever) (.of_lawful fun j hij => .change fun s hs => ?_)
    fun j hij _ _ => (hx.later hij).bind fun _ _ a _ => .of_lawful fun _ _ => ?_
  · refine hs.of_eq (hs.only.withLocals (List.forall_mem_cons.2 ⟨?_, hs.only.locals⟩)) rfl rfl
    exact hscope.mono fun _ => R.classes_mono hij
  · refine Lawful.bind (.change fun s hs => ?_) fun _ _ => .done a
    exact hs.of_eq (hs.only.withLocals fun sc hsc =>
      hs.only.locals sc (List.mem_of_mem_tail hsc)) rfl rfl

/-- The body of a function is checked in a context under the law. -/
theorem abides_functionBody (id : NodeId) (params : List Param) (f : SignatureId)
    {context : Context} (hc : context.Only (R.law i).classes) {body : Check Unit}
    (hb : Abides R i body) : Abides R i (functionBody id params f context body) := by
  refine .getBind fun j hij s hs => ?_
  dsimp only
  split
  · exact .throw _
  · next vars hvars =>
    have hscope : VarsOnly (R.law j).classes vars.reverse := by
      intro p hp
      exact only_paramVars (hs.only.signature f).paramTypes hvars p (List.mem_reverse.1 hp)
    refine .getBind fun k hjk s₁ hs₁ => ?_
    -- The context around the function stays under the law at every later stage.
    have hcontext : ∀ m, k ≤ m → context.Only (R.law m).classes := fun m hkm =>
      hc.mono fun _ => R.classes_mono (le_trans hij (le_trans hjk hkm))
    refine Observes.bind (A := fun _ => Whatever) (.of_lawful fun m hkm => .change fun s hs =>
      hs.of_eq (hs.only.withContext ?_) rfl rfl) fun m hkm _ _ => ?_
    · rintro _ ⟨⟩
      exact hcontext m hkm
    have hstart := le_trans hij (le_trans hjk hkm)
    refine (abides_inScope (hscope.mono fun _ => R.classes_mono (le_trans hjk hkm))
      (hb.later hstart)).bind fun n hmn _ _ => .getBind fun p hnp s₂ hs₂ =>
        .of_lawful fun q hpq => ?_
    -- The context at the end is the one the body left, or the one it was entered with.
    have hinner : (s₂.context.getD context).Only (R.law q).classes := by
      refine Context.Only.mono (fun _ => R.classes_mono hpq) ?_
      cases h : s₂.context with
      | none => exact hcontext p (le_trans hkm (le_trans hmn hnp))
      | some c => exact hs₂.only.context c h
    refine (lawful_resultType _ hinner).bind fun result hresult => .change fun s₃ hs₃ => ?_
    have hsettled := hs₃.only.modifySignature f (u := ({ · with returns := some result }))
      fun sig hsig => ⟨hsig.paramTypes, only_some hresult, hsig.returnsByArg⟩
    have houter : ∀ c, s₁.context = some c → c.Only (R.law q).classes := fun c hc =>
      (hs₁.only.context c hc).mono fun _ =>
        R.classes_mono (le_trans hkm (le_trans hmn (le_trans hnp hpq)))
    exact ⟨hsettled.withContext houter, (R.law q).settle hs₃.tables f result⟩

/-- A class that is made is known from a later stage on. -/
theorem observes_newClass (name : String) {supers : List ClassType}
    (h : ∀ c ∈ supers, (R.law i).classes c ∧ c.native? = none) :
    Observes R i (fun j => (R.law j).Makes) (newClass name supers) where
  run j hij s hs := by
    obtain ⟨k, hjk, hmade, htables⟩ :=
      R.make hs.tables name fun c hc => ⟨R.classes_mono hij (h c hc).1, (h c hc).2⟩
    refine ⟨k, hjk, ⟨?_, htables⟩, ?_⟩
    · exact hs.only.pushBody.mono fun _ => R.classes_mono hjk
    · rintro c s' ⟨⟩
      exact hmade

/-- A class of the program may get a method. -/
theorem abides_putMember {c : ClassType} (hc : (R.law i).Makes c) (name : String)
    (f : SignatureId) : Abides R i (putMember c name f) :=
  .of_lawful fun _ hij => lawful_putMember (R.fresh_mono hij hc.2) name f

/-- A name may get a type of a class under the law. -/
theorem abides_define (name : String) {t : Option Ty} (h : ∀ u, t = some u → Covers R i u) :
    Abides R i (define name t) :=
  .of_lawful fun _ hij => lawful_define name fun u hu => R.only_mono hij (h u hu)

/-- A return may be noted with a type of a class under the law. -/
theorem abides_noteReturn (keyword : Token) {t : Ty} (h : Covers R i t) :
    Abides R i (noteReturn keyword t) :=
  .of_lawful fun _ hij => lawful_noteReturn keyword (R.only_mono hij h)

/-! ### Expressions and statements -/

/-- The type of a node that is recorded. -/
theorem observes_record (id : NodeId) {t : Ty} (h : Covers R i t) :
    Observes R i (Covers R) (record id t) :=
  .of_lawful fun _ hij => lawful_record id (R.only_mono hij h)

/-- The node of a statement without a value. -/
theorem observes_nil (id : NodeId) : Observes R i (Covers R) (record id (builtin .nil)) :=
  observes_record id ((R.law i).only_builtin .nil)

/-- A function with parameters whose result is not known yet. -/
theorem abides_newSignature {params : List Param} {types : List Ty}
    (h : ParamTypesOnly (R.law i) params types) (name : String) :
    Abides R i (newSignature { name, params, paramTypes := types, returns := none }) :=
  .of_lawful fun _ hij =>
    lawful_newSignature ((h.mono fun _ => R.classes_mono hij).signature name) h.length

/-- A declared type is of a class under the law. -/
theorem observes_declaredType (token : Token) : Observes R i (Covers R) (declaredType token) :=
  .of_lawful fun _ _ => lawful_declaredType token

mutual

/-- Expressions have types of classes under the law of the stage where they end. -/
theorem observes_expr (i : R.Stage) : ∀ e : Expr, Observes R i (Covers R) (expr e)
  | .literal id _ value => observes_record id (only_literalType value)
  | .group id _ inner => (observes_expr i inner).bind fun _ _ _ ht => observes_record id ht
  | .list id _ elements =>
    (abides_exprs i elements).bind fun j _ _ _ => observes_record id ((R.law j).only_builtin .list)
  | .var use => .of_lawful fun _ _ => lawful_useVariable use
  | .self id _ => .getBind fun j _ _ hs => observes_record id (hs.only.selfType (R.law j).native)
  | .assign id name value =>
    (observes_expr i value).bind fun _ _ _ ht => .of_lawful fun _ hj =>
      (lawful_noteUse id name.lexeme).bind fun _ _ =>
        (lawful_assign name (R.only_mono hj ht)).bind fun _ _ =>
          lawful_record id (R.only_mono hj ht)
  | .super id keyword method => .of_lawful fun _ _ =>
    (lawful_superType keyword method).bind fun _ ht => lawful_record id ht
  | .unary id _ right =>
    (observes_expr i right).bind fun _ _ _ _ => .of_lawful fun _ _ =>
      (lawful_send ..).bind fun _ ht => lawful_record id ht
  | .binary id left _ right =>
    (observes_expr i left).bind fun j _ _ _ => (observes_expr j right).bind fun _ _ _ _ =>
      .of_lawful fun _ _ => (lawful_binaryType ..).bind fun _ ht => lawful_record id ht
  | .logical id left _ right =>
    (observes_expr i left).bind fun j _ _ hl => (observes_expr j right).bind fun _ hj _ hr =>
      .of_lawful fun _ hk =>
        (lawful_logicalType (R.only_mono (le_trans hj hk) hl) (R.only_mono hk hr)).bind
          fun _ ht => lawful_record id ht
  | .call id callee paren args named =>
    (observes_expr i callee).bind fun j _ _ hfn => (abides_exprs j args).bind fun k hj _ _ =>
      (abides_namedArgs k named).bind fun _ hk _ _ => .of_lawful fun _ hm =>
        (lawful_callType paren (R.only_mono (le_trans hj (le_trans hk hm)) hfn) _ _).bind
          fun _ ht => lawful_record id ht
  | .get id object _ =>
    (observes_expr i object).bind fun _ _ _ _ => .of_lawful fun _ _ =>
      (lawful_member ..).bind fun _ ht => lawful_record id ht
  | .set id object name value =>
    (observes_expr i object).bind fun j _ _ ho => (observes_expr j value).bind fun _ hj _ hv =>
      .of_lawful fun _ hk =>
        (lawful_setAttribute (R.only_mono (le_trans hj hk) ho) name (R.only_mono hk hv)).bind
          fun _ _ => lawful_record id (R.only_mono hk hv)
  | .lambda ⟨id, _, _, params, body⟩ =>
    (observes_paramTypes i params).bind fun _ _ _ htypes =>
      (abides_newSignature htypes _).bind fun _ _ f _ => .getBind fun j _ _ hs =>
        (abides_functionBody id params f hs.only.childContext (abides_stmts j body)).bind
          fun _ _ _ _ => observes_record id (t := .function f) trivial

/-- Expressions in a row keep laws. -/
theorem abides_exprs (i : R.Stage) : ∀ es : List Expr, Abides R i (exprs es)
  | [] => .done _
  | e :: rest => (observes_expr i e).bind fun j _ _ _ => (abides_exprs j rest).bind
      fun _ _ _ _ => .done _

/-- So do named arguments. -/
theorem abides_namedArgs (i : R.Stage) : ∀ args : List NamedArg, Abides R i (namedArgs args)
  | [] => .done _
  | ⟨_, value⟩ :: rest => (observes_expr i value).bind fun j _ _ _ =>
      (abides_namedArgs j rest).bind fun _ _ _ _ => .done _

/-- The types of parameters are of classes under the law, one for each parameter. -/
theorem observes_paramTypes (i : R.Stage) : ∀ params : List Param,
    Observes R i (fun j => ParamTypesOnly (R.law j) params) (paramTypes params)
  | [] => .of_lawful fun _ _ => .pure ⟨List.forall_mem_nil _, rfl⟩
  | ⟨type, _, none, _⟩ :: rest =>
    (observes_declaredType type).bind fun j _ _ ht => (observes_paramTypes j rest).bind
      fun _ hj _ hts => .of_lawful fun _ hk =>
        .pure ((hts.mono fun _ => R.classes_mono hk).cons (R.only_mono (le_trans hj hk) ht))
  | ⟨type, name, some value, variadic⟩ :: rest => by
    refine (observes_declaredType type).bind fun j _ t ht => (observes_expr j value).bind
      fun k hj d _ => ?_
    -- The other parameters are checked whether or not the default fits.
    have hrest : ∀ m, k ≤ m → Observes R m
        (fun j => ParamTypesOnly (R.law j) (⟨type, name, some value, variadic⟩ :: rest))
        (do return t :: (← paramTypes rest)) := fun m hkm =>
      (observes_paramTypes m rest).bind fun _ hm _ hts => .of_lawful fun _ hn =>
        .pure ((hts.mono fun _ => R.classes_mono hn).cons
          (R.only_mono (le_trans hj (le_trans hkm (le_trans hm hn))) ht))
    refine Observes.bind (A := fun _ => Whatever) (.of_lawful fun _ _ => lawful_assignable t d)
      fun m hm fits _ => .ite (hrest m hm) ?_
    refine Observes.bind (A := fun _ => Whatever) (.of_lawful fun _ _ => lawful_text t)
      fun n hn _ _ => ?_
    refine Observes.bind (A := fun _ => Whatever) (.of_lawful fun _ _ => lawful_text d)
      fun p hp _ _ => ?_
    refine Observes.bind (A := fun _ => Whatever) (.of_lawful fun _ _ => lawful_reject ..)
      fun q hq _ _ => hrest q ?_
    exact le_trans hm (le_trans hn (le_trans hp hq))

/-- The methods of a new class may be declared. -/
theorem abides_declareMethods (i : R.Stage) {c : ClassType} (hc : (R.law i).Makes c) :
    ∀ methods : List Lambda, Abides R i (declareMethods c methods)
  | [] => .done _
  | ⟨id, _, _, params, _⟩ :: rest =>
    (observes_paramTypes i params).bind fun _ hj _ htypes =>
      (abides_newSignature htypes _).bind fun _ hk f _ =>
        have hc' := R.makes_mono (le_trans hj hk) hc
        (abides_putMember hc' _ f).bind fun _ hm _ _ =>
          (observes_record id (t := .function f) trivial).bind fun n hn _ _ =>
            abides_declareMethods n (R.makes_mono (le_trans hm hn) hc') rest

/-- The body of a method keeps laws. -/
theorem abides_methodBody (i : R.Stage) {c : ClassType} (hc : (R.law i).classes c) :
    ∀ fn : Lambda, Abides R i (methodBody c fn)
  | ⟨id, _, name, params, body⟩ => by
    refine .getBind fun j hij s _ => ?_
    cases (s.body c).members[(name.map Token.lexeme).getD "lambda"]? with
    | none => exact .throw _
    | some f =>
      exact abides_functionBody id params f (only_methodContext (R.classes_mono hij hc) _ f)
        (abides_stmts j body)

/-- So do the bodies of the initializers. -/
theorem abides_initializerBodies (i : R.Stage) {c : ClassType} (hc : (R.law i).classes c) :
    ∀ methods : List Lambda, Abides R i (initializerBodies c methods)
  | [] => .done _
  | fn :: rest => (abides_initializerBodies i hc rest).bind fun j hij _ _ =>
      .ite (abides_methodBody j (R.classes_mono hij hc) fn) (.done _)

/-- So do the bodies of the other methods. -/
theorem abides_otherBodies (i : R.Stage) {c : ClassType} (hc : (R.law i).classes c) :
    ∀ methods : List Lambda, Abides R i (otherBodies c methods)
  | [] => .done _
  | fn :: rest => .guard (abides_methodBody i hc fn) fun j hij _ =>
      abides_otherBodies j (R.classes_mono hij hc) rest

/-- So does a block. -/
theorem abides_block (i : R.Stage) : ∀ b : Block, Abides R i (block b)
  | ⟨id, _, body⟩ =>
    (observes_nil id).bind fun j _ _ _ => abides_inScope (.nil _) (abides_stmts j body)

/-- So does a statement. -/
theorem abides_stmt (i : R.Stage) : ∀ s : Stmt, Abides R i (stmt s)
  | .expr id value =>
    (observes_expr i value).bind fun _ _ _ ht => (observes_record id ht).bind
      fun _ _ _ _ => .done _
  | .varDecl id name none =>
    (abides_define name.lexeme (t := none) nofun).bind fun _ _ _ _ => (observes_nil id).bind
      fun _ _ _ _ => .done _
  | .varDecl id name (some value) =>
    (observes_expr i value).bind fun _ _ _ ht =>
      (abides_define name.lexeme (only_some ht)).bind fun _ hk _ _ =>
        (observes_record id (R.only_mono hk ht)).bind fun _ _ _ _ => .done _
  | .function id ⟨fid, _, _, params, body⟩ =>
    (observes_paramTypes i params).bind fun _ _ _ htypes =>
      (abides_newSignature htypes _).bind fun _ _ f _ =>
        (abides_define _ (only_some (t := .function f) trivial)).bind fun _ _ _ _ =>
          (observes_record id (t := .function f) trivial).bind fun _ _ _ _ =>
            .getBind fun j _ _ hs =>
              abides_functionBody fid params f hs.only.childContext (abides_stmts j body)
  | .classDecl id name supers methods => by
    refine Observes.bind (.of_lawful fun _ _ => lawful_superclasses supers) fun j _ cs hcs => ?_
    refine (observes_newClass name.lexeme hcs).bind fun k _ c hc => ?_
    -- From here on the stage is one that knows the new class.
    refine (abides_define name.lexeme (only_some (t := .class c) hc.1)).bind fun l hl _ _ => ?_
    have hcl := R.makes_mono hl hc
    refine (observes_record id (t := .class c) hcl.1).bind fun m hm _ _ => ?_
    have hcm := R.makes_mono hm hcl
    refine abides_inScope (.single "self" (t := .instance c) hcm.1) ?_
    refine (abides_declareMethods m hcm methods).bind fun n hn _ _ => ?_
    have hcn := R.classes_mono hn hcm.1
    exact (abides_initializerBodies n hcn methods).bind fun p hp _ _ =>
      abides_otherBodies p (R.classes_mono hp hcn) methods
  | .block b => abides_block i b
  | .ifElse id _ condition body none =>
    (observes_nil id).bind fun j _ _ _ => (observes_expr j condition).bind fun k _ _ _ =>
      abides_block k body
  | .ifElse id _ condition body (some otherwise) =>
    (observes_nil id).bind fun j _ _ _ => (observes_expr j condition).bind fun k _ _ _ =>
      (abides_block k body).bind fun m _ _ _ => abides_stmt m otherwise
  | .whileLoop id _ condition body =>
    (observes_nil id).bind fun j _ _ _ => (observes_expr j condition).bind fun k _ _ _ =>
      abides_block k body
  | .forIn id keyword name iterable body => by
    refine (observes_nil id).bind fun j _ _ _ => (observes_expr j iterable).bind
      fun k _ t _ => ?_
    refine Observes.bind (A := Covers R) (.of_lawful fun _ _ => lawful_elementType keyword t)
      fun m _ e he => ?_
    exact abides_inScope (.single name.lexeme he) (abides_block m body)
  | .ret id keyword none =>
    (observes_nil id).bind fun _ _ _ ht => abides_noteReturn keyword ht
  | .ret id keyword (some value) =>
    (observes_expr i value).bind fun _ _ _ ht => (observes_record id ht).bind
      fun _ _ _ ht' => abides_noteReturn keyword ht'

/-- So do statements in a row. -/
theorem abides_stmts (i : R.Stage) : ∀ body : List Stmt, Abides R i (stmts body)
  | [] => .done _
  | s :: rest => (abides_stmt i s).bind fun j _ _ _ => abides_stmts j rest

end

end Check

end ClassScript.Typing
