import ClassScript.Proofs.Typing.Edits
import ClassScript.Proofs.Typing.Surroundings

/-!
# The state of the checker and what is around a place

The checker swaps its context around the bodies of functions, and puts it back behind them. So
whatever it checks in a body, the context is that of the method around the body, and a treatment of
superclasses that agrees with the checker's own in that context agrees with it on whole programs.
`Check.Agrees` says so of one step. It speaks of the contexts at both ends of the step, because the
two ends of a function body differ.
-/

namespace ClassScript.Typing

/-! ### Where the checker is -/

/-- The method that the checker is in: its name, its signature and its class. -/
abbrev Whereabouts := Option (String × Option SignatureId × Option ClassType)

/-- The method that a context belongs to. -/
def Context.method (c : Context) : String × Option SignatureId × Option ClassType :=
  (c.home, c.method?, c.class?)

/-- The method that the checker is in. -/
def Checker.whereabouts (s : Checker) : Whereabouts := s.context.map Context.method

/-- The checker is in the method whose body is around, and without such a body in no class. -/
def MethodBody.Holds (p : Whereabouts) : Option MethodBody → Prop
  | some b => p = some (b.title, some b.signature, some b.cls)
  | none => ∀ home method cls, p = some (home, method, cls) → cls = none

/-- The checker is where the surroundings of a place say. -/
abbrev Surroundings.Hold (p : Whereabouts) (around : Option Surroundings) : Prop :=
  MethodBody.Holds p (bodyAround around)

/-- Edits leave the checker in the method it is in. -/
theorem Edits.whereabouts {s s' : Checker} (h : Edits s s') : s'.whereabouts = s.whereabouts := by
  induction h with
  | refl => rfl
  | tail _ h ih =>
    cases h with
    | result t keyword =>
      unfold Checker.whereabouts at *
      rw [Option.map_map, ← ih]
      rfl
    | _ => exact ih

/-- A function is in the method that the function around it is in. -/
theorem MethodBody.Holds.child {p : Whereabouts} {b : Option MethodBody}
    (h : MethodBody.Holds p b) {s : Checker} (hs : s.whereabouts = p) :
    MethodBody.Holds (some (Check.childContext s).method) b := by
  cases hcontext : s.context with
  | none =>
    have hp : p = none := by rw [← hs, Checker.whereabouts, hcontext]; rfl
    cases b with
    | some b => cases hp.symm.trans h
    | none =>
      rintro home method cls ⟨⟩
      rw [Check.childContext, hcontext]
  | some context =>
    -- The new context differs in the results only.
    have hsame : some (Check.childContext s).method = p := by
      rw [← hs, Checker.whereabouts, Check.childContext, hcontext]
      rfl
    exact hsame ▸ h

namespace Check

variable {α β : Type} {p q r : Whereabouts}

/-- Two steps that do the same in one method, and lead to another one. -/
structure Agrees (p q : Whereabouts) (x y : Check α) : Prop where
  /-- They do the same. -/
  same : ∀ {s : Checker}, s.whereabouts = p → x s = y s
  /-- At the end the checker is in the other method. -/
  leads : ∀ {s s' : Checker} {a : α}, s.whereabouts = p → y s = .ok a s' → s'.whereabouts = q

namespace Agrees

variable {x y : Check α}

/-! ### Rules -/

/-- Two steps that stop for the same reason agree, wherever they lead. -/
theorem throw (e : Stop) : Agrees p q (MonadExcept.throw e : Check α) (MonadExcept.throw e) :=
  ⟨fun _ => rfl, fun _ hr => nomatch hr⟩

/-- A step that leaves the context alone. -/
theorem steady (h : ∀ s, (x.final s).whereabouts = s.whereabouts) : Agrees p p x x where
  same _ := rfl
  leads {s _ _} hs hr := by
    have hfinal := h s
    rw [final_ok hr] at hfinal
    exact hfinal.trans hs

/-- A step that makes only edits stays in its method. -/
theorem edits (h : x.Edits) : Agrees p p x x := steady fun s => (h.edits s).whereabouts

/-- A value stays in its method. -/
theorem pure (a : α) : Agrees p p (Pure.pure a : Check α) (Pure.pure a) := edits (.pure a)

/-- A change of the state leads where it leads from every state in the method. -/
theorem change {f : Checker → Checker}
    (h : ∀ s : Checker, s.whereabouts = p → (f s).whereabouts = q) :
    Agrees p q (modify f : Check Unit) (modify f) := by
  constructor
  · exact fun _ => rfl
  · intro s s' a hs hr
    cases hr
    exact h s hs

/-- One step after another: the second ones agree in the method that the first ones lead to. -/
theorem bind {f g : α → Check β} (h : Agrees p q x y) (hf : ∀ a, Agrees q r (f a) (g a)) :
    Agrees p r (x >>= f) (y >>= g) := by
  constructor
  · intro s hs
    rw [bind_apply, bind_apply, h.same hs]
    cases hr : y s with
    | ok a s' => exact (hf a).same (h.leads hs hr)
    | error e s' => rfl
  · intro s s' b hs hr
    -- Both go on from the same state, or end with the same error.
    rw [bind_apply] at hr
    cases hy : y s with
    | ok a s₁ =>
      rw [hy] at hr
      exact (hf a).leads (h.leads hs hy) hr
    | error e s₁ =>
      rw [hy] at hr
      cases hr

/-- Looks at the state and goes on. -/
theorem getBind {f g : Checker → Check β}
    (hf : ∀ s : Checker, s.whereabouts = p → Agrees p q (f s) (g s)) :
    Agrees p q (MonadState.get >>= f) (MonadState.get >>= g) where
  same {s} hs := (hf s hs).same hs
  leads {s _ _} hs hr := (hf s hs).leads hs hr

/-- A step in a new scope. -/
theorem inScope (scope : StaticScope) (h : Agrees p q x y) :
    Agrees p q (inScope scope x) (inScope scope y) := by
  have hopen : Agrees p p (modify fun s => { s with locals := scope :: s.locals } : Check Unit) _ :=
    .change fun _ hs => hs
  refine hopen.bind fun _ => h.bind fun a => ?_
  have hclose : Agrees q q (modify fun s => { s with locals := s.locals.tail } : Check Unit) _ :=
    .change fun _ hs => hs
  exact hclose.bind fun _ => .pure a

/-- The body of a function is checked in a context of its own, and the one before is put back. -/
theorem functionBody (id : NodeId) (params : List Param) (f : SignatureId) (context : Context)
    {x y : Check Unit} (h : Agrees (some context.method) (some context.method) x y) :
    Agrees p p (functionBody id params f context x) (functionBody id params f context y) := by
  refine .getBind fun s _ => ?_
  dsimp only
  split
  · exact .throw _
  · refine .getBind fun s hs => ?_
    have henter : Agrees p (some context.method)
        (modify fun s => { s with context := some context } : Check Unit) _ :=
      .change fun _ _ => rfl
    refine henter.bind fun _ => (h.inScope _).bind fun _ => .getBind fun s' _ => ?_
    exact (edits (edits_resultType ..)).bind fun _ => .change fun _ _ => hs

end Agrees

/-! ### Names and classes -/

/-- A use of a name is noted in its method. -/
theorem agrees_noteUse (id : NodeId) (name : String) :
    Agrees p p (noteUse id name) (noteUse id name) :=
  .change fun _ hs => hs

/-- A variable in use stays in its method. -/
theorem agrees_useVariable (use : NameUse) : Agrees p p (useVariable use) (useVariable use) :=
  (agrees_noteUse ..).bind fun _ => .getBind fun _ _ => .edits (edits_record ..)

/-- So does a name that is defined, in any scope. -/
theorem agrees_defineAt (place : Place) (name : String) (t : Option Ty) :
    Agrees p p (defineAt place name t) (defineAt place name t) :=
  .change fun s hs => by cases place <;> exact hs

/-- So does a name that is defined in the innermost scope. -/
theorem agrees_define (name : String) (t : Option Ty) :
    Agrees p p (define name t) (define name t) :=
  .getBind fun _ _ => agrees_defineAt ..

/-- So does one that is assigned to. -/
theorem agrees_assign (name : Token) (value : Ty) :
    Agrees p p (assign name value) (assign name value) := by
  refine .getBind fun s _ => ?_
  split
  · exact agrees_defineAt ..
  · exact agrees_defineAt ..
  · refine Agrees.bind (.edits (edits_answer _)) fun u => ?_
    split
    · exact .edits ((edits_text _).bind fun _ => (edits_text _).bind fun _ => edits_reject ..)
    · exact agrees_defineAt ..

/-- So does a method that is put in a class. -/
theorem agrees_putMember (c : ClassType) (name : String) (f : SignatureId) :
    Agrees p p (putMember c name f) (putMember c name f) :=
  .change fun _ hs => hs

/-- So does a class that is made. -/
theorem agrees_newClass (name : String) (supers : List ClassType) :
    Agrees p p (newClass name supers) (newClass name supers) :=
  .steady fun _ => rfl

/-- So do the superclasses of a declaration. -/
theorem agrees_superclasses (supers : List NameUse) :
    Agrees p p (superclasses supers) (superclasses supers) := by
  induction supers with
  | nil => exact .pure _
  | cons use rest ih =>
    refine (agrees_useVariable use).bind fun t => ?_
    split
    · split
      · exact Agrees.bind (.edits (edits_reject ..)) fun _ => ih.bind fun _ => .pure _
      · exact ih.bind fun _ => .pure _
    · exact .edits (edits_reject ..)

/-! ### Expressions and statements -/

/-- A treatment of superclasses that agrees with the checker's own at places of a list, in the
methods that are around them. -/
def Treatment.AgreesAt (sup : Treatment) (S : List Site) : Prop :=
  ∀ (around : Option Surroundings) (p : Whereabouts) (id : NodeId) (keyword : Token)
    (method : Option Token), Surroundings.Hold p around →
    ⟨.expr (.super id keyword method), around.map Surroundings.enclosing⟩ ∈ S →
    Agrees p p (sup around id keyword method) (superType keyword method)

section Walk

variable {sup : Treatment} {S : List Site}

mutual

/-- An expression inside the method that is around it. -/
theorem agrees_expr {p : Whereabouts} (hsup : sup.AgreesAt S)
    (around : Option Surroundings) (hp : Surroundings.Hold p around) : ∀ e : Expr,
    e.sites (around.map Surroundings.enclosing) ⊆ S → Agrees p p (exprIn sup around e) (expr e)
  | .literal .., _ => .edits (edits_record ..)
  | .group _ _ inner, h =>
    (agrees_expr hsup around hp inner (List.cons_subset.1 h).2).bind fun _ =>
      .edits (edits_record ..)
  | .list _ _ elements, h =>
    (agrees_exprs hsup around hp elements (List.cons_subset.1 h).2).bind fun _ =>
      .edits (edits_record ..)
  | .var use, _ => agrees_useVariable use
  | .self .., _ => .getBind fun _ _ => .edits (edits_record ..)
  | .assign _ name value, h => by
    refine (agrees_expr hsup around hp value (List.cons_subset.1 h).2).bind fun t => ?_
    refine (agrees_noteUse ..).bind fun _ => (agrees_assign name t).bind fun _ => ?_
    exact .edits (edits_record ..)
  | .super id keyword method, h =>
    (hsup around p id keyword method hp (List.cons_subset.1 h).1).bind fun _ =>
      .edits (edits_record ..)
  | .unary _ _ right, h =>
    (agrees_expr hsup around hp right (List.cons_subset.1 h).2).bind fun _ =>
      .edits ((edits_send ..).bind fun _ => edits_record ..)
  | .binary _ left _ right, h => by
    obtain ⟨hleft, hright⟩ := List.append_subset.1 (List.cons_subset.1 h).2
    refine (agrees_expr hsup around hp left hleft).bind fun l => ?_
    refine (agrees_expr hsup around hp right hright).bind fun r => ?_
    exact .edits ((edits_binaryType ..).bind fun _ => edits_record ..)
  | .logical _ left _ right, h => by
    obtain ⟨hleft, hright⟩ := List.append_subset.1 (List.cons_subset.1 h).2
    refine (agrees_expr hsup around hp left hleft).bind fun l => ?_
    refine (agrees_expr hsup around hp right hright).bind fun r => ?_
    exact .edits ((edits_logicalType ..).bind fun _ => edits_record ..)
  | .call _ callee _ args named, h => by
    obtain ⟨hfront, hnamed⟩ := List.append_subset.1 (List.cons_subset.1 h).2
    obtain ⟨hcallee, hargs⟩ := List.append_subset.1 hfront
    refine (agrees_expr hsup around hp callee hcallee).bind fun fn => ?_
    refine (agrees_exprs hsup around hp args hargs).bind fun ts => ?_
    refine (agrees_namedArgs hsup around hp named hnamed).bind fun ns => ?_
    exact .edits ((edits_callType ..).bind fun _ => edits_record ..)
  | .get _ object _, h =>
    (agrees_expr hsup around hp object (List.cons_subset.1 h).2).bind fun _ =>
      .edits ((edits_member ..).bind fun _ => edits_record ..)
  | .set _ object _ value, h => by
    obtain ⟨hobject, hvalue⟩ := List.append_subset.1 (List.cons_subset.1 h).2
    refine (agrees_expr hsup around hp object hobject).bind fun t => ?_
    refine (agrees_expr hsup around hp value hvalue).bind fun v => ?_
    exact .edits ((edits_setAttribute ..).bind fun _ => edits_record ..)
  | .lambda ⟨id, _, _, params, body⟩, h => by
    obtain ⟨hparams, hbody⟩ := List.append_subset.1 (List.cons_subset.1 h).2
    refine (agrees_paramTypes hsup around hp params hparams).bind fun types => ?_
    refine Agrees.bind (.edits (edits_newSignature _)) fun f => .getBind fun s hs => ?_
    -- The body of a function is inside the same method.
    have hinner := agrees_stmts hsup around (hp.child hs) body hbody
    exact (Agrees.functionBody id params f _ hinner).bind fun _ => .edits (edits_record ..)

/-- Expressions in a row are checked alike. -/
theorem agrees_exprs {p : Whereabouts} (hsup : sup.AgreesAt S)
    (around : Option Surroundings) (hp : Surroundings.Hold p around) : ∀ es : List Expr,
    Expr.sitesOf (around.map Surroundings.enclosing) es ⊆ S →
    Agrees p p (exprsIn sup around es) (exprs es)
  | [], _ => .pure _
  | e :: rest, h => by
    obtain ⟨hfirst, hrest⟩ := List.append_subset.1 h
    refine (agrees_expr hsup around hp e hfirst).bind fun t => ?_
    exact (agrees_exprs hsup around hp rest hrest).bind fun _ => .pure _

/-- So are named arguments. -/
theorem agrees_namedArgs {p : Whereabouts} (hsup : sup.AgreesAt S)
    (around : Option Surroundings) (hp : Surroundings.Hold p around) : ∀ args : List NamedArg,
    NamedArg.sitesOf (around.map Surroundings.enclosing) args ⊆ S →
    Agrees p p (namedArgsIn sup around args) (namedArgs args)
  | [], _ => .pure _
  | ⟨_, value⟩ :: rest, h => by
    obtain ⟨hfirst, hrest⟩ := List.append_subset.1 h
    refine (agrees_expr hsup around hp value hfirst).bind fun t => ?_
    exact (agrees_namedArgs hsup around hp rest hrest).bind fun _ => .pure _

/-- So are the types and defaults of parameters. -/
theorem agrees_paramTypes {p : Whereabouts} (hsup : sup.AgreesAt S)
    (around : Option Surroundings) (hp : Surroundings.Hold p around) : ∀ params : List Param,
    Param.sitesOf (around.map Surroundings.enclosing) params ⊆ S →
    Agrees p p (paramTypesIn sup around params) (paramTypes params)
  | [], _ => .pure _
  | ⟨type, _, none, _⟩ :: rest, h =>
    Agrees.bind (.edits (edits_declaredType type)) fun _ =>
      (agrees_paramTypes hsup around hp rest h).bind fun _ => .pure _
  | ⟨type, _, some value, _⟩ :: rest, h => by
    obtain ⟨hvalue, hrest⟩ := List.append_subset.1 h
    refine Agrees.bind (.edits (edits_declaredType type)) fun t => ?_
    refine (agrees_expr hsup around hp value hvalue).bind fun d => ?_
    refine Agrees.bind (.edits (edits_answer _)) fun fits => ?_
    -- The other parameters are checked whether or not the default fits.
    have htypes := (agrees_paramTypes hsup around hp rest hrest).bind fun types =>
      Agrees.pure (t :: types)
    dsimp only
    split
    · exact htypes
    · refine Agrees.bind (.edits (edits_text t)) fun _ => Agrees.bind (.edits (edits_text d)) ?_
      exact fun _ => Agrees.bind (.edits (edits_reject ..)) fun _ => htypes

/-- The defaults of methods are checked in the context that the class lies in. -/
theorem agrees_declareMethods {p : Whereabouts} (hsup : sup.AgreesAt S)
    {outside : Option MethodBody} (hp : MethodBody.Holds p outside) (owner : NodeId)
    (c : ClassType) : ∀ fns : List Lambda, Lambda.sitesOf owner fns ⊆ S →
    Agrees p p (declareMethodsIn sup outside owner c fns) (declareMethods c fns)
  | [], _ => .pure _
  | ⟨_, _, name, params, _⟩ :: rest, h => by
    obtain ⟨hfirst, hrest⟩ := List.append_subset.1 h
    obtain ⟨hparams, -⟩ := List.append_subset.1 (List.cons_subset.1 hfirst).2
    let title := (name.map Token.lexeme).getD "lambda"
    let around := some (Surroundings.defaults owner title c outside)
    refine (agrees_paramTypes hsup around hp params hparams).bind fun types => ?_
    refine Agrees.bind (.edits (edits_newSignature _)) fun f => ?_
    refine (agrees_putMember ..).bind fun _ => Agrees.bind (.edits (edits_record ..)) fun _ => ?_
    exact agrees_declareMethods hsup hp owner c rest hrest

/-- The body of a method is checked in the method, wherever the class is. -/
theorem agrees_methodBody {p : Whereabouts} (hsup : sup.AgreesAt S) (owner : NodeId)
    (c : ClassType) : ∀ fn : Lambda,
    fn.sites (some (fn.enclosing owner true)) (some (fn.enclosing owner false)) ⊆ S →
    Agrees p p (methodBodyIn sup owner c fn) (methodBody c fn)
  | ⟨id, _, name, params, body⟩, h => by
    obtain ⟨-, hbody⟩ := List.append_subset.1 (List.cons_subset.1 h).2
    refine .getBind fun s _ => ?_
    cases (s.body c).members[(name.map Token.lexeme).getD "lambda"]? with
    | none => exact .throw _
    | some f =>
      let title := (name.map Token.lexeme).getD "lambda"
      have hinner := agrees_stmts hsup (some (.body ⟨owner, title, c, f⟩)) rfl body hbody
      exact .functionBody id params f (methodContext c title f) hinner

/-- So are the bodies of the initializers. -/
theorem agrees_initializerBodies {p : Whereabouts} (hsup : sup.AgreesAt S) (owner : NodeId)
    (c : ClassType) : ∀ fns : List Lambda, Lambda.sitesOf owner fns ⊆ S →
    Agrees p p (initializerBodiesIn sup owner c fns) (initializerBodies c fns)
  | [], _ => .pure _
  | fn :: rest, h => by
    obtain ⟨hfirst, hrest⟩ := List.append_subset.1 h
    refine (agrees_initializerBodies hsup owner c rest hrest).bind fun _ => ?_
    split
    · exact agrees_methodBody hsup owner c fn hfirst
    · exact .pure _

/-- So are the bodies of the other methods. -/
theorem agrees_otherBodies {p : Whereabouts} (hsup : sup.AgreesAt S) (owner : NodeId)
    (c : ClassType) : ∀ fns : List Lambda, Lambda.sitesOf owner fns ⊆ S →
    Agrees p p (otherBodiesIn sup owner c fns) (otherBodies c fns)
  | [], _ => .pure _
  | fn :: rest, h => by
    obtain ⟨hfirst, hrest⟩ := List.append_subset.1 h
    have hlater := agrees_otherBodies (p := p) hsup owner c rest hrest
    unfold otherBodiesIn otherBodies
    dsimp only
    split
    · exact (agrees_methodBody hsup owner c fn hfirst).bind fun _ => hlater
    · exact hlater

/-- So is a block. -/
theorem agrees_block {p : Whereabouts} (hsup : sup.AgreesAt S)
    (around : Option Surroundings) (hp : Surroundings.Hold p around) : ∀ b : Block,
    b.sites (around.map Surroundings.enclosing) ⊆ S → Agrees p p (blockIn sup around b) (block b)
  | ⟨_, _, body⟩, h =>
    Agrees.bind (.edits (edits_record ..)) fun _ =>
      (agrees_stmts hsup around hp body (List.cons_subset.1 h).2).inScope _

/-- A statement inside the method that is around it. -/
theorem agrees_stmt {p : Whereabouts} (hsup : sup.AgreesAt S)
    (around : Option Surroundings) (hp : Surroundings.Hold p around) : ∀ s : Stmt,
    s.sites (around.map Surroundings.enclosing) ⊆ S → Agrees p p (stmtIn sup around s) (stmt s)
  | .expr _ value, h =>
    (agrees_expr hsup around hp value (List.cons_subset.1 h).2).bind fun _ =>
      .edits ((edits_record ..).bind fun _ => .pure _)
  | .varDecl _ _ none, _ =>
    (agrees_define ..).bind fun _ => .edits ((edits_record ..).bind fun _ => .pure _)
  | .varDecl _ _ (some value), h =>
    (agrees_expr hsup around hp value (List.cons_subset.1 h).2).bind fun _ =>
      (agrees_define ..).bind fun _ => .edits ((edits_record ..).bind fun _ => .pure _)
  | .function _ ⟨fid, _, _, params, body⟩, h => by
    have hfn := (List.cons_subset.1 h).2
    obtain ⟨hparams, hbody⟩ := List.append_subset.1 (List.cons_subset.1 hfn).2
    refine (agrees_paramTypes hsup around hp params hparams).bind fun types => ?_
    refine Agrees.bind (.edits (edits_newSignature _)) fun f => ?_
    refine (agrees_define ..).bind fun _ => Agrees.bind (.edits (edits_record ..)) fun _ => ?_
    refine .getBind fun s hs => ?_
    exact .functionBody fid params f _ (agrees_stmts hsup around (hp.child hs) body hbody)
  | .classDecl id name supers methods, h => by
    obtain ⟨-, hmethods⟩ := List.append_subset.1 (List.cons_subset.1 h).2
    refine (agrees_superclasses supers).bind fun classes => (agrees_newClass ..).bind fun c => ?_
    refine (agrees_define ..).bind fun _ => Agrees.bind (.edits (edits_record ..)) fun _ => ?_
    -- Inside the class, the surroundings are those of its own methods.
    refine .inScope _ ((agrees_declareMethods hsup hp id c methods hmethods).bind fun _ => ?_)
    refine (agrees_initializerBodies hsup id c methods hmethods).bind fun _ => ?_
    exact agrees_otherBodies hsup id c methods hmethods
  | .block b, h => agrees_block hsup around hp b h
  | .ifElse _ _ condition body none, h | .whileLoop _ _ condition body, h => by
    obtain ⟨hcondition, hbody⟩ := List.append_subset.1 (List.cons_subset.1 h).2
    refine Agrees.bind (.edits (edits_record ..)) fun _ => ?_
    refine (agrees_expr hsup around hp condition hcondition).bind fun _ => ?_
    exact agrees_block hsup around hp body hbody
  | .ifElse _ _ condition body (some otherwise), h => by
    obtain ⟨hfront, hotherwise⟩ := List.append_subset.1 (List.cons_subset.1 h).2
    obtain ⟨hcondition, hbody⟩ := List.append_subset.1 hfront
    refine Agrees.bind (.edits (edits_record ..)) fun _ => ?_
    refine (agrees_expr hsup around hp condition hcondition).bind fun _ => ?_
    refine (agrees_block hsup around hp body hbody).bind fun _ => ?_
    exact agrees_stmt hsup around hp otherwise hotherwise
  | .forIn _ _ _ iterable body, h => by
    obtain ⟨hiterable, hbody⟩ := List.append_subset.1 (List.cons_subset.1 h).2
    refine Agrees.bind (.edits (edits_record ..)) fun _ => ?_
    refine (agrees_expr hsup around hp iterable hiterable).bind fun t => ?_
    refine Agrees.bind (.edits (edits_elementType ..)) fun e => ?_
    exact (agrees_block hsup around hp body hbody).inScope _
  | .ret _ _ none, _ => .edits ((edits_record ..).bind fun _ => edits_noteReturn ..)
  | .ret _ _ (some value), h =>
    (agrees_expr hsup around hp value (List.cons_subset.1 h).2).bind fun _ =>
      .edits ((edits_record ..).bind fun _ => edits_noteReturn ..)

/-- So are statements in a row. -/
theorem agrees_stmts {p : Whereabouts} (hsup : sup.AgreesAt S)
    (around : Option Surroundings) (hp : Surroundings.Hold p around) : ∀ body : List Stmt,
    Stmt.sitesOf (around.map Surroundings.enclosing) body ⊆ S →
    Agrees p p (stmtsIn sup around body) (stmts body)
  | [], _ => .pure _
  | s :: rest, h => by
    obtain ⟨hfirst, hrest⟩ := List.append_subset.1 h
    exact (agrees_stmt hsup around hp s hfirst).bind fun _ => agrees_stmts hsup around hp rest hrest

end

end Walk

end Check

end ClassScript.Typing
