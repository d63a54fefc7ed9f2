import ClassScript.Proofs.Parse.Faithful.Expressions
import ClassScript.Proofs.Parse.Unfinished.Basic

/-!
# Expressions and functions that end early

Each part of the grammar goes on alike on a full and on a cut input (`Continues`), if the parts that
it nests do. Where a part looks at two tokens, and the input is cut between them, the parse of the
cut input is followed to its end.
-/

namespace ClassScript.Parse

open State

/-- Nested parts that go on alike on a full and a cut input. -/
structure Nested.Continues (g g' : Nested) (N n : Nat) : Prop where
  /-- The cut input is not longer. -/
  bound : n ≤ N
  /-- An expression goes on alike. -/
  expression : Parse.Continues False (fun _ => True) N n 1 g.expression g'.expression
  /-- A declaration goes on alike. -/
  declaration : Parse.Continues False (fun _ => True) N n 1 g.declaration g'.declaration
  /-- A name alone comes to an end as an expression. -/
  single : ∀ {c : State} {t last : Token}, c.Single t last → t.kind = .identifier →
    c.rest.length ≤ n → Settles False (g'.expression c)

/-- Shorter inputs. -/
theorem Nested.Continues.within {g g' : Nested} {N n N' n' : Nat} (hg : g.Continues g' N n)
    (hbound : n' ≤ N') (hN : N' ≤ N) (hn : n' ≤ n) : g.Continues g' N' n' :=
  ⟨hbound, hg.expression.within hN hn, hg.declaration.within hN hn,
    fun hc ht hl => hg.single hc ht (Nat.le_trans hl hn)⟩

/-- One token less. -/
theorem Nested.Continues.pred {g g' : Nested} {N n : Nat} (hg : g.Continues g' N n) :
    g.Continues g' (N - 1) (n - 1) :=
  hg.within (Nat.sub_le_sub_right hg.bound 1) (Nat.sub_le N 1) (Nat.sub_le n 1)

variable {g g' : Nested} {N n : Nat}

/-! ### Operands -/

/-- Operators and right operands go alike if the operands do. -/
theorem continues_operands {operand operand' : Parser Expr} (level : Level)
    (h : Continues False (fun _ => True) N n 1 operand operand') {fuel fuel' r r' : Nat}
    (hbound : r' ≤ r) (hr : r ≤ N) (hr' : r' ≤ n) (hfuel : r ≤ fuel) (hfuel' : r' ≤ fuel')
    (left : Expr) :
    Continues False (fun _ => True) r r' 0 (operands operand level fuel left)
      (operands operand' level fuel' left) := by
  refine Continues.loop (x := operands operand level) (y := operands operand' level) ?_ hbound hr
    hr' hfuel hfuel' left
  intro fuel fuel' r r' _ hr hr' ih left
  refine .accept?_bind (by cases level <;> decide) (by decide) (fun op => ?_) (.pure left)
  refine ((h.within (by omega) (by omega)).taking (Nat.zero_le 1)).seq fun right => ?_
  exact Continues.fresh.seq fun id => ih _

/-- All operators and operands of a level behind the first operand. -/
theorem continues_allOperands {operand operand' : Parser Expr} (hbound : n ≤ N) (level : Level)
    (h : Continues False (fun _ => True) N n 1 operand operand') (left : Expr) :
    Continues False (fun _ => True) (N - 1) (n - 1) 0
      (do operands operand level (← remaining) left)
      (do operands operand' level (← remaining) left) :=
  .remaining_bind (Nat.sub_le_sub_right hbound 1) fun _ _ hle hr hr' =>
    continues_operands level h hle (by omega) (by omega) (Nat.le_refl _) (Nat.le_refl _) left

/-- Expressions of a level of operators go alike if the operands do. -/
theorem continues_binary {operand operand' : Parser Expr} (hbound : n ≤ N) (level : Level)
    (h : Continues False (fun _ => True) N n 1 operand operand') :
    Continues False (fun _ => True) N n 1 (binary operand level) (binary operand' level) :=
  h.seq fun left => continues_allOperands hbound level h left

/-! ### Calls -/

/-- Complaints for some of the things that came before. -/
theorem continues_complaints {α : Type} (xs : List α) (c : α → Prop) [DecidablePred c]
    (token : Token) (complaint : Complaint) :
    Continues True (fun _ => True) N n 0
      (forIn xs PUnit.unit fun x _ => do
        if c x then complain token complaint
        pure (ForInStep.yield PUnit.unit))
      (forIn xs PUnit.unit fun x _ => do
        if c x then complain token complaint
        pure (ForInStep.yield PUnit.unit)) := by
  induction xs with
  | nil => exact .pure _
  | cons x rest ih =>
    rw [List.forIn_cons]
    refine Continues.seq (.ite ((Continues.complain _ _).seq fun _ => .pure _) (.pure _))
      fun r => ?_
    cases r with
    | done _ => exact .pure _
    | yield _ => exact ih

/-- A complaint that may be made on the way. -/
theorem continues_complainIf {α : Type} {x y : Parser α} (c : Prop) [Decidable c] (token : Token)
    (complaint : Complaint) (hx : Continues True (fun _ => True) N n 0 x y) :
    Continues True (fun _ => True) N n 0
      (do
        if c then Parse.complain token complaint
        x)
      (do
        if c then Parse.complain token complaint
        y) :=
  .ite ((Continues.complain token complaint).seq fun _ => hx) hx

/-- A named argument goes alike. The input may be cut between the name and the colon. -/
theorem continues_namedArgument (hg : g.Continues g' (N - 1) (n - 1)) (prior : List NamedArg) :
    Continues False (fun t => t.kind = .identifier) N n 1 (namedArgument g prior)
      (namedArgument g' prior) := by
  refine Continues.seq (.advance fun t ht => by rw [ht]; decide) fun name => ?_
  refine Continues.advance_any.seq fun _ => ?_
  refine (continues_complaints prior _ _ _).close fun _ => ?_
  exact hg.expression.seq fun value => .pure _

/-- The arguments of a call go alike. -/
theorem continues_arguments (hg : g.Continues g' N n) {fuel fuel' r r' : Nat} (hbound : r' ≤ r)
    (hr : r ≤ N) (hr' : r' ≤ n) (hfuel : r ≤ fuel) (hfuel' : r' ≤ fuel') (a : Arguments) :
    Continues True (fun _ => True) r r' 1 (arguments g fuel a) (arguments g' fuel' a) := by
  refine Continues.loop (x := arguments g) (y := arguments g') ?_ hbound hr hr' hfuel hfuel' a
  intro fuel fuel' r r' hbound hr hr' ih a
  have hg := hg.within hbound hr hr'
  -- Whatever the next argument is, a comma decides whether another one follows.
  have rest (a : Arguments) : Continues True (fun _ => True) (r - 1) (r' - 1) 0
      (do if ← accept .comma then arguments g fuel a else return a)
      (do if ← accept .comma then arguments g' fuel' a else return a) := by
    refine .accept_bind (by decide) (by decide) ?_ (.pure a)
    exact ((ih a).within (Nat.sub_le _ _) (Nat.sub_le _ _)).taking (Nat.zero_le 1)
  -- A positional argument may turn out to stand behind a named one.
  have behind (arg : Expr) : Continues True (fun _ => True) (r - 1) (r' - 1) 0
      (do
        unless a.named.isEmpty do complain arg.token .positionalAfterNamed
        let a ← pure { a with args := a.args ++ [arg] }
        if ← accept .comma then arguments g fuel a else return a)
      (do
        unless a.named.isEmpty do complain arg.token .positionalAfterNamed
        let a ← pure { a with args := a.args ++ [arg] }
        if ← accept .comma then arguments g' fuel' a else return a) :=
    .ite (.known (rest _)) ((Continues.complain _ _).seq fun _ => .known (rest _))
  have positional := hg.expression.relax.seq behind
  have named (P : Token → Prop) (hP : ∀ t, P t → t.kind = .identifier) :=
    ((continues_namedArgument hg.pred a.named).mono False.elim hP (Nat.le_refl r) (Nat.le_refl r')
      (Nat.le_refl 1)).seq fun b => .known (rest { a with named := a.named ++ [b] })
  refine .check_bind .identifier ?_ ?_
  · refine .peekNext_bind (fun next => .ite (named _ fun _ => And.right) positional.any) ?_
    intro s c s' t u last b _ _ _ hn hsingle hp _ _
    -- The name alone is no named argument, even if a colon followed it in the full input.
    right
    rw [if_neg (by simp [hsingle.mark])]
    exact hg.expression.relax.settles behind hsingle.ended hn trivial
      ((hg.single hsingle hp.2 hn).mono False.elim) .inl
  · refine .peekNext_bind (fun next => positional.any) ?_
    intro s c s' t u last b ha hs hN hn hsingle _ hr herrors
    exact positional.cut ha hs hsingle.ended hN hn trivial hsingle.not_atEnd hr herrors

/-- The rest of a call goes alike. -/
theorem continues_callRest (hg : g.Continues g' N n) (callee : Expr) :
    Continues False (fun _ => True) N n 1 (callRest g callee) (callRest g' callee) := by
  have close (a : Arguments) (N n : Nat) : Continues False (fun _ => True) N n 1
      (do
        let paren ← expect .rightParen .argumentsClose
        return Expr.call (← fresh) callee paren a.args a.named)
      (do
        let paren ← expect .rightParen .argumentsClose
        return Expr.call (← fresh) callee paren a.args a.named) :=
    (Continues.expect (by decide) _).seq fun _ => Continues.fresh.seq fun _ => .pure _
  -- A call without arguments closes at once.
  refine .check_bind .rightParen (.known (close {} N n).any) ?_
  refine (Continues.remaining_bind hg.bound fun r r' hle hr hr' => ?_).any
  exact (continues_arguments hg hle hr hr' (Nat.le_refl r) (Nat.le_refl r') {}).close fun a =>
    close a _ _

/-- Calls and members behind an expression go alike. -/
theorem continues_postfixes (hg : g.Continues g' (N - 1) (n - 1)) {fuel fuel' r r' : Nat}
    (hbound : r' ≤ r) (hr : r ≤ N) (hr' : r' ≤ n) (hfuel : r ≤ fuel) (hfuel' : r' ≤ fuel')
    (e : Expr) :
    Continues False (fun _ => True) r r' 0 (postfixes g fuel e) (postfixes g' fuel' e) := by
  refine Continues.loop (x := postfixes g) (y := postfixes g') ?_ hbound hr hr' hfuel hfuel' e
  intro fuel fuel' r r' hbound hr hr' ih e
  have hg : g.Continues g' (r - 1) (r' - 1) := hg.within (by omega) (by omega) (by omega)
  -- The next token and the last one are alike, also their lines.
  refine .peek_bind fun next => .previous_bind fun last => ?_
  by_cases hnext : (decide (next.kind = .leftParen) && decide (next.line = last.line)) = true
  · rw [if_pos hnext, if_pos hnext]
    have hkind : next.kind = .leftParen := by simp_all
    refine Continues.taking (k := 1) ?_ (Nat.zero_le 1)
    refine (Continues.advance fun t ht => by rw [ht.2, hkind]; decide).seq fun _ => ?_
    refine ((continues_callRest hg e).taking (Nat.zero_le 1)).seq fun e => ih e
  · rw [if_neg hnext, if_neg hnext]
    refine .accept_bind (by decide) (by decide) ?_ (.pure e)
    refine ((Continues.expect (by decide) _).taking (Nat.zero_le 1)).seq fun name => ?_
    exact Continues.fresh.seq fun id => ih _

/-! ### Functions and blocks -/

/-- What is said about a parameter may be due to the cut. -/
theorem continues_parameterChecked (prior : List Param) (p : Param) :
    Continues True (fun _ => True) N n 0 (parameterChecked prior p) (parameterChecked prior p) := by
  -- Both branches end with the comparison of the names.
  have compared : Continues True (fun _ => True) N n 0
      (do
        for other in prior do
          if other.name.lexeme = p.name.lexeme then
            complain p.name (.duplicateParam p.name.lexeme)
        return p)
      (do
        for other in prior do
          if other.name.lexeme = p.name.lexeme then
            complain p.name (.duplicateParam p.name.lexeme)
        return p) :=
    (continues_complaints prior _ _ _).seq fun _ => .pure _
  unfold parameterChecked
  dsimp only
  split
  · exact continues_complainIf _ _ _ (continues_complainIf _ _ _
      (continues_complainIf _ _ _ compared))
  · exact continues_complainIf _ _ _ compared

/-- A parameter behind its name. -/
theorem continues_parameterDefault (hg : g.Continues g' (N - 1) (n - 1)) (prior : List Param)
    (type name : Token) (variadic : Bool) :
    Continues True (fun _ => True) N n 0
      (do
        let defaultValue ← if ← accept .equal then some <$> g.expression else pure none
        parameterChecked prior { type, name, defaultValue, variadic })
      (do
        let defaultValue ← if ← accept .equal then some <$> g'.expression else pure none
        parameterChecked prior { type, name, defaultValue, variadic }) := by
  refine .accept_bind (by decide) (by decide) ?_ (.known (continues_parameterChecked prior _))
  exact (hg.expression.map.relax.taking (Nat.zero_le 1)).seq fun value =>
    continues_parameterChecked prior _

/-- A parameter goes alike behind its type. -/
theorem continues_parameterNamed (hg : g.Continues g' (N - 1) (n - 1)) (prior : List Param)
    (type : Token) (variadic : Bool) :
    Continues True (fun _ => True) N n 1 (parameterNamed g prior type variadic)
      (parameterNamed g' prior type variadic) :=
  (Continues.expect (by decide) _).seq fun name =>
    continues_parameterDefault hg.pred prior type name variadic

/-- A parameter behind its type. -/
theorem continues_parameterTyped (hg : g.Continues g' (N - 1) (n - 1)) (prior : List Param)
    (type : Token) :
    Continues True (fun _ => True) N n 1 (do parameterNamed g prior type (← accept .ellipsis))
      (do parameterNamed g' prior type (← accept .ellipsis)) :=
  .accept_bind (by decide) (Nat.le_refl 1)
    ((continues_parameterNamed hg.pred prior type true).taking (Nat.zero_le 1))
    (continues_parameterNamed hg prior type false)

/-- A name alone is the name of a parameter, even if it is its type in the full input. -/
theorem settles_parameterTyped (hg : g.Continues g' (N - 1) (n - 1)) (prior : List Param)
    (type : Token) {c : State} {t last : Token} (hc : c.Single t last) (ht : t.kind = .identifier)
    (hn : c.rest.length ≤ n) :
    Settles True ((do parameterNamed g' prior type (← accept .ellipsis)) c) := by
  obtain ⟨c', hadvance, hended, hend, herrors, hlength⟩ := hc.advance
  have haccept : accept .ellipsis c = .ok false c :=
    accept_of_ne (by rw [hc.next_eq, ht]; decide)
  have hexpect : expect .identifier .paramName c = .ok t c' :=
    (expect_of_eq _ (by rw [hc.next_eq, ht])).trans hadvance
  rw [bind_of_ok haccept, parameterNamed, bind_of_ok hexpect]
  exact ((continues_parameterDefault hg.pred prior type t false).ends c' hended (by omega) hend
    trivial).settles hend herrors

/-- A parameter goes alike. The input may be cut behind a name that could still be a type. -/
theorem continues_parameter (hg : g.Continues g' (N - 1) (n - 1)) (prior : List Param) :
    Continues True (fun _ => True) N n 1 (parameter g prior) (parameter g' prior) := by
  rw [parameter_eq, parameter_eq]
  have implied := continues_parameterTyped hg prior (.synthetic "Object")
  refine .peekNext_bind (fun next => .check_bind .identifier ?_ (.known implied.any)) ?_
  · refine .ite ?_ (.known implied.any)
    refine (Continues.advance fun t ht => by rw [ht.2]; decide).seq fun type => ?_
    exact (continues_parameterTyped hg.pred prior type).taking (Nat.zero_le 1)
  · intro s c s' t u last p ha hs hN hn hc _ hr herrors
    -- The mark of the end is neither a name nor dots, so the cut input has no type here.
    have hcut : (do
        let typed := (← check .identifier) &&
          (last.kind = Token.Kind.identifier || last.kind = Token.Kind.ellipsis)
        let type ← if typed then advance else pure (.synthetic "Object")
        parameterNamed g' prior type (← accept .ellipsis)) c =
        (do parameterNamed g' prior (.synthetic "Object") (← accept .ellipsis)) c := by
      rw [bind_of_ok (check_apply _), if_neg (by simp [hc.mark])]
      rfl
    rw [hcut]
    by_cases ht : t.kind = .identifier
    · exact .inr (settles_parameterTyped hg prior _ hc ht hn)
    · have hname : s.next.kind ≠ .identifier := by
        rwa [← ha.next_eq hc.not_atEnd, hc.next_eq]
      rw [bind_of_ok (check_apply _), if_neg (by simp [hname])] at hr
      exact implied.cut ha hs hc.ended hN hn trivial hc.not_atEnd hr herrors

/-- The parameters of a function go alike. -/
theorem continues_parameters (hg : g.Continues g' N n) {fuel fuel' r r' : Nat} (hbound : r' ≤ r)
    (hr : r ≤ N) (hr' : r' ≤ n) (hfuel : r ≤ fuel) (hfuel' : r' ≤ fuel') (params : List Param) :
    Continues True (fun _ => True) r r' 1 (parameters g fuel params)
      (parameters g' fuel' params) := by
  refine Continues.loop (x := parameters g) (y := parameters g') ?_ hbound hr hr' hfuel hfuel'
    params
  intro fuel fuel' r r' hbound hr hr' ih params
  refine (continues_parameter (hg.within hbound hr hr').pred params).seq fun p => ?_
  refine .accept_bind (by decide) (by decide) ?_ (.pure _)
  exact ((ih _).within (Nat.sub_le _ _) (Nat.sub_le _ _)).taking (Nat.zero_le 1)

/-- The statements of a block go alike. -/
theorem continues_declarations (hg : g.Continues g' N n) {fuel fuel' r r' : Nat} (hbound : r' ≤ r)
    (hr : r ≤ N) (hr' : r' ≤ n) (hfuel : r ≤ fuel) (hfuel' : r' ≤ fuel') (body : List Stmt) :
    Continues False (fun _ => True) r r' 0 (declarations g fuel body)
      (declarations g' fuel' body) := by
  refine Continues.loop (x := declarations g) (y := declarations g') ?_ hbound hr hr' hfuel hfuel'
    body
  intro fuel fuel' r r' hbound hr hr' ih body
  refine (Continues.check _).seq fun closed => (Continues.check _).seq fun ended => ?_
  refine .ite (.pure body) (Continues.taking (k := 1) ?_ (Nat.zero_le 1))
  exact (hg.within hbound hr hr').declaration.seq fun stmt => ih _

/-- A block goes alike. -/
theorem continues_block (hg : g.Continues g' (N - 1) (n - 1)) :
    Continues False (fun _ => True) N n 1 (block g) (block g') := by
  refine (Continues.expect (by decide) _).seq fun brace => ?_
  refine .remaining_bind hg.bound fun r r' hle hr hr' => ?_
  refine (continues_declarations hg hle hr hr' (Nat.le_refl r) (Nat.le_refl r') []).seq
    fun body => ?_
  refine ((Continues.expect (by decide) _).taking (Nat.zero_le 1)).seq fun _ => ?_
  exact Continues.fresh.seq fun id => .pure _

/-- The parameters and the body of a function go alike. -/
theorem continues_lambdaRest (hg : g.Continues g' (N - 1) (n - 1)) (keyword : Token)
    (name : Option Token) :
    Continues False (fun _ => True) N n 1 (lambdaRest g keyword name)
      (lambdaRest g' keyword name) := by
  -- Behind the parameters the bounds are smaller ones, so this is for any.
  have close {N n : Nat} (hg : g.Continues g' (N - 1) (n - 1)) (params : List Param) :
      Continues False (fun _ => True) N n 1
        (do
          let _ ← expect .rightParen .paramsClose
          let body ← block g
          return (⟨← fresh, keyword, name, params, body.body⟩ : Lambda))
        (do
          let _ ← expect .rightParen .paramsClose
          let body ← block g'
          return (⟨← fresh, keyword, name, params, body.body⟩ : Lambda)) := by
    refine (Continues.expect (by decide) _).seq fun _ => ?_
    refine ((continues_block hg.pred).taking (Nat.zero_le 1)).seq fun body => ?_
    exact Continues.fresh.seq fun id => .pure _
  refine (Continues.expect (by decide) _).seq fun _ => Continues.taking (k := 1) ?_ (Nat.zero_le 1)
  refine .check_bind .rightParen (.known (close hg.pred []).any) ?_
  refine (Continues.remaining_bind hg.bound fun r r' hle hr hr' => ?_).any
  refine (continues_parameters hg hle hr hr' (Nat.le_refl r) (Nat.le_refl r') []).close
    fun params => ?_
  exact close (hg.within hle hr hr').pred.pred params

/-! ### Primary expressions -/

/-- The elements of a list go alike. -/
theorem continues_elements (hg : g.Continues g' N n) {fuel fuel' r r' : Nat} (hbound : r' ≤ r)
    (hr : r ≤ N) (hr' : r' ≤ n) (hfuel : r ≤ fuel) (hfuel' : r' ≤ fuel') (es : List Expr) :
    Continues False (fun _ => True) r r' 1 (elements g fuel es) (elements g' fuel' es) := by
  refine Continues.loop (x := elements g) (y := elements g') ?_ hbound hr hr' hfuel hfuel' es
  intro fuel fuel' r r' hbound hr hr' ih es
  refine (hg.within hbound hr hr').expression.seq fun e => ?_
  refine .accept_bind (by decide) (by decide) ?_ (.pure _)
  exact ((ih _).within (Nat.sub_le _ _) (Nat.sub_le _ _)).taking (Nat.zero_le 1)

/-- The use of a superclass goes alike. The input may be cut in front of the dot or the arguments.
-/
theorem continues_superRest (keyword : Token) :
    Continues False (fun _ => True) N n 0 (superRest keyword) (superRest keyword) := by
  refine .accept_bind (by decide) (by decide) ?_ (.check_bind .leftParen ?_ ?_)
  · refine ((Continues.expect (by decide) _).taking (Nat.zero_le 1)).seq fun method => ?_
    exact Continues.fresh.seq fun id => .pure _
  · exact Continues.fresh.seq fun id => .pure _
  · exact .peek_bind fun t => .fail t _ fun _ ht => ht.2

/-- Only a token that does not mark the end stands for a constant. -/
theorem constant?_eof {t : Token} (ht : t.kind = .eof) : constant? t = none := by
  rw [constant?, ht]

/-- The smallest expressions go alike. -/
theorem continues_primary (hg : g.Continues g' (N - 1) (n - 1)) :
    Continues False (fun _ => True) N n 1 (primary g) (primary g') := by
  refine .peek_bind fun t => ?_
  -- Any operand begins with a token that does not mark the end.
  have advanced {x y : Parser Expr} (ht : t.kind ≠ .eof)
      (hx : Continues False (fun _ => True) (N - 1) (n - 1) 0 x y) :
      Continues False (fun t' => True ∧ t' = t) N n 1 (do let _ ← advance; x)
        (do let _ ← advance; y) :=
    (Continues.advance (P := fun t' => True ∧ t' = t) fun _ ht' => ht'.2 ▸ ht).seq fun _ => hx
  -- The leaves take that one token only.
  have leaf {f : NodeId → Expr} : Continues False (fun _ => True) (N - 1) (n - 1) 0
      (do return f (← fresh)) (do return f (← fresh)) :=
    Continues.fresh.seq fun id => .pure _
  split
  · next value hvalue =>
    refine advanced (fun ht => ?_) leaf
    rw [constant?_eof ht] at hvalue
    cases hvalue
  · split
    · next hkind => exact advanced (by rw [hkind]; decide) leaf
    · next hkind => exact advanced (by rw [hkind]; decide) leaf
    · next hkind => exact advanced (by rw [hkind]; decide) (continues_superRest t)
    · next hkind =>
      refine advanced (by rw [hkind]; decide) ?_
      exact ((continues_lambdaRest hg.pred t none).taking (Nat.zero_le 1)).seq fun fn => .pure _
    · next hkind =>
      refine advanced (by rw [hkind]; decide) ?_
      refine (hg.expression.taking (Nat.zero_le 1)).seq fun inner => ?_
      refine ((Continues.expect (by decide) _).taking (Nat.zero_le 1)).seq fun _ => ?_
      exact Continues.fresh.seq fun id => .pure _
    · next hkind =>
      refine advanced (by rw [hkind]; decide) ?_
      have close (N n : Nat) (es : List Expr) : Continues False (fun _ => True) N n 0
          (do
            let _ ← expect .rightBracket .listClose
            return Expr.list (← fresh) t es)
          (do
            let _ ← expect .rightBracket .listClose
            return Expr.list (← fresh) t es) :=
        ((Continues.expect (by decide) _).taking (Nat.zero_le 1)).seq fun _ =>
          Continues.fresh.seq fun id => .pure _
      refine (Continues.check _).seq fun closed => .ite (.known (close _ _ [])) ?_
      refine .remaining_bind hg.bound fun r r' hle hr hr' => ?_
      refine ((continues_elements hg hle hr hr' (Nat.le_refl r) (Nat.le_refl r') []).taking
        (Nat.zero_le 1)).seq fun es => close _ _ es
    · exact .fail t _ fun _ ht => ht.2

/-- What stands behind a primary expression. -/
theorem continues_allPostfixes (hg : g.Continues g' N n) (e : Expr) :
    Continues False (fun _ => True) N n 0 (do postfixes g (← remaining) e)
      (do postfixes g' (← remaining) e) :=
  .remaining_bind hg.bound fun _ _ hle hr hr' =>
    continues_postfixes hg.pred hle hr hr' (Nat.le_refl _) (Nat.le_refl _) e

/-- Expressions with calls and members behind them go alike. -/
theorem continues_call (hg : g.Continues g' (N - 1) (n - 1)) :
    Continues False (fun _ => True) N n 1 (call g) (call g') :=
  (continues_primary hg).seq fun e => continues_allPostfixes hg e

/-! ### Operators -/

/-- Operators in front of an operand go alike. -/
theorem continues_unary (hg : g.Continues g' (N - 1) (n - 1)) {fuel fuel' r r' : Nat}
    (hbound : r' ≤ r) (hr : r ≤ N) (hr' : r' ≤ n) (hfuel : r ≤ fuel) (hfuel' : r' ≤ fuel') :
    Continues False (fun _ => True) r r' 1 (unary g fuel) (unary g' fuel') := by
  refine Continues.loop (x := fun fuel (_ : Unit) => unary g fuel)
    (y := fun fuel _ => unary g' fuel) ?_ hbound hr hr' hfuel hfuel' ()
  intro fuel fuel' r r' hbound hr hr' ih _
  have hg : g.Continues g' (r - 1) (r' - 1) := hg.within (by omega) (by omega) (by omega)
  refine .accept?_bind (by decide) (by decide) (fun op => ?_) (continues_call hg)
  exact ((ih ()).taking (Nat.zero_le 1)).seq fun right => Continues.fresh.seq fun id => .pure _

/-- Expressions with operators of all levels go alike. -/
theorem continues_operation (hbound : n ≤ N) (hg : g.Continues g' (N - 1) (n - 1)) :
    Continues False (fun _ => True) N n 1 (operation g) (operation g') := by
  have levels (levels : List Level) : ∀ {x y : Parser Expr},
      Continues False (fun _ => True) N n 1 x y →
      Continues False (fun _ => True) N n 1 (levels.foldl binary x) (levels.foldl binary y) := by
    induction levels with
    | nil => exact id
    | cons level rest ih => exact fun h => ih (continues_binary hbound level h)
  refine levels _ (.remaining_bind hbound fun r r' hle hr hr' => ?_)
  exact continues_unary hg hle hr hr' (Nat.le_refl r) (Nat.le_refl r')

/-- Whether a target can be given a value does not depend on the value. -/
theorem assignment?_cases (target : Expr) :
    (∀ id value, assignment? id value target = none) ∨
      ∀ id value, ∃ e, assignment? id value target = some e := by
  cases target with
  | var use => exact .inr fun id value => ⟨_, rfl⟩
  | get id object name => exact .inr fun id value => ⟨_, rfl⟩
  | _ => exact .inl fun id value => rfl

/-- A value for a target. If the target cannot have one, then the full input has an error. -/
theorem continues_assigned {x y : Parser Expr} (h : Continues False (fun _ => True) N n 1 x y)
    (equals : Token) (target : Expr) :
    Continues False (fun _ => True) N n 1
      (do
        let value ← x
        match assignment? (← fresh) value target with
        | some e => return e
        | none =>
          complain equals .invalidTarget
          return target)
      (do
        let value ← y
        match assignment? (← fresh) value target with
        | some e => return e
        | none =>
          complain equals .invalidTarget
          return target) := by
  rcases assignment?_cases target with hnone | hsome
  · simp only [hnone]
    -- The full input has an error then, so nothing is said about the cut one.
    refine Continues.doomed (h.relax.seq fun value => Continues.fresh.seq fun id =>
      (Continues.complain _ _).seq fun _ => .pure _) Nat.one_pos ?_
    intro s s' e hx
    obtain ⟨_, _, -, hx⟩ := bind_eq_ok hx
    obtain ⟨_, _, -, hx⟩ := bind_eq_ok hx
    obtain ⟨_, _, hcomplain, hx⟩ := bind_eq_ok hx
    cases hcomplain
    cases hx
    exact List.cons_ne_nil _ _
  · refine h.seq fun value => Continues.fresh.seq fun id => ?_
    obtain ⟨e, he⟩ := hsome id value
    rw [he]
    exact .pure e

/-- An assignment behind its target, which may be none. -/
theorem continues_target {x y : Parser Expr}
    (h : Continues False (fun _ => True) (N - 1) (n - 1) 1 x y) (target : Expr) :
    Continues False (fun _ => True) N n 0
      (do
        match ← accept? [.equal] with
        | none => return target
        | some equals =>
          let value ← x
          match assignment? (← fresh) value target with
          | some e => return e
          | none =>
            complain equals .invalidTarget
            return target)
      (do
        match ← accept? [.equal] with
        | none => return target
        | some equals =>
          let value ← y
          match assignment? (← fresh) value target with
          | some e => return e
          | none =>
            complain equals .invalidTarget
            return target) :=
  .accept?_bind (by decide) (by decide)
    (fun equals => (continues_assigned h equals target).taking (Nat.zero_le 1)) (.pure target)

/-- Assignments go alike. -/
theorem continues_assignment (hg : g.Continues g' (N - 1) (n - 1)) {fuel fuel' r r' : Nat}
    (hbound : r' ≤ r) (hr : r ≤ N) (hr' : r' ≤ n) (hfuel : r ≤ fuel) (hfuel' : r' ≤ fuel') :
    Continues False (fun _ => True) r r' 1 (assignment g fuel) (assignment g' fuel') := by
  refine Continues.loop (x := fun fuel (_ : Unit) => assignment g fuel)
    (y := fun fuel _ => assignment g' fuel) ?_ hbound hr hr' hfuel hfuel' ()
  intro fuel fuel' r r' hbound hr hr' ih _
  have hg : g.Continues g' (r - 1) (r' - 1) := hg.within (by omega) (by omega) (by omega)
  exact (continues_operation hbound hg).seq fun target =>
    continues_target ((ih ()).within (Nat.sub_le _ _) (Nat.sub_le _ _)) target

/-- Expressions go alike. -/
theorem continues_expression (hbound : n ≤ N) (hg : g.Continues g' (N - 1) (n - 1)) :
    Continues False (fun _ => True) N n 1 (expression g) (expression g') :=
  .remaining_bind hbound fun _ _ hle hr hr' =>
    continues_assignment hg hle hr hr' (Nat.le_refl _) (Nat.le_refl _)

/-! ### A single token -/

/-- A name alone is an expression, and a function that ends behind its keyword breaks off. -/
theorem settles_primary (hg : g.Continues g' (N - 1) (n - 1)) {c : State} {t last : Token}
    (hc : c.Single t last) (ht : t.kind = .identifier ∨ t.kind = .funWord)
    (hn : c.rest.length ≤ n) : Settles False (primary g' c) := by
  obtain ⟨c', hadvance, hended, hend, herrors, hlength⟩ := hc.advance
  have hpeek : peek c = .ok t c := congrArg (EStateM.Result.ok · c) hc.next_eq
  have hconstant : constant? t = none := by rcases ht with ht | ht <;> rw [constant?, ht]
  rw [primary, bind_of_ok hpeek, hconstant]
  -- A name is the expression; behind the keyword a parenthesis is missing.
  rcases ht with ht | ht
  · simp only [ht]
    rw [bind_of_ok hadvance]
    exact ⟨hend, .inl herrors⟩
  · simp only [ht]
    rw [bind_of_ok hadvance]
    exact Halts.settles (((continues_lambdaRest hg.pred t none).seq fun fn => .pure _).ends c'
      hended (by omega) hend trivial) hend herrors

/-- A single name or the word `fun` is an operand, or there is an error at the end. -/
theorem settles_unary (hg : g.Continues g' (N - 1) (n - 1)) {c : State} {t last : Token}
    (hc : c.Single t last) (ht : t.kind = .identifier ∨ t.kind = .funWord)
    (hn : c.rest.length ≤ n) (fuel : Nat) : Settles False (unary g' fuel c) := by
  have hcall : Settles False (call g' c) :=
    (continues_primary hg).settles (fun e => continues_allPostfixes hg e) hc.ended hn trivial
      (settles_primary hg hc ht hn) .inl
  cases fuel with
  | zero => exact hcall
  | succ fuel =>
    have hnone : accept? [.bang, .minus] c = .ok none c :=
      accept?_of_notMem (by rw [hc.next_eq]; rcases ht with ht | ht <;> rw [ht] <;> decide)
    rw [unary, bind_of_ok hnone]
    exact hcall

/-- So it is with all levels of operators. -/
theorem settles_operation (hbound : n ≤ N) (hg : g.Continues g' (N - 1) (n - 1)) {c : State}
    {t last : Token} (hc : c.Single t last) (ht : t.kind = .identifier ∨ t.kind = .funWord)
    (hn : c.rest.length ≤ n) : Settles False (operation g' c) := by
  -- Level by level outward. Where the operand breaks off, the operators break off with it.
  have levels (levels : List Level) : ∀ {x y : Parser Expr},
      Continues False (fun _ => True) N n 1 x y → Settles False (y c) →
      Settles False (levels.foldl binary y c) := by
    induction levels with
    | nil => exact fun _ h => h
    | cons level rest ih =>
      exact fun h hy => ih (continues_binary hbound level h)
        (h.settles (fun left => continues_allOperands hbound level h left) hc.ended hn trivial hy
          .inl)
  refine levels _ (.remaining_bind hbound fun r r' hle hr hr' =>
    continues_unary hg hle hr hr' (Nat.le_refl r) (Nat.le_refl r')) ?_
  exact settles_unary hg hc ht hn c.rest.length

/-- A single name or keyword of a function brings the cut input to its end. -/
theorem settles_expression (hbound : n ≤ N) (hg : g.Continues g' (N - 1) (n - 1)) {c : State}
    {t last : Token} (hc : c.Single t last) (ht : t.kind = .identifier ∨ t.kind = .funWord)
    (hn : c.rest.length ≤ n) : Settles False (expression g' c) := by
  have hlength : c.rest.length = 2 := by rw [hc.rest]; rfl
  have hremaining : remaining c = .ok 2 c := congrArg (EStateM.Result.ok · c) hlength
  rw [expression, bind_of_ok hremaining]
  -- With these two tokens as bounds there is no room for a value behind the target.
  have hg : g.Continues g' 1 1 := hg.within (Nat.le_refl 1) (by omega) (by omega)
  exact (continues_operation (N := 2) (Nat.le_refl 2) hg).settles
    (fun target => continues_target (x := assignment g 1) .zero target) hc.ended (by omega) trivial
    (settles_operation (Nat.le_refl 2) hg hc ht (by omega)) .inl

end ClassScript.Parse
