import ClassScript.Proofs.Parse.Faithful.Expressions
import ClassScript.Proofs.Parse.Progress.Loops
import ClassScript.Proofs.Parse.Progress.Supers

/-!
# Expressions and functions take tokens

Each part of the grammar takes at least one token and stays within the bounds. A nested part starts
behind a token that was taken already, so that there are fewer tokens left for it than for the part
it is nested in: `Nested.Steady` bounds how many levels can be used up by the number of tokens.
-/

namespace ClassScript.Parse

variable {g : Nested} {n : Nat} {ts rest : List Token}

/-- Nested parts take tokens. They use up a bound on nesting only if there are as many tokens. -/
structure Nested.Steady (ts : List Token) (g : Nested) (n : Nat) : Prop where
  /-- An expression. -/
  expression : ∀ rest, Runs ts (n ≤ rest.length) rest g.expression fun rest' e =>
    rest'.length < rest.length ∧ Called ts (e.nodes everywhere)
  /-- A declaration. -/
  declaration : ∀ rest, Runs ts (n ≤ rest.length) rest g.declaration fun rest' s =>
    rest'.length < rest.length ∧ Called ts (s.nodes everywhere)

/-! ### Operators -/

/-- An operator's expression adds a node that does not name the superclasses. -/
theorem Called.node (level : Level) {left right : Expr} (hleft : Called ts (left.nodes everywhere))
    (hright : Called ts (right.nodes everywhere)) (id : NodeId) (op : Token) :
    Called ts ((level.node id left op right).nodes everywhere) := by
  cases level <;> exact (hleft.append hright).cons trivial

section Operands

variable {operand : Parser Expr} (h : ∀ rest, Runs ts (n < rest.length) rest operand fun rest' e =>
  rest'.length < rest.length ∧ Called ts (e.nodes everywhere))

include h

/-- A loop over operators stays within the bounds. -/
theorem runs_operands (level : Level) (fuel : Nat) (rest : List Token) {left : Expr}
    (hleft : Called ts (left.nodes everywhere)) :
    Runs ts (n < rest.length) rest (operands operand level fuel left) fun _ e =>
      Called ts (e.nodes everywhere) := by
  induction fuel generalizing rest left with
  | zero => exact .pure hleft
  | succ fuel ih =>
    refine .accept? level.eof_not_mem_operators (fun _ => .pure hleft) fun op rest₁ _ h₁ _ => ?_
    refine ((h rest₁).weaken fun hn => by omega).bind
      fun rest₂ right h₂ hright => .fresh fun id => ?_
    exact (ih rest₂ (hleft.node level hright.2 id op)).weaken fun hn => by omega

/-- An expression of a level of operators takes a token. -/
theorem runs_binary (level : Level) (rest : List Token) :
    Runs ts (n < rest.length) rest (binary operand level) fun rest' e =>
      rest'.length < rest.length ∧ Called ts (e.nodes everywhere) := by
  refine (h rest).bind fun rest₁ left h₁ hleft => .remaining ?_
  exact ((runs_operands h level _ rest₁ hleft.2).weaken fun hn => by omega).mono
    fun rest₂ e h₂ he => ⟨by omega, he⟩

end Operands

/-! ### Calls and members -/

/-- Nothing among the arguments of a call leaves the word `super` uncalled. -/
def CalledArguments (ts : List Token) (a : Arguments) : Prop :=
  Called ts (Expr.nodesOf everywhere a.args) ∧ Called ts (NamedArg.nodesOf everywhere a.named)

/-- A named argument takes a token. -/
theorem runs_namedArgument (h : g.Steady ts n) (prior : List NamedArg) {name colon : Token}
    (hname : name.kind ≠ .eof) (hcolon : colon.kind ≠ .eof) :
    Runs ts (n ≤ rest.length) (name :: colon :: rest) (namedArgument g prior) fun rest' arg =>
      rest'.length < rest.length ∧ Called ts (arg.value.nodes everywhere) := by
  refine .advance hname (.advance hcolon (.complaints prior _ name _ ?_))
  exact (h.expression rest).bind fun rest' value _ hvalue => .pure hvalue

/-- Every further argument takes a token. -/
theorem runs_argumentRound (h : g.Steady ts n) (rest : List Token) (a : Arguments) :
    Runs ts (n ≤ rest.length) rest (argumentRound g a) fun rest' a' =>
      rest'.length < rest.length ∧ (CalledArguments ts a → CalledArguments ts a') := by
  refine .check (.peekNext ?_)
  split
  · -- A name with a colon behind it: a named argument takes both.
    next hnext =>
    obtain ⟨hname, hcolon⟩ := Bool.and_eq_true_iff.1 hnext
    obtain ⟨name, colon, rest, rfl⟩ :=
      exists_behind (of_decide_eq_true hname) (of_decide_eq_true hcolon) (by decide) (by decide)
    have hname' : name.kind = .identifier := of_decide_eq_true hname
    have hcolon' : colon.kind = .colon := of_decide_eq_true hcolon
    simp only [List.length_cons]
    refine ((runs_namedArgument h a.named (by rw [hname']; decide)
      (by rw [hcolon']; decide)).weaken fun hn => by omega).bind fun rest' arg _ harg => .pure ?_
    refine ⟨by omega, fun ha => ⟨ha.1, ?_⟩⟩
    obtain ⟨_, value⟩ := arg
    rw [NamedArg.nodesOf_append]
    exact ha.2.append (harg.2.append .nil)
  · -- Else an expression, which is complained of behind named arguments but kept.
    refine (h.expression rest).bind fun rest' arg _ harg => ?_
    have hadded : rest'.length < rest.length ∧ (CalledArguments ts a →
        CalledArguments ts { a with args := a.args ++ [arg] }) := by
      refine ⟨harg.1, fun ha => ⟨?_, ha.2⟩⟩
      rw [Expr.nodesOf_append]
      exact ha.1.append (harg.2.append .nil)
    split
    · exact .pure hadded
    · exact .complain _ _ (.pure hadded)

/-- The rest of a call stays within the bounds and makes a call. -/
theorem runs_callRest (h : g.Steady ts n) (callee : Expr) :
    Runs ts (n ≤ rest.length) rest (callRest g callee) fun _ e => ∃ id close args named,
      e = .call id callee close args named ∧ CalledArguments ts ⟨args, named⟩ := by
  -- Both ways in, with arguments and without, close the call alike.
  have close : ∀ rest' (a : Arguments), CalledArguments ts a →
      Runs ts (n ≤ rest.length) rest'
        (do
          let paren ← expect .rightParen .argumentsClose
          return Expr.call (← fresh) callee paren a.args a.named)
        fun _ e => ∃ id close args named,
          e = .call id callee close args named ∧ CalledArguments ts ⟨args, named⟩ := by
    intro rest' a ha
    exact .expect (by decide) fun paren _ _ _ _ => .fresh fun id =>
      .pure ⟨id, paren, a.args, a.named, rfl, ha⟩
  refine .check ?_
  dsimp only
  split
  · exact .known (close rest {} ⟨.nil, .nil⟩)
  · rw [arguments_eq]
    refine .remaining (((rowLoop_steady (runs_argumentRound h)).runs _ rest {}).bind
      fun rest' a _ ha => close rest' a (ha ⟨.nil, .nil⟩))

/-- Only one token stands in front of the tokens that are left. -/
theorem front_unique {t u : Token} (h : t :: rest <:+ ts) (h' : u :: rest <:+ ts) : t = u := by
  have heq := (List.suffix_of_suffix_length_le h h' (Nat.le_refl _)).eq_of_length rfl
  exact (List.cons.inj heq).1

/-- An expression in front of what may call it. Only behind the word `super` without a name it is
known what follows. -/
def Callee (ts rest : List Token) (e : Expr) : Prop :=
  (Called ts (e.nodes everywhere) ∧ ∀ id word, e ≠ .super id word none) ∨
    ∃ id word paren after, e = .super id word none ∧ rest = paren :: after ∧
      word :: rest <:+ ts ∧ paren.kind = .leftParen

namespace Callee

variable {e callee : Expr}

/-- A call of an expression by a parenthesis on the line of the token in front of it. -/
theorem call {last paren : Token} (h : Callee ts (paren :: rest) callee)
    (hlast : last :: paren :: rest <:+ ts) (hline : paren.line = last.line)
    {args : List Expr} {named : List NamedArg} (hargs : CalledArguments ts ⟨args, named⟩)
    (id : NodeId) (close : Token) :
    Called ts ((Expr.call id callee close args named).nodes everywhere) := by
  rcases h with ⟨hcallee, hplain⟩ | ⟨_, word, paren', after, rfl, hrest, hword, hparen⟩
  · exact ((hcallee.append hargs.1).append hargs.2).cons (Node.plain_call hplain _ _ _ _)
  · cases hrest
    obtain rfl := front_unique hword hlast
    exact .call ⟨rest, hword, hparen⟩ hline (hargs.1.append hargs.2)

/-- An expression that nothing calls. -/
theorem called {last : Token} (h : Callee ts rest e) (hlast : last :: rest <:+ ts)
    (hline : (rest.headD .absent).kind = .leftParen → (rest.headD .absent).line ≠ last.line) :
    Called ts (e.nodes everywhere) := by
  rcases h with ⟨he, -⟩ | ⟨_, word, paren, after, rfl, rfl, hword, hparen⟩
  · exact he
  · obtain rfl := front_unique hword hlast
    exact .alone ⟨after, hword, hparen⟩ (hline hparen)

/-- A member is asked for of an expression that needs no arguments. -/
theorem of_dot (h : Callee ts rest e) (hdot : (rest.headD .absent).kind = .dot) :
    Called ts (e.nodes everywhere) := by
  rcases h with ⟨he, -⟩ | ⟨_, word, paren, after, rfl, rfl, hword, hparen⟩
  · exact he
  · rw [show paren.kind = .dot from hdot] at hparen
    cases hparen

end Callee

/-- Calls and members behind an expression stay within the bounds, and call the word `super` if a
parenthesis is there. -/
theorem runs_postfixes (h : g.Steady ts n) (fuel : Nat) (rest : List Token) (e : Expr)
    (hfuel : rest.length ≤ fuel) (hlt : rest.length < ts.length) (he : Callee ts rest e) :
    Runs ts (n ≤ rest.length) rest (postfixes g fuel e) fun _ e' =>
      Called ts (e'.nodes everywhere) := by
  induction fuel generalizing rest e with
  | zero =>
    -- There is always a token left, so the bound is never used up.
    exact .on fun hne => absurd (List.length_eq_zero_iff.1 (Nat.le_zero.1 hfuel)) hne
  | succ fuel ih =>
    refine .peek (.previous hlt fun last hlast => ?_)
    split
    · next hopen =>
      obtain ⟨hkind, hline⟩ := Bool.and_eq_true_iff.1 hopen
      refine .advance_of_head (of_decide_eq_true hkind) (by decide) fun paren rest₁ hrest h₁ _ => ?_
      subst hrest
      refine ((runs_callRest h e).weaken fun hn => by omega).bind fun rest₂ call h₂ hcall => ?_
      obtain ⟨id, close, args, named, rfl, hargs⟩ := hcall
      refine (ih rest₂ _ (by omega) (by omega) (.inl ⟨?_, fun _ _ h => by cases h⟩)).weaken
        fun hn => by omega
      exact he.call hlast (of_decide_eq_true hline) hargs id close
    · next hopen =>
      refine .accept (by decide) (fun _ => .pure ?_) fun dot rest₁ hrest h₁ hdot => ?_
      · refine he.called hlast fun hkind hline => hopen ?_
        exact Bool.and_eq_true_iff.2 ⟨decide_eq_true hkind, decide_eq_true hline⟩
      · have hobject := he.of_dot (by rw [hrest]; exact hdot)
        refine .expect (by decide) fun name rest₂ _ h₂ _ => .fresh fun id => ?_
        refine (ih rest₂ _ (by omega) (by omega) (.inl ⟨?_, fun _ _ h => by cases h⟩)).weaken
          fun hn => by omega
        exact hobject.cons trivial

/-! ### Functions and blocks -/

/-- The checks of a parameter take nothing and change nothing. -/
theorem runs_parameterChecked (deep : Prop) (prior : List Param) (p : Param) :
    Runs ts deep rest (parameterChecked prior p) fun _ p' => p' = p := by
  unfold parameterChecked
  dsimp only
  split
  · exact .complainIf _ _ _ (.complainIf _ _ _ (.complainIf _ _ _
      (.complaints prior _ _ _ (.pure rfl))))
  · exact .complainIf _ _ _ (.complaints prior _ _ _ (.pure rfl))

/-- An expression that is there but may have been left out. -/
theorem runs_some {x : Parser Expr} {deep : Prop}
    (h : Runs ts deep rest x fun rest' e =>
      rest'.length < rest.length ∧ Called ts (e.nodes everywhere)) :
    Runs ts deep rest (some <$> x) fun _ v => ∃ e, v = some e ∧ Called ts (e.nodes everywhere) :=
  h.map fun _ e he => ⟨e, rfl, he.2⟩

/-- A parameter takes a token behind its type. -/
theorem runs_parameterNamed (h : g.Steady ts n) (prior : List Param) (type : Token)
    (variadic : Bool) :
    Runs ts (n ≤ rest.length) rest (parameterNamed g prior type variadic) fun rest' p =>
      rest'.length < rest.length ∧ Called ts (Param.nodesOf everywhere [p]) := by
  -- The name is the token that is taken; a default is read behind it with the fuel that is left.
  refine .expect (by decide) fun name rest₁ _ h₁ _ => .accept (by decide) (fun _ => .known ?_) ?_
  · refine (runs_parameterChecked _ prior _).mono fun rest₂ p h₂ hp => ?_
    subst hp
    exact ⟨by omega, .nil⟩
  · intro equal rest₂ _ h₂ _
    refine (runs_some ((h.expression rest₂).weaken fun hn => by omega)).bind
      fun rest₃ v h₃ hv => ?_
    obtain ⟨e, rfl, he⟩ := hv
    refine (runs_parameterChecked _ prior _).mono fun rest₄ p h₄ hp => ?_
    subst hp
    exact ⟨by omega, he.append .nil⟩

/-- Every further parameter takes a token. -/
theorem runs_parameterRound (h : g.Steady ts n) (rest : List Token) (params : List Param) :
    Runs ts (n ≤ rest.length) rest (parameterRound g params) fun rest' params' =>
      rest'.length < rest.length ∧ (Called ts (Param.nodesOf everywhere params) →
        Called ts (Param.nodesOf everywhere params')) := by
  -- From the dots on; what is in front of them may have taken a token or not.
  have dotted : ∀ rest₁ (type : Token), rest₁.length ≤ rest.length →
      Runs ts (n ≤ rest.length) rest₁
        (do parameterNamed g params type (← accept .ellipsis)) fun rest' p =>
          rest'.length < rest.length ∧ Called ts (Param.nodesOf everywhere [p]) := by
    intro rest₁ type h₁
    refine .accept (by decide) (fun _ => ?_) fun dots rest₂ _ h₂ _ => ?_
    · refine ((runs_parameterNamed h params type false).weaken fun hn => by omega).mono
        fun rest₃ p h₃ hp => ⟨by omega, hp.2⟩
    · refine ((runs_parameterNamed h params type true).weaken fun hn => by omega).mono
        fun rest₃ p h₃ hp => ⟨by omega, hp.2⟩
  have hparameter : Runs ts (n ≤ rest.length) rest (parameter g params) fun rest' p =>
      rest'.length < rest.length ∧ Called ts (Param.nodesOf everywhere [p]) := by
    rw [parameter_eq]
    refine .peekNext (.check ?_)
    dsimp only
    split
    · next htyped =>
      have hkind := of_decide_eq_true (Bool.and_eq_true_iff.1 htyped).1
      exact .advance_of_head hkind (by decide) fun type rest₁ _ h₁ _ =>
        dotted rest₁ type (Nat.le_of_lt h₁)
    · exact .known (dotted rest _ (Nat.le_refl _))
  refine hparameter.bind fun rest' p _ hp => .pure ⟨hp.1, fun hparams => ?_⟩
  rw [Param.nodesOf_append]
  exact hparams.append hp.2

/-- Every further statement of a block takes a token. -/
theorem runs_statementRound (h : g.Steady ts n) (rest : List Token) (body : List Stmt) :
    Runs ts (n ≤ rest.length) rest (statementRound g body) fun rest' body' =>
      rest'.length < rest.length ∧ (Called ts (Stmt.nodesOf everywhere body) →
        Called ts (Stmt.nodesOf everywhere body')) := by
  refine (h.declaration rest).bind fun rest' s _ hs => .pure ⟨hs.1, fun hbody => ?_⟩
  rw [Stmt.nodesOf_append]
  exact hbody.append (hs.2.append .nil)

/-- A block takes a token. -/
theorem runs_block (h : g.Steady ts n) (rest : List Token) :
    Runs ts (n < rest.length) rest (block g) fun rest' b =>
      rest'.length < rest.length ∧ Called ts (Stmt.nodesOf everywhere b.body) := by
  refine .expect (by decide) fun brace rest₁ _ h₁ _ => ?_
  rw [declarations_eq]
  refine .remaining ((((bracesLoop_steady (runs_statementRound h)).runs _ rest₁ []).weaken
    fun hn => by omega).bind fun rest₂ body h₂ hbody => ?_)
  exact .expect (by decide) fun _ rest₃ _ h₃ _ => .fresh fun id => .pure ⟨by omega, hbody .nil⟩

/-- The node of a block adds nothing that names the superclasses. -/
theorem Called.block (b : Block) (h : Called ts (Stmt.nodesOf everywhere b.body)) :
    Called ts (b.nodes everywhere) := by
  obtain ⟨id, brace, body⟩ := b
  exact h.cons trivial

/-- The parameters and the body of a function take a token. -/
theorem runs_lambdaRest (h : g.Steady ts n) (keyword : Token) (name : Option Token)
    (rest : List Token) :
    Runs ts (n < rest.length) rest (lambdaRest g keyword name) fun rest' fn =>
      rest'.length < rest.length ∧ Called ts (fn.nodes everywhere) := by
  refine .expect (by decide) fun _ rest₁ _ h₁ _ => ?_
  -- The parenthesis was taken, so the bound of the levels below holds for what is left.
  have finish : ∀ rest₂ params, rest₂.length ≤ rest₁.length →
      Called ts (Param.nodesOf everywhere params) →
      Runs ts (n < rest.length) rest₂
        (do
          let _ ← expect .rightParen .paramsClose
          let body ← block g
          return (⟨← fresh, keyword, name, params, body.body⟩ : Lambda))
        fun rest' fn => rest'.length < rest.length ∧ Called ts (fn.nodes everywhere) := by
    intro rest₂ params h₂ hparams
    refine .expect (by decide) fun _ rest₃ _ h₃ _ => ?_
    refine ((runs_block h rest₃).weaken fun hn => by omega).bind fun rest₄ body h₄ hbody =>
      .fresh fun id => .pure ⟨by omega, (hparams.append hbody.2).cons trivial⟩
  refine .check ?_
  dsimp only
  split
  · exact .known (finish rest₁ [] (Nat.le_refl _) .nil)
  · rw [parameters_eq]
    refine .remaining ((((rowLoop_steady (runs_parameterRound h)).runs _ rest₁ []).weaken
      fun hn => by omega).bind fun rest₂ params h₂ hparams => finish rest₂ params h₂ (hparams .nil))

/-! ### Expressions without operators between them -/

/-- Every further element of a list takes a token. -/
theorem runs_elementRound (h : g.Steady ts n) (rest : List Token) (es : List Expr) :
    Runs ts (n ≤ rest.length) rest (elementRound g es) fun rest' es' =>
      rest'.length < rest.length ∧ (Called ts (Expr.nodesOf everywhere es) →
        Called ts (Expr.nodesOf everywhere es')) := by
  refine (h.expression rest).bind fun rest' e _ he => .pure ⟨he.1, fun hes => ?_⟩
  rw [Expr.nodesOf_append]
  exact hes.append (he.2.append .nil)

/-- The use of a superclass is a callee. -/
theorem runs_superRest (deep : Prop) {keyword : Token} (hkeyword : keyword :: rest <:+ ts) :
    Runs ts deep rest (superRest keyword) (Callee ts) := by
  refine .accept (by decide) (fun _ => .check ?_) fun dot rest₁ _ h₁ _ => ?_
  · split
    · next hopen =>
      obtain ⟨paren, after, rfl⟩ :=
        Reads.exists_cons_of_head (of_decide_eq_true hopen) (by decide)
      refine .fresh fun id => .pure (.inr ?_)
      exact ⟨id, keyword, paren, after, rfl, rfl, hkeyword, of_decide_eq_true hopen⟩
    · exact .peek (.fail _ _)
  · refine .expect (by decide) fun method rest₂ _ h₂ _ => .fresh fun id => .pure (.inl ?_)
    exact ⟨.cons .nil trivial, fun _ _ h => by cases h⟩

/-- The smallest expressions take a token. -/
theorem runs_primary (h : g.Steady ts n) (rest : List Token) :
    Runs ts (n < rest.length) rest (primary g) fun rest' e =>
      rest'.length < rest.length ∧ Callee ts rest' e := by
  -- Every operand but `super` is a callee whatever stands behind it.
  have leaf : ∀ {rest' : List Token} {e : Expr}, rest'.length < rest.length →
      Called ts (e.nodes everywhere) → (∀ id word, e ≠ .super id word none) →
      rest'.length < rest.length ∧ Callee ts rest' e :=
    fun hlt he hplain => ⟨hlt, .inl ⟨he, hplain⟩⟩
  refine .on fun _ hsuffix => .peek ?_
  split
  · next value hvalue =>
    refine .advance_of_head rfl (ne_of_constant? hvalue).1 fun t rest₁ _ h₁ _ => .fresh fun id => ?_
    exact .pure (leaf h₁ (.cons .nil trivial) fun _ _ h => by cases h)
  · split
    · next hkind =>
      refine .advance_of_head hkind (by decide) fun t rest₁ _ h₁ _ => .fresh fun id => ?_
      exact .pure (leaf h₁ (.cons .nil trivial) fun _ _ h => by cases h)
    · next hkind =>
      refine .advance_of_head hkind (by decide) fun t rest₁ _ h₁ _ => .fresh fun id => ?_
      exact .pure (leaf h₁ (.cons .nil trivial) fun _ _ h => by cases h)
    · next hkind =>
      -- Behind `super` the tokens decide whether it has to be called.
      refine .advance_of_head hkind (by decide) fun t rest₁ hrest h₁ _ => ?_
      subst hrest
      exact (runs_superRest _ hsuffix).mono fun rest' e hle he => ⟨by omega, he⟩
    · next hkind =>
      refine .advance_of_head hkind (by decide) fun t rest₁ _ h₁ _ => ?_
      refine ((runs_lambdaRest h _ none rest₁).weaken fun hn => by omega).bind
        fun rest₂ fn h₂ hfn => .pure ?_
      exact leaf (by omega) hfn.2 fun _ _ h => by cases h
    · next hkind =>
      refine .advance_of_head hkind (by decide) fun t rest₁ _ h₁ _ => ?_
      refine ((h.expression rest₁).weaken fun hn => by omega).bind fun rest₂ inner h₂ hinner => ?_
      refine .expect (by decide) fun _ rest₃ _ h₃ _ => .fresh fun id => .pure ?_
      exact leaf (by omega) (hinner.2.cons trivial) fun _ _ h => by cases h
    · next hkind =>
      refine .advance_of_head hkind (by decide) fun t rest₁ _ h₁ _ => ?_
      have finish : ∀ rest₂ es, rest₂.length ≤ rest₁.length →
          Called ts (Expr.nodesOf everywhere es) → Runs ts (n < rest.length) rest₂
            (do
              let _ ← expect .rightBracket .listClose
              return Expr.list (← fresh) (rest.headD .absent) es)
            fun rest' e => rest'.length < rest.length ∧ Callee ts rest' e := by
        intro rest₂ es h₂ hes
        refine .expect (by decide) fun _ rest₃ _ h₃ _ => .fresh fun id => .pure ?_
        exact leaf (by omega) (hes.cons trivial) fun _ _ h => by cases h
      refine .check ?_
      dsimp only
      split
      · exact .known (finish rest₁ [] (Nat.le_refl _) .nil)
      · rw [elements_eq]
        refine .remaining ((((rowLoop_steady (runs_elementRound h)).runs _ rest₁ []).weaken
          fun hn => by omega).bind fun rest₂ es h₂ hes => finish rest₂ es h₂ (hes .nil))
    · exact .fail _ _

/-- So do expressions with calls and members behind them. -/
theorem runs_call (h : g.Steady ts n) (rest : List Token) :
    Runs ts (n < rest.length) rest (call g) fun rest' e =>
      rest'.length < rest.length ∧ Called ts (e.nodes everywhere) := by
  refine .on fun _ hsuffix => (runs_primary h rest).bind fun rest₁ e h₁ he => .remaining ?_
  have hlt : rest₁.length < ts.length := Nat.lt_of_lt_of_le he.1 hsuffix.length_le
  exact ((runs_postfixes h _ rest₁ e (Nat.le_refl _) hlt he.2).weaken fun hn => by omega).mono
    fun rest₂ e' h₂ he' => ⟨by omega, he'⟩

/-! ### Operators and assignments -/

/-- So do expressions with operators in front of an operand. -/
theorem runs_unary (h : g.Steady ts n) (fuel : Nat) (rest : List Token) :
    Runs ts (n < rest.length) rest (unary g fuel) fun rest' e =>
      rest'.length < rest.length ∧ Called ts (e.nodes everywhere) := by
  induction fuel generalizing rest with
  | zero => exact runs_call h rest
  | succ fuel ih =>
    refine .accept? (by decide) (fun _ => runs_call h rest) fun op rest₁ _ h₁ _ => ?_
    refine ((ih rest₁).weaken fun hn => by omega).bind fun rest₂ right h₂ hright =>
      .fresh fun id => .pure ⟨by omega, hright.2.cons trivial⟩

/-- So do expressions with operators between operands. -/
theorem runs_operation (h : g.Steady ts n) (rest : List Token) :
    Runs ts (n < rest.length) rest (operation g) fun rest' e =>
      rest'.length < rest.length ∧ Called ts (e.nodes everywhere) := by
  have hlevels : ∀ (levels : List Level) (operand : Parser Expr),
      (∀ rest, Runs ts (n < rest.length) rest operand fun rest' e =>
        rest'.length < rest.length ∧ Called ts (e.nodes everywhere)) →
      ∀ rest, Runs ts (n < rest.length) rest (levels.foldl binary operand) fun rest' e =>
        rest'.length < rest.length ∧ Called ts (e.nodes everywhere) := by
    intro levels
    induction levels with
    | nil => exact fun _ hoperand => hoperand
    | cons level levels ih => exact fun _ hoperand => ih _ (runs_binary hoperand level)
  exact hlevels _ _ (fun rest => .remaining (runs_unary h _ rest)) rest

/-- An assignment keeps the nodes of its target and its value. -/
theorem Called.assignment? {id : NodeId} {value target e : Expr}
    (htarget : Called ts (target.nodes everywhere)) (hvalue : Called ts (value.nodes everywhere))
    (he : Parse.assignment? id value target = some e) : Called ts (e.nodes everywhere) := by
  unfold Parse.assignment? at he
  split at he
  · cases he
    exact hvalue.cons trivial
  · cases he
    exact ((htarget.of_cons trivial).append hvalue).cons trivial
  · cases he

/-- Assignments take a token. -/
theorem runs_assignment (h : g.Steady ts n) (fuel : Nat) (rest : List Token) :
    Runs ts (n < rest.length) rest (assignment g fuel) fun rest' e =>
      rest'.length < rest.length ∧ Called ts (e.nodes everywhere) := by
  induction fuel generalizing rest with
  | zero => exact runs_operation h rest
  | succ fuel ih =>
    refine (runs_operation h rest).bind fun rest₁ target h₁ htarget => ?_
    refine .accept? (by decide) (fun _ => .pure htarget) fun equals rest₂ _ h₂ _ => ?_
    refine ((ih rest₂).weaken fun hn => by omega).bind fun rest₃ value h₃ hvalue =>
      .fresh fun id => ?_
    split
    · next he => exact .pure ⟨by omega, htarget.2.assignment? hvalue.2 he⟩
    · exact .complain _ _ (.pure ⟨by omega, htarget.2⟩)

/-- Every expression takes a token and stays within the bounds. -/
theorem runs_expression (h : g.Steady ts n) (rest : List Token) :
    Runs ts (n < rest.length) rest (expression g) fun rest' e =>
      rest'.length < rest.length ∧ Called ts (e.nodes everywhere) :=
  .remaining (runs_assignment h _ rest)

end ClassScript.Parse
