import ClassScript.Proofs.Parse.Formed

/-!
# Every parsed tree is well formed

Each part of the grammar yields trees that are `Formed`: from a state whose tokens are plain, the
nodes that it makes get the identities from the first free one on. Parts nest through `Nested`, so
a part keeps the promise if the nested parts do, and induction on the levels covers every parse.
-/

namespace ClassScript.Parse

/-- A state in which no identifier is a reserved word. -/
def State.Plain (s : State) : Prop := ∀ t ∈ s.rest, t.Plain

/-- A step that starts with a first free identity. It hands identities out in order and, if it
ends with a result, makes a promise of the next free identity and the result. -/
structure Yields {α : Type} (n : Nat) (x : Parser α) (Q : Nat → α → Prop) : Prop where
  /-- The step ends with a result. -/
  ok : ∀ {s s' : State} {a : α}, s.nextId = n → s.Plain → x s = .ok a s' →
    n ≤ s'.nextId ∧ s'.Plain ∧ Q s'.nextId a
  /-- The step gives up. -/
  error : ∀ {s s' : State} {e : Stop}, s.nextId = n → s.Plain → x s = .error e s' →
    n ≤ s'.nextId ∧ s'.Plain

namespace Yields

variable {α β : Type} {n : Nat} {Q : Nat → α → Prop} {R : Nat → β → Prop}

/-- A result that is promised hands no identity out. -/
theorem pure {a : α} (h : Q n a) : Yields n (Pure.pure a) Q where
  ok := by
    rintro s _ _ rfl hs ⟨⟩
    exact ⟨Nat.le_refl _, hs, h⟩
  error := by
    rintro s _ _ rfl hs ⟨⟩

/-- A step that stops hands no identity out. -/
theorem throw (e : Stop) : Yields n (MonadExcept.throw e : Parser α) Q where
  ok := by
    rintro s _ _ rfl hs ⟨⟩
  error := by
    rintro s _ _ rfl hs ⟨⟩
    exact ⟨Nat.le_refl _, hs⟩

/-- Steps in a row. -/
theorem bind {x : Parser α} {f : α → Parser β} (hx : Yields n x Q)
    (hf : ∀ m a, n ≤ m → Q m a → Yields m (f a) R) : Yields n (x >>= f) R where
  ok := by
    intro s s' b hn hs h
    simp only [Bind.bind, EStateM.bind] at h
    split at h
    · -- Identities are handed out upwards, so the bounds add up.
      next a s₁ h₁ =>
      obtain ⟨l, hs₁, hq⟩ := hx.ok hn hs h₁
      obtain ⟨l', hs', hr⟩ := (hf _ a l hq).ok rfl hs₁ h
      exact ⟨Nat.le_trans l l', hs', hr⟩
    · cases h
  error := by
    intro s s' e hn hs h
    simp only [Bind.bind, EStateM.bind] at h
    split at h
    · next a s₁ h₁ =>
      obtain ⟨l, hs₁, hq⟩ := hx.ok hn hs h₁
      obtain ⟨l', hs'⟩ := (hf _ a l hq).error rfl hs₁ h
      exact ⟨Nat.le_trans l l', hs'⟩
    · next h₁ =>
      cases h
      exact hx.error hn hs h₁

/-- A result that is known in front of the next step. -/
theorem known {a : α} {f : α → Parser β} (h : Yields n (f a) R) :
    Yields n (Pure.pure a >>= f) R := ⟨h.ok, h.error⟩

/-- A test between two steps. -/
theorem ite {c : Prop} [Decidable c] {x y : Parser α} (hx : c → Yields n x Q)
    (hy : ¬ c → Yields n y Q) : Yields n (if c then x else y) Q := by
  split
  · next hc => exact hx hc
  · next hc => exact hy hc

/-- A result may be changed as long as the promise is. -/
theorem map {x : Parser α} {f : α → β} (hx : Yields n x Q) (h : ∀ m a, Q m a → R m (f a)) :
    Yields n (f <$> x) R :=
  hx.bind fun m a _ hq => .pure (h m a hq)

/-- A promise may be weakened. -/
theorem mono {x : Parser α} {Q' : Nat → α → Prop} (hx : Yields n x Q)
    (h : ∀ m a, n ≤ m → Q m a → Q' m a) : Yields n x Q' where
  ok := by
    intro s s' a hn hs hr
    obtain ⟨l, hs', hq⟩ := hx.ok hn hs hr
    exact ⟨l, hs', h _ a l hq⟩
  error := hx.error

/-! ### Tokens -/

/-- A step that hands out no identity and leaves tokens as they are. -/
abbrev Still (n : Nat) (x : Parser α) : Prop := Yields n x fun m _ => m = n

/-- The first free identity is handed out, and the next one is free. -/
theorem fresh (n : Nat) : Yields n fresh fun m id => m = n + 1 ∧ id = n where
  ok := by
    rintro s _ _ rfl hs ⟨⟩
    exact ⟨Nat.le_succ _, hs, rfl, rfl⟩
  error := by
    rintro s _ _ rfl hs ⟨⟩

/-- The next token is plain. -/
theorem peek (n : Nat) : Yields n peek fun m t => m = n ∧ t.Plain where
  ok := by
    rintro s _ _ rfl hs ⟨⟩
    refine ⟨Nat.le_refl _, hs, rfl, ?_⟩
    show (s.rest.headD .absent).Plain
    cases h : s.rest with
    | nil => exact nofun
    | cons t rest => exact hs t (h ▸ List.mem_cons_self)
  error := by
    rintro s _ _ rfl hs ⟨⟩

/-- A look at the state hands no identity out. -/
theorem get (n : Nat) : Still n MonadState.get where
  ok := by
    rintro s _ _ rfl hs ⟨⟩
    exact ⟨Nat.le_refl _, hs, rfl⟩
  error := by
    rintro s _ _ rfl hs ⟨⟩

/-- The number of tokens that are left hands no identity out. -/
theorem remaining (n : Nat) : Still n remaining :=
  (get n).bind fun _ _ _ h => .pure h

/-- Neither does the token before the next one. -/
theorem previous (n : Nat) : Still n previous :=
  (get n).bind fun _ _ _ h => .pure h

/-- Neither does the token behind it. -/
theorem peekNext (n : Nat) : Still n peekNext := by
  refine (get n).bind ?_
  rintro m s - rfl
  split <;> exact .pure rfl

/-- Neither does the kind of the next token. -/
theorem check (n : Nat) (kind : Token.Kind) : Still n (check kind) :=
  (peek n).bind fun _ _ _ h => .pure h.1

/-- Neither does the end of the tokens. -/
theorem atEnd (n : Nat) : Still n atEnd := check n _

/-- A token that is taken leaves plain tokens. -/
theorem advance (n : Nat) : Still n advance where
  ok := by
    intro s s' a hn hs h
    -- The mark of the end is not taken, and without tokens there is none to take.
    cases hr : s.rest with
    | nil =>
      rw [advance_nil hr] at h
      cases h
      exact ⟨Nat.le_of_eq hn.symm, hs, hn⟩
    | cons t rest =>
      by_cases ht : t.kind = .eof
      · rw [advance_eof hr ht] at h
        cases h
        exact ⟨Nat.le_of_eq hn.symm, hs, hn⟩
      · rw [advance_cons hr ht] at h
        cases h
        exact ⟨Nat.le_of_eq hn.symm, fun t ht => hs t (hr ▸ List.mem_cons_of_mem _ ht), hn⟩
  error := by
    intro s s' e hn hs h
    cases h

/-- A token that may be taken leaves plain tokens. -/
theorem accept? (n : Nat) (kinds : List Token.Kind) : Still n (accept? kinds) := by
  refine (peek n).bind ?_
  rintro m t - ⟨rfl, -⟩
  split
  · exact (advance m).bind fun _ _ _ h => .pure h
  · exact .pure rfl

/-- So does one that is taken or not. -/
theorem accept (n : Nat) (kind : Token.Kind) : Still n (accept kind) :=
  (accept? n [kind]).bind fun _ _ _ h => .pure h

/-- A complaint hands no identity out. -/
theorem complain (n : Nat) (token : Token) (complaint : Complaint) :
    Still n (complain token complaint) where
  ok := by
    rintro s _ _ rfl hs ⟨⟩
    exact ⟨Nat.le_refl _, hs, rfl⟩
  error := by
    rintro s _ _ rfl hs ⟨⟩

/-- A complaint that may be made on the way. -/
theorem complainIf {x : Parser α} (c : Prop) [Decidable c] (token : Token) (complaint : Complaint)
    (hx : Yields n x Q) :
    Yields n (do
      if c then Parse.complain token complaint
      x) Q := by
  by_cases hc : c
  · simp only [if_pos hc]
    refine (complain n token complaint).bind ?_
    rintro m _ - rfl
    exact hx
  · simp only [if_neg hc]
    exact hx

/-- A mistake hands no identity out. -/
theorem fail (n : Nat) (token : Token) (what : Expected) :
    Yields n (fail token what : Parser α) Q :=
  (complain n token _).bind fun _ _ _ _ => .throw _

/-- A token that has to be of a kind is taken if it is next. -/
theorem expect_apply (kind : Token.Kind) (what : Expected) (s : State) :
    Parse.expect kind what s =
      if (s.rest.headD .absent).kind = kind then Parse.advance s
      else Parse.fail (s.rest.headD .absent) what s := by
  have e : Parse.expect kind what s =
      (if decide ((s.rest.headD .absent).kind = kind) = true then Parse.advance
        else do Parse.fail (← Parse.peek) what) s := rfl
  rw [e]
  by_cases h : (s.rest.headD .absent).kind = kind
  · rw [if_pos h, if_pos (decide_eq_true h)]
  · rw [if_neg h, if_neg (by simpa using h)]
    rfl

/-- A token that has to be of a kind is of that kind. -/
theorem expect (n : Nat) {kind : Token.Kind} (hk : kind ≠ .eof) (what : Expected) :
    Yields n (expect kind what) fun m t => m = n ∧ t.kind = kind ∧ t.Plain where
  ok := by
    intro s s' a hn hs h
    rw [expect_apply] at h
    split at h
    · next hkind =>
      -- The token in front is of the kind that was asked for, so it is one of the tokens.
      have hstill := (advance n).ok hn hs h
      refine ⟨hstill.1, hstill.2.1, hstill.2.2, ?_⟩
      cases hr : s.rest with
      | nil =>
        rw [hr] at hkind
        exact absurd hkind.symm hk
      | cons t rest =>
        rw [hr] at hkind
        have ht : t.kind ≠ .eof := fun e => hk (hkind.symm.trans e)
        rw [advance_cons hr ht] at h
        cases h
        exact ⟨hkind, hs a (hr ▸ List.mem_cons_self)⟩
    · cases h
  error := by
    intro s s' e hn hs h
    rw [expect_apply] at h
    split at h
    · exact (advance n).error hn hs h
    · exact (fail (Q := fun _ _ => True) n _ what).error hn hs h

end Yields

/-! ### Expressions -/

/-- Nested parts that yield well-formed trees. -/
structure Nested.Sound (g : Nested) : Prop where
  /-- An expression is well formed. -/
  expression : ∀ n, Yields n g.expression fun m e => Formed n m (e.nodes everywhere)
  /-- A declaration is well formed. -/
  declaration : ∀ n, Yields n g.declaration fun m s => Formed n m (s.nodes everywhere)

/-- An operator comes before the nodes of its operands. -/
theorem Level.nodes_node (level : Level) (id : NodeId) (left : Expr) (op : Token) (right : Expr) :
    (level.node id left op right).nodes everywhere =
      .expr (level.node id left op right) :: (left.nodes everywhere ++ right.nodes everywhere) := by
  cases level <;> rfl

/-- An operator is a node that may stand anywhere. -/
theorem Level.proper_node (level : Level) (id : NodeId) (left : Expr) (op : Token) (right : Expr) :
    (Node.expr (level.node id left op right)).Proper := by
  cases level <;> trivial

/-- An operator has the identity that it was made with. -/
theorem Level.id_node (level : Level) (id : NodeId) (left : Expr) (op : Token) (right : Expr) :
    (Node.expr (level.node id left op right)).id = id := by
  cases level <;> rfl

/-- The operands of a level get identities in order, with the operators. -/
theorem yields_operands {operand : Parser Expr}
    (h : ∀ n, Yields n operand fun m e => Formed n m (e.nodes everywhere)) (level : Level)
    (fuel : Nat) {lo n : Nat} {left : Expr} (hl : Formed lo n (left.nodes everywhere)) :
    Yields n (operands operand level fuel left) fun m e => Formed lo m (e.nodes everywhere) := by
  -- On the fuel; the operands so far are the left one of the next operator.
  induction fuel generalizing n left with
  | zero => exact .pure hl
  | succ fuel ih =>
    refine (Yields.accept? n _).bind ?_
    rintro _ op - rfl
    split
    · exact .pure hl
    · refine (h _).bind fun m right _ hr => (Yields.fresh m).bind ?_
      rintro _ _ - ⟨rfl, rfl⟩
      refine ih ?_
      rw [level.nodes_node]
      exact (hl.append hr).cons (level.id_node ..).symm (level.proper_node ..)

/-- A level of operators yields a well-formed tree if its operands do. -/
theorem yields_binary {operand : Parser Expr}
    (h : ∀ n, Yields n operand fun m e => Formed n m (e.nodes everywhere)) (level : Level)
    (n : Nat) : Yields n (binary operand level) fun m e => Formed n m (e.nodes everywhere) := by
  refine (h n).bind fun m left _ hl => (Yields.remaining m).bind ?_
  rintro _ fuel - rfl
  exact yields_operands h level fuel hl

/-- A complaint for some of the things that came before. -/
theorem still_complaints {β : Type} (n : Nat) (xs : List β) (c : β → Prop) [DecidablePred c]
    (token : Token) (complaint : Complaint) :
    Yields.Still n (forIn xs PUnit.unit fun x _ => do
      if c x then complain token complaint
      pure (ForInStep.yield PUnit.unit)) := by
  induction xs with
  | nil => exact .pure rfl
  | cons x rest ih =>
    rw [List.forIn_cons]
    have hx : Yields n
        (do
          if c x then complain token complaint
          pure (ForInStep.yield PUnit.unit)) fun m r => m = n ∧ r = ForInStep.yield PUnit.unit :=
      .complainIf _ _ _ (.pure ⟨rfl, rfl⟩)
    refine hx.bind ?_
    rintro _ _ - ⟨rfl, rfl⟩
    exact ih

/-- The value of a named argument is well formed. -/
theorem yields_namedArgument {g : Nested} (h : g.Sound) (prior : List NamedArg) (n : Nat) :
    Yields n (namedArgument g prior) fun m a => Formed n m (a.value.nodes everywhere) := by
  refine (Yields.advance n).bind ?_
  rintro _ name - rfl
  refine (Yields.advance _).bind ?_
  rintro _ colon - rfl
  refine (still_complaints _ prior _ _ _).bind ?_
  rintro _ _ - rfl
  exact (h.expression _).bind fun _ _ _ he => .pure he

/-- The nodes of the arguments of a call. -/
def Arguments.nodes (a : Arguments) : List Node :=
  Expr.nodesOf everywhere a.args ++ NamedArg.nodesOf everywhere a.named

/-- An argument behind others has the later identities. -/
theorem Arguments.formed_arg {lo mid hi : Nat} {a : Arguments} {e : Expr}
    (ha : Formed lo mid a.nodes) (he : Formed mid hi (e.nodes everywhere)) :
    Formed lo hi { a with args := a.args ++ [e] }.nodes := by
  refine (ha.append he).perm ?_
  simp only [Arguments.nodes, Expr.nodesOf_append, Expr.nodesOf, List.append_nil,
    List.append_assoc]
  exact List.Perm.append_left _ List.perm_append_comm

/-- So has a named argument. -/
theorem Arguments.formed_named {lo mid hi : Nat} {a : Arguments} {b : NamedArg}
    (ha : Formed lo mid a.nodes) (hb : Formed mid hi (b.value.nodes everywhere)) :
    Formed lo hi { a with named := a.named ++ [b] }.nodes := by
  have e : { a with named := a.named ++ [b] : Arguments }.nodes =
      a.nodes ++ b.value.nodes everywhere := by
    obtain ⟨name, value⟩ := b
    simp only [Arguments.nodes, NamedArg.nodesOf_append, NamedArg.nodesOf, List.append_nil,
      List.append_assoc]
  rw [e]
  exact ha.append hb

/-- Arguments are well formed. -/
theorem yields_arguments {g : Nested} (h : g.Sound) (fuel : Nat) {lo n : Nat} {a : Arguments}
    (ha : Formed lo n a.nodes) :
    Yields n (arguments g fuel a) fun m a => Formed lo m a.nodes := by
  induction fuel generalizing n a with
  | zero => exact .pure ha
  | succ fuel ih =>
    -- Whatever the next argument is, a comma decides whether another one follows.
    have go : ∀ {m : Nat} {a : Arguments}, Formed lo m a.nodes →
        Yields m (do if ← accept .comma then arguments g fuel a else return a)
          fun m a => Formed lo m a.nodes := by
      intro m a ha
      refine (Yields.accept m _).bind ?_
      rintro _ more - rfl
      split
      · exact ih ha
      · exact .pure ha
    refine (Yields.check n _).bind ?_
    rintro _ isName - rfl
    refine (Yields.peekNext _).bind ?_
    rintro _ next - rfl
    dsimp only
    split
    · exact (yields_namedArgument h a.named _).bind fun _ _ _ hb =>
        .known (go (a.formed_named ha hb))
    · refine (h.expression _).bind fun m e _ he => ?_
      have hgo := Yields.known (go (a.formed_arg ha he))
      split
      · exact hgo
      · refine (Yields.complain m _ _).bind ?_
        rintro _ _ - rfl
        exact hgo

/-- A call is well formed, with its callee in front. -/
theorem yields_callRest {g : Nested} (h : g.Sound) {lo n : Nat} {callee : Expr}
    (hc : Formed lo n (callee.nodes everywhere)) :
    Yields n (callRest g callee) fun m e => Formed lo m (e.nodes everywhere) := by
  -- The identity of the call is handed out behind those of its arguments.
  have close : ∀ {m : Nat} {a : Arguments}, Formed n m a.nodes →
      Yields m (do
        let paren ← expect .rightParen .argumentsClose
        return Expr.call (← fresh) callee paren a.args a.named)
        fun m e => Formed lo m (e.nodes everywhere) := by
    intro m a ha
    refine (Yields.expect m (by decide) _).bind ?_
    rintro _ paren - ⟨rfl, -⟩
    refine (Yields.fresh _).bind ?_
    rintro _ _ - ⟨rfl, rfl⟩
    refine .pure ?_
    have hall := hc.append ha
    rw [Arguments.nodes, ← List.append_assoc] at hall
    exact hall.cons rfl trivial
  refine (Yields.check n _).bind ?_
  rintro _ closed - rfl
  dsimp only
  split
  · exact .known (close (.nil (Nat.le_refl _)))
  · refine (Yields.remaining _).bind ?_
    rintro _ fuel - rfl
    exact (yields_arguments h fuel (.nil (Nat.le_refl _))).bind fun _ _ _ ha => close ha

/-- So are calls, members and places behind an operand. -/
theorem yields_postfixes {g : Nested} (h : g.Sound) (fuel : Nat) {lo n : Nat} {e : Expr}
    (he : Formed lo n (e.nodes everywhere)) :
    Yields n (postfixes g fuel e) fun m e => Formed lo m (e.nodes everywhere) := by
  -- On the rounds; what stands in front becomes the callee or the object.
  induction fuel generalizing n e with
  | zero => exact .pure he
  | succ fuel ih =>
    refine (Yields.peek n).bind ?_
    rintro _ next - ⟨rfl, -⟩
    refine (Yields.previous _).bind ?_
    rintro _ last - rfl
    split
    · refine (Yields.advance _).bind ?_
      rintro _ _ - rfl
      exact (yields_callRest h he).bind fun _ _ _ hc => ih hc
    · refine (Yields.accept _ _).bind ?_
      rintro _ dotted - rfl
      split
      · refine (Yields.expect _ (by decide) _).bind ?_
        rintro _ name - ⟨rfl, -⟩
        refine (Yields.fresh _).bind ?_
        rintro _ _ - ⟨rfl, rfl⟩
        exact ih (he.cons rfl trivial)
      · exact .pure he

/-! ### Functions and blocks -/

/-- An expression that is there but may have been left out. -/
theorem yields_optional {x : Parser Expr}
    (h : ∀ n, Yields n x fun m e => Formed n m (e.nodes everywhere)) (n : Nat) :
    Yields n (some <$> x) fun m v => Formed n m ((v.map (Expr.nodes everywhere)).getD []) :=
  (h n).map fun _ _ he => he

/-- The nodes of a default. -/
theorem Param.nodes_default (p : Param) :
    Param.nodesOf everywhere [p] = (p.defaultValue.map (Expr.nodes everywhere)).getD [] := by
  obtain ⟨type, name, value, variadic⟩ := p
  cases value with
  | none => rfl
  | some e => exact List.append_nil _

/-- The complaints about a parameter that all the others have been compared with. -/
theorem yields_paramDuplicates (prior : List Param) {n m : Nat} (type : Token) {name : Token}
    (variadic : Bool) {value : Option Expr} (hname : name.IsName)
    (hvalue : Formed n m ((value.map (Expr.nodes everywhere)).getD [])) :
    Yields m (do
      for other in prior do
        if other.name.lexeme = name.lexeme then complain name (.duplicateParam name.lexeme)
      return ({ type, name, defaultValue := value, variadic } : Param))
      fun m p => Formed n m (Param.nodesOf everywhere [p]) ∧ p.name.IsName := by
  refine (still_complaints m prior _ _ _).bind ?_
  rintro _ _ - rfl
  exact .pure ⟨Param.nodes_default _ ▸ hvalue, hname⟩

/-- Complaints about a parameter change nothing about it. -/
theorem yields_paramComplaints (prior : List Param) {n m : Nat} (type : Token) {name : Token}
    (variadic : Bool) {value : Option Expr} (hname : name.IsName)
    (hvalue : Formed n m ((value.map (Expr.nodes everywhere)).getD [])) :
    Yields m (do
      if let some last := prior.getLast? then
        if last.variadic then complain name .variadicNotLast
        if last.defaultValue.isSome && value.isNone && !variadic then
          complain name .requiredAfterDefault
      if variadic && value.isSome then complain name .variadicDefault
      for other in prior do
        if other.name.lexeme = name.lexeme then complain name (.duplicateParam name.lexeme)
      return ({ type, name, defaultValue := value, variadic } : Param))
      fun m p => Formed n m (Param.nodesOf everywhere [p]) ∧ p.name.IsName := by
  have hlast := yields_paramDuplicates prior type variadic hname hvalue
  dsimp only
  split
  · exact .complainIf _ _ _ (.complainIf _ _ _ (.complainIf _ _ _ hlast))
  · exact .complainIf _ _ _ hlast

/-- A parameter behind its type. -/
theorem yields_paramRest {g : Nested} (h : g.Sound) (prior : List Param) (n : Nat) (type : Token) :
    Yields n (do
      let variadic ← accept .ellipsis
      let name ← expect .identifier .paramName
      let value ← if ← accept .equal then some <$> g.expression else pure none
      if let some last := prior.getLast? then
        if last.variadic then complain name .variadicNotLast
        if last.defaultValue.isSome && value.isNone && !variadic then
          complain name .requiredAfterDefault
      if variadic && value.isSome then complain name .variadicDefault
      for other in prior do
        if other.name.lexeme = name.lexeme then complain name (.duplicateParam name.lexeme)
      return ({ type, name, defaultValue := value, variadic } : Param))
      fun m p => Formed n m (Param.nodesOf everywhere [p]) ∧ p.name.IsName := by
  refine (Yields.accept n _).bind ?_
  rintro _ variadic - rfl
  refine (Yields.expect _ (by decide) _).bind ?_
  rintro _ name - ⟨rfl, hkind, hplain⟩
  refine (Yields.accept _ _).bind ?_
  rintro m hasDefault - rfl
  cases hasDefault with
  | true =>
    exact (yields_optional h.expression m).bind fun _ _ _ hv =>
      yields_paramComplaints prior type variadic ⟨hkind, hplain hkind⟩ hv
  | false =>
    exact .known (yields_paramComplaints prior type variadic ⟨hkind, hplain hkind⟩
      (.nil (Nat.le_refl _)))

/-- A parameter is well formed, and its name is an identifier. -/
theorem yields_parameter {g : Nested} (h : g.Sound) (prior : List Param) (n : Nat) :
    Yields n (parameter g prior) fun m p =>
      Formed n m (Param.nodesOf everywhere [p]) ∧ p.name.IsName := by
  refine (Yields.peekNext n).bind ?_
  rintro _ next - rfl
  dsimp only
  refine (Yields.check _ _).bind ?_
  rintro _ isName - rfl
  refine .ite (fun _ => (Yields.advance _).bind ?_) fun _ => ?_
  · rintro _ type - rfl
    exact yields_paramRest h prior _ type
  · exact .known (yields_paramRest h prior _ _)

/-- So are parameters in a row. -/
theorem yields_parameters {g : Nested} (h : g.Sound) (fuel : Nat) {lo n : Nat}
    {params : List Param} (hp : Formed lo n (Param.nodesOf everywhere params))
    (hnames : ∀ p ∈ params, p.name.IsName) :
    Yields n (parameters g fuel params) fun m params =>
      Formed lo m (Param.nodesOf everywhere params) ∧ ∀ p ∈ params, p.name.IsName := by
  -- On the rounds. The identities grow, and the names are kept beside them.
  induction fuel generalizing n params with
  | zero => exact .pure ⟨hp, hnames⟩
  | succ fuel ih =>
    refine (yields_parameter h params n).bind fun m p _ hnew => ?_
    have hp' : Formed lo m (Param.nodesOf everywhere (params ++ [p])) := by
      rw [Param.nodesOf_append]
      exact hp.append hnew.1
    have hnames' : ∀ q ∈ params ++ [p], q.name.IsName := by
      intro q hq
      rcases List.mem_append.1 hq with hq | hq
      · exact hnames q hq
      · rw [List.mem_singleton.1 hq]
        exact hnew.2
    dsimp only
    refine (Yields.accept m _).bind ?_
    rintro _ more - rfl
    split
    · exact ih hp' hnames'
    · exact .pure ⟨hp', hnames'⟩

/-- Declarations in a row are well formed. -/
theorem yields_declarations {g : Nested} (h : g.Sound) (fuel : Nat) {lo n : Nat}
    {body : List Stmt} (hb : Formed lo n (Stmt.nodesOf everywhere body)) :
    Yields n (declarations g fuel body) fun m body =>
      Formed lo m (Stmt.nodesOf everywhere body) := by
  induction fuel generalizing n body with
  | zero => exact .pure hb
  | succ fuel ih =>
    refine (Yields.check n _).bind ?_
    rintro _ closed - rfl
    refine (Yields.atEnd _).bind ?_
    rintro _ ended - rfl
    split
    · exact .pure hb
    · refine (h.declaration _).bind fun m s _ hs => ih ?_
      rw [Stmt.nodesOf_append]
      exact hb.append (by simpa [Stmt.nodesOf] using hs)

/-- A block is well formed. -/
theorem yields_block {g : Nested} (h : g.Sound) (n : Nat) :
    Yields n (block g) fun m b => Formed n m (b.nodes everywhere) := by
  refine (Yields.expect n (by decide) _).bind ?_
  rintro _ brace - ⟨rfl, -⟩
  refine (Yields.remaining _).bind ?_
  rintro _ fuel - rfl
  refine (yields_declarations h fuel (.nil (Nat.le_refl _))).bind fun m body _ hb => ?_
  refine (Yields.expect m (by decide) _).bind ?_
  rintro _ close - ⟨rfl, -⟩
  refine (Yields.fresh _).bind ?_
  rintro _ _ - ⟨rfl, rfl⟩
  exact .pure (hb.cons rfl trivial)

/-- A function is well formed and has the name that it was given. -/
theorem yields_lambdaRest {g : Nested} (h : g.Sound) (keyword : Token) (name : Option Token)
    (n : Nat) :
    Yields n (lambdaRest g keyword name) fun m fn =>
      Formed n m (fn.nodes everywhere) ∧ fn.name = name := by
  have finish : ∀ {m : Nat} {params : List Param}, Formed n m (Param.nodesOf everywhere params) →
      (∀ p ∈ params, p.name.IsName) →
      Yields m (do
        let _ ← expect .rightParen .paramsClose
        let body ← block g
        return (⟨← fresh, keyword, name, params, body.body⟩ : Lambda)) fun m fn =>
        Formed n m (fn.nodes everywhere) ∧ fn.name = name := by
    intro m params hp hnames
    refine (Yields.expect m (by decide) _).bind ?_
    rintro _ close - ⟨rfl, -⟩
    refine (yields_block h _).bind fun m' body _ hb => (Yields.fresh m').bind ?_
    rintro _ _ - ⟨rfl, rfl⟩
    obtain ⟨id, brace, body⟩ := body
    -- The body is a block whose own node is dropped.
    have hbody := hb.sublist (List.sublist_cons_self ..)
    exact .pure ⟨(hp.append hbody).cons rfl hnames, rfl⟩
  refine (Yields.expect n (by decide) _).bind ?_
  rintro m opening - ⟨rfl, -⟩
  refine (Yields.check m _).bind ?_
  rintro m closed - rfl
  dsimp only
  split
  · exact .known (finish (.nil (Nat.le_refl _)) (List.forall_mem_nil _))
  · refine (Yields.remaining m).bind ?_
    rintro m fuel - rfl
    exact (yields_parameters h fuel (.nil (Nat.le_refl _)) (List.forall_mem_nil _)).bind
      fun _ _ _ hp => finish hp.1 hp.2

/-- The elements of a list are well formed. -/
theorem yields_elements {g : Nested} (h : g.Sound) (fuel : Nat) {lo n : Nat} {es : List Expr}
    (he : Formed lo n (Expr.nodesOf everywhere es)) :
    Yields n (elements g fuel es) fun m es => Formed lo m (Expr.nodesOf everywhere es) := by
  induction fuel generalizing n es with
  | zero => exact .pure he
  | succ fuel ih =>
    refine (h.expression n).bind fun m e _ hnew => ?_
    -- The new element comes behind those so far, in the tree as in the numbering.
    have he' : Formed lo m (Expr.nodesOf everywhere (es ++ [e])) := by
      rw [Expr.nodesOf_append]
      exact he.append (by simpa [Expr.nodesOf] using hnew)
    dsimp only
    refine (Yields.accept m _).bind ?_
    rintro _ more - rfl
    split
    · exact ih he'
    · exact .pure he'

/-- A node without nodes below it. -/
theorem formed_leaf {n : Nat} {node : Node} (hid : n = node.id) (hp : node.Proper) :
    Formed n (n + 1) [node] :=
  (Formed.nil (Nat.le_refl n)).cons hid hp

/-- A use of `super` is well formed. -/
theorem yields_superRest (keyword : Token) (n : Nat) :
    Yields n (superRest keyword) fun m e => Formed n m (e.nodes everywhere) := by
  refine (Yields.accept n _).bind ?_
  rintro m dotted - rfl
  split
  · refine (Yields.expect m (by decide) _).bind ?_
    rintro m method - ⟨rfl, -⟩
    refine (Yields.fresh m).bind ?_
    rintro _ _ - ⟨rfl, rfl⟩
    exact .pure (formed_leaf rfl trivial)
  · refine (Yields.check m _).bind ?_
    rintro m called - rfl
    split
    · refine (Yields.fresh m).bind ?_
      rintro _ _ - ⟨rfl, rfl⟩
      exact .pure (formed_leaf rfl trivial)
    · exact (Yields.peek m).bind fun _ _ _ _ => .fail _ _ _

/-- An operand without operators is well formed. -/
theorem yields_primary {g : Nested} (h : g.Sound) (n : Nat) :
    Yields n (primary g) fun m e => Formed n m (e.nodes everywhere) := by
  refine (Yields.peek n).bind ?_
  rintro m t - ⟨rfl, hplain⟩
  have advanced : ∀ {x : Parser Expr}, Yields m x (fun m' e => Formed m m' (e.nodes everywhere)) →
      Yields m (do let _ ← advance; x) fun m' e => Formed m m' (e.nodes everywhere) := by
    intro x hx
    refine (Yields.advance m).bind ?_
    rintro _ _ - rfl
    exact hx
  have leaf : ∀ {f : NodeId → Expr}, (∀ id, (f id).nodes everywhere = [.expr (f id)]) →
      (∀ id, (Node.expr (f id)).id = id) → (∀ id, (Node.expr (f id)).Proper) →
      Yields m (do return f (← fresh)) fun m' e => Formed m m' (e.nodes everywhere) := by
    intro f hn hid hp
    refine (Yields.fresh m).bind ?_
    rintro _ _ - ⟨rfl, rfl⟩
    refine .pure ?_
    rw [hn]
    exact formed_leaf (hid _).symm (hp _)
  split
  · exact advanced (leaf (fun _ => rfl) (fun _ => rfl) fun _ => trivial)
  · split
    · next hkind =>
      exact advanced (leaf (fun _ => rfl) (fun _ => rfl) fun _ => ⟨hkind, hplain hkind⟩)
    · exact advanced (leaf (fun _ => rfl) (fun _ => rfl) fun _ => trivial)
    · exact advanced (yields_superRest t m)
    · exact advanced ((yields_lambdaRest h t none m).bind fun _ _ _ hfn => .pure hfn.1)
    · refine advanced ((h.expression m).bind fun m' inner _ hi => ?_)
      refine (Yields.expect m' (by decide) _).bind ?_
      rintro m' close - ⟨rfl, -⟩
      refine (Yields.fresh m').bind ?_
      rintro _ _ - ⟨rfl, rfl⟩
      exact .pure (hi.cons rfl trivial)
    · have close : ∀ {m' : Nat} {es : List Expr}, Formed m m' (Expr.nodesOf everywhere es) →
          Yields m' (do
            let _ ← expect .rightBracket .listClose
            return Expr.list (← fresh) t es) fun m' e => Formed m m' (e.nodes everywhere) := by
        intro m' es he
        refine (Yields.expect m' (by decide) _).bind ?_
        rintro m' _ - ⟨rfl, -⟩
        refine (Yields.fresh m').bind ?_
        rintro _ _ - ⟨rfl, rfl⟩
        exact .pure (he.cons rfl trivial)
      refine advanced ((Yields.check m _).bind ?_)
      rintro m closed - rfl
      dsimp only
      split
      · exact .known (close (.nil (Nat.le_refl _)))
      · refine (Yields.remaining m).bind ?_
        rintro m fuel - rfl
        exact (yields_elements h fuel (.nil (Nat.le_refl _))).bind fun _ _ _ he => close he
    · exact .fail _ _ _

/-- So is one with calls and members behind it. -/
theorem yields_call {g : Nested} (h : g.Sound) (n : Nat) :
    Yields n (call g) fun m e => Formed n m (e.nodes everywhere) := by
  refine (yields_primary h n).bind fun m e _ he => (Yields.remaining m).bind ?_
  rintro _ fuel - rfl
  exact yields_postfixes h fuel he

/-- So is one with operators in front of it. -/
theorem yields_unary {g : Nested} (h : g.Sound) (fuel n : Nat) :
    Yields n (unary g fuel) fun m e => Formed n m (e.nodes everywhere) := by
  induction fuel generalizing n with
  | zero => exact yields_call h n
  | succ fuel ih =>
    refine (Yields.accept? n _).bind ?_
    rintro m op - rfl
    split
    · exact yields_call h m
    · refine (ih m).bind fun m' right _ hr => (Yields.fresh m').bind ?_
      rintro _ _ - ⟨rfl, rfl⟩
      exact .pure (hr.cons rfl trivial)

/-- So are all levels of operators. -/
theorem yields_operation {g : Nested} (h : g.Sound) (n : Nat) :
    Yields n (operation g) fun m e => Formed n m (e.nodes everywhere) := by
  have levels : ∀ (levels : List Level) (operand : Parser Expr),
      (∀ n, Yields n operand fun m e => Formed n m (e.nodes everywhere)) →
      ∀ n, Yields n (levels.foldl binary operand) fun m e => Formed n m (e.nodes everywhere) := by
    intro levels
    induction levels with
    | nil => exact fun _ ho => ho
    | cons level rest ih => exact fun operand ho => ih _ (yields_binary ho level)
  refine levels _ _ (fun n => (Yields.remaining n).bind ?_) n
  rintro _ fuel - rfl
  exact yields_unary h fuel _

/-- A target that is given a value leaves its own node out. -/
theorem formed_assignment? {lo mid hi : Nat} {value target e : Expr}
    (ht : Formed lo mid (target.nodes everywhere)) (hv : Formed mid hi (value.nodes everywhere))
    (he : assignment? hi value target = some e) : Formed lo (hi + 1) (e.nodes everywhere) := by
  unfold assignment? at he
  split at he
  · -- The node of the target is dropped; its number is used by no other one.
    next use =>
    cases he
    have hname : use.name.IsName := ht.proper (.expr (.var use)) List.mem_cons_self
    have hv' : Formed lo hi (value.nodes everywhere) :=
      (ht.append hv).sublist (List.sublist_append_right ..)
    exact hv'.cons rfl hname
  · next object name =>
    cases he
    exact ((ht.sublist (List.sublist_cons_self ..)).append hv).cons rfl trivial
  · cases he

/-- An assignment is well formed, whatever it assigns to. -/
theorem yields_assignment {g : Nested} (h : g.Sound) (fuel n : Nat) :
    Yields n (assignment g fuel) fun m e => Formed n m (e.nodes everywhere) := by
  induction fuel generalizing n with
  | zero => exact yields_operation h n
  | succ fuel ih =>
    refine (yields_operation h n).bind fun m target _ ht => (Yields.accept? m _).bind ?_
    rintro m equals - rfl
    split
    · exact .pure ht
    · refine (ih m).bind fun m' value _ hv => (Yields.fresh m').bind ?_
      rintro _ _ - ⟨rfl, rfl⟩
      -- A target that cannot be assigned to is complained of and stays what it was.
      split
      · next he => exact .pure (formed_assignment? ht hv he)
      · refine (Yields.complain _ _ _).bind ?_
        rintro _ _ - rfl
        exact .pure (ht.widen (Nat.le_succ_of_le hv.le))

/-- An expression is well formed. -/
theorem yields_expression {g : Nested} (h : g.Sound) (n : Nat) :
    Yields n (expression g) fun m e => Formed n m (e.nodes everywhere) := by
  refine (Yields.remaining n).bind ?_
  rintro m fuel - rfl
  exact yields_assignment h fuel m

/-! ### Statements -/

/-- A function is well formed, and its name is an identifier. -/
theorem yields_function {g : Nested} (h : g.Sound) (keyword : Token) (n : Nat) :
    Yields n (function g keyword) fun m fn =>
      Formed n m (fn.nodes everywhere) ∧ ∃ name, fn.name = some name ∧ name.IsName := by
  refine (Yields.expect n (by decide) _).bind ?_
  rintro m name - ⟨rfl, hkind, hplain⟩
  exact (yields_lambdaRest h keyword (some name) m).mono fun _ _ _ hfn =>
    ⟨hfn.1, name, hfn.2, hkind, hplain hkind⟩

/-- The nodes of superclasses. -/
def superNodes (supers : List NameUse) : List Node :=
  supers.flatMap fun s => Node.visit everywhere (.expr (.var s)) []

/-- The superclasses of a declaration are well formed. -/
theorem yields_superclasses (fuel : Nat) {lo n : Nat} {supers : List NameUse}
    (hs : Formed lo n (superNodes supers)) :
    Yields n (superclasses fuel supers) fun m supers => Formed lo m (superNodes supers) := by
  induction fuel generalizing n supers with
  | zero => exact .pure hs
  | succ fuel ih =>
    refine (Yields.expect n (by decide) _).bind ?_
    rintro m name - ⟨rfl, hkind, hplain⟩
    refine (Yields.fresh m).bind ?_
    rintro _ id - ⟨rfl, rfl⟩
    -- A superclass is a leaf with the identity that was handed out last.
    have hs' : Formed lo (id + 1) (superNodes (supers ++ [⟨id, name⟩])) := by
      unfold superNodes
      rw [List.flatMap_append]
      exact hs.append (formed_leaf rfl ⟨hkind, hplain hkind⟩)
    dsimp only
    refine (Yields.accept _ _).bind ?_
    rintro _ more - rfl
    split
    · exact ih hs'
    · exact .pure hs'

/-- The methods of a class are well formed. -/
theorem yields_methods {g : Nested} (h : g.Sound) (fuel : Nat) {lo n : Nat} {ms : List Lambda}
    (hm : Formed lo n (Lambda.nodesOf everywhere ms)) :
    Yields n (methods g fuel ms) fun m ms => Formed lo m (Lambda.nodesOf everywhere ms) := by
  induction fuel generalizing n ms with
  | zero => exact .pure hm
  | succ fuel ih =>
    refine (Yields.check n _).bind ?_
    rintro m closed - rfl
    refine (Yields.atEnd m).bind ?_
    rintro m ended - rfl
    split
    · exact .pure hm
    · refine (Yields.peek m).bind ?_
      rintro m keyword - ⟨rfl, -⟩
      refine (Yields.accept m _).bind ?_
      rintro m word - rfl
      refine (Yields.check m _).bind ?_
      rintro m named - rfl
      -- A method ends the round, with a keyword or without.
      have method : Yields m (do
          let fn ← function g keyword
          let _ ← accept .semicolon
          methods g fuel (ms ++ [fn])) fun m ms => Formed lo m (Lambda.nodesOf everywhere ms) := by
        refine (yields_function h keyword m).bind fun m' fn _ hfn => (Yields.accept m' _).bind ?_
        rintro m' _ - rfl
        refine ih ?_
        rw [Lambda.nodesOf_append]
        exact hm.append (by simpa [Lambda.nodesOf] using hfn.1)
      cases named with
      | true => exact method
      | false =>
        refine (Yields.peek m).bind fun _ _ _ _ => ?_
        exact (Yields.fail (Q := fun _ _ => False) _ _ _).bind fun _ _ _ hf => hf.elim

/-- A class is well formed. -/
theorem yields_classRest {g : Nested} (h : g.Sound) (n : Nat) :
    Yields n (classRest g) fun m s => Formed n m (s.nodes everywhere) := by
  refine (Yields.expect n (by decide) _).bind ?_
  rintro n name - ⟨rfl, hkind, hplain⟩
  have body : ∀ {m : Nat} {supers : List NameUse}, Formed n m (superNodes supers) →
      Yields m (do
        let _ ← expect .leftBrace .classOpen
        let ms ← methods g (← remaining) []
        let _ ← expect .rightBrace .classClose
        return Stmt.classDecl (← fresh) name supers ms) fun m s =>
        Formed n m (s.nodes everywhere) := by
    intro m supers hs
    refine (Yields.expect m (by decide) _).bind ?_
    rintro m _ - ⟨rfl, -⟩
    refine (Yields.remaining m).bind ?_
    rintro m fuel - rfl
    refine (yields_methods h fuel (.nil (Nat.le_refl _))).bind fun m' ms _ hm => ?_
    refine (Yields.expect m' (by decide) _).bind ?_
    rintro m' _ - ⟨rfl, -⟩
    refine (Yields.fresh m').bind ?_
    rintro _ _ - ⟨rfl, rfl⟩
    exact .pure ((hs.append hm).cons rfl ⟨hkind, hplain hkind⟩)
  refine (Yields.accept n _).bind ?_
  rintro n derived - rfl
  dsimp only
  split
  · refine (Yields.remaining n).bind ?_
    rintro n fuel - rfl
    exact (yields_superclasses fuel (.nil (Nat.le_refl _))).bind fun _ _ _ hs => body hs
  · exact .known (body (.nil (Nat.le_refl _)))

/-- A declaration of a variable is well formed. -/
theorem yields_varRest {g : Nested} (h : g.Sound) (n : Nat) :
    Yields n (varRest g) fun m s => Formed n m (s.nodes everywhere) := by
  refine (Yields.expect n (by decide) _).bind ?_
  rintro n name - ⟨rfl, hkind, hplain⟩
  have finish : ∀ {m : Nat} {v : Option Expr},
      Formed n m ((v.map (Expr.nodes everywhere)).getD []) →
      Yields m (do return Stmt.varDecl (← fresh) name v) fun m s =>
        Formed n m (s.nodes everywhere) := by
    intro m v hv
    refine (Yields.fresh m).bind ?_
    rintro _ _ - ⟨rfl, rfl⟩
    refine .pure ?_
    cases v <;> exact hv.cons rfl ⟨hkind, hplain hkind⟩
  refine (Yields.accept n _).bind ?_
  rintro n given - rfl
  dsimp only
  split
  · exact (yields_optional (yields_expression h) n).bind fun _ _ _ hv => finish hv
  · exact .known (finish (.nil (Nat.le_refl _)))

/-- A loop over elements is well formed. -/
theorem yields_forRest {g : Nested} (h : g.Sound) (keyword : Token) (n : Nat) :
    Yields n (forRest g keyword) fun m s => Formed n m (s.nodes everywhere) := by
  refine (Yields.expect n (by decide) _).bind ?_
  rintro n name - ⟨rfl, hkind, hplain⟩
  refine (Yields.expect n (by decide) _).bind ?_
  rintro n _ - ⟨rfl, -⟩
  refine (yields_expression h n).bind fun m iterable _ hi => ?_
  refine (yields_block h m).bind fun m' body _ hb => (Yields.fresh m').bind ?_
  rintro _ _ - ⟨rfl, rfl⟩
  exact .pure ((hi.append hb).cons rfl ⟨hkind, hplain hkind⟩)

/-- The other branch of a conditional as the grammar makes it. -/
def Branch (s : Stmt) : Prop :=
  (∃ b, s = .block b) ∨ ∃ id keyword condition body otherwise,
    s = .ifElse id keyword condition body otherwise

/-- A conditional is well formed, and so is its other branch as a branch. -/
theorem yields_ifRest {g : Nested} (h : g.Sound) (fuel : Nat) (keyword : Token) (n : Nat) :
    Yields n (ifRest g fuel keyword) fun m s => Formed n m (s.nodes everywhere) ∧ Branch s := by
  -- On the chained conditionals, whose branches have to be blocks or conditionals.
  induction fuel generalizing n keyword with
  | zero => exact .throw _
  | succ fuel ih =>
    refine (yields_expression h n).bind fun m condition _ hc => ?_
    refine (yields_block h m).bind fun m body _ hb => ?_
    -- The node of the conditional is made behind all of its branches.
    have finish : ∀ {m' : Nat} {otherwise : Option Stmt},
        Formed m m' ((otherwise.map (Stmt.nodes everywhere)).getD []) →
        (∀ s, otherwise = some s → Branch s) →
        Yields m' (do return Stmt.ifElse (← fresh) keyword condition body otherwise) fun m s =>
          Formed n m (s.nodes everywhere) ∧ Branch s := by
      intro m' otherwise ho hbranch
      refine (Yields.fresh m').bind ?_
      rintro _ _ - ⟨rfl, rfl⟩
      refine .pure ⟨?_, .inr ⟨_, _, _, _, _, rfl⟩⟩
      have hall := (hc.append hb).append ho
      cases otherwise with
      | none =>
        rw [Option.map_none, Option.getD_none, List.append_nil] at hall
        exact hall.cons rfl trivial
      | some s => exact hall.cons rfl (hbranch s rfl)
    refine (Yields.accept m _).bind ?_
    rintro m more - rfl
    cases more with
    | false => exact .known (finish (.nil (Nat.le_refl _)) nofun)
    | true =>
      refine (Yields.accept? m _).bind ?_
      rintro m chained - rfl
      cases chained with
      | none =>
        have hblock : Yields m (some <$> Stmt.block <$> block g) fun m' o =>
            Formed m m' ((o.map (Stmt.nodes everywhere)).getD []) ∧ ∀ s, o = some s → Branch s :=
          ((yields_block h m).map (R := fun m' s => Formed m m' (s.nodes everywhere) ∧ Branch s)
            fun _ b hb => ⟨hb, .inl ⟨b, rfl⟩⟩).map fun _ _ hs =>
              ⟨hs.1, fun _ e => by cases e; exact hs.2⟩
        exact hblock.bind fun _ _ _ ho => finish ho.1 ho.2
      | some keyword' =>
        have hif : Yields m (some <$> ifRest g fuel keyword') fun m' o =>
            Formed m m' ((o.map (Stmt.nodes everywhere)).getD []) ∧ ∀ s, o = some s → Branch s :=
          (ih keyword' m).map fun _ _ hs => ⟨hs.1, fun _ e => by cases e; exact hs.2⟩
        exact hif.bind fun _ _ _ ho => finish ho.1 ho.2

/-- A return is well formed. -/
theorem yields_returnRest {g : Nested} (h : g.Sound) (keyword : Token) (n : Nat) :
    Yields n (returnRest g keyword) fun m s => Formed n m (s.nodes everywhere) := by
  have finish : ∀ {n m : Nat} {v : Option Expr},
      Formed n m ((v.map (Expr.nodes everywhere)).getD []) →
      Yields m (do return Stmt.ret (← fresh) keyword v) fun m s =>
        Formed n m (s.nodes everywhere) := by
    intro n m v hv
    refine (Yields.fresh m).bind ?_
    rintro _ _ - ⟨rfl, rfl⟩
    refine .pure ?_
    cases v <;> exact hv.cons rfl trivial
  refine (Yields.peek n).bind ?_
  rintro n next - ⟨rfl, -⟩
  dsimp only
  split
  · exact (yields_optional (yields_expression h) n).bind fun _ _ _ hv => finish hv
  · exact .known (finish (.nil (Nat.le_refl _)))

/-- A loop is well formed. -/
theorem yields_whileRest {g : Nested} (h : g.Sound) (keyword : Token) (n : Nat) :
    Yields n (whileRest g keyword) fun m s => Formed n m (s.nodes everywhere) := by
  refine (yields_expression h n).bind fun m condition _ hc => ?_
  refine (yields_block h m).bind fun m' body _ hb => (Yields.fresh m').bind ?_
  rintro _ _ - ⟨rfl, rfl⟩
  exact .pure ((hc.append hb).cons rfl trivial)

/-- A statement is well formed. -/
theorem yields_statement {g : Nested} (h : g.Sound) (n : Nat) :
    Yields n (statement g) fun m s => Formed n m (s.nodes everywhere) := by
  refine (Yields.accept? n _).bind ?_
  rintro n word - rfl
  split
  · split
    · exact yields_forRest h _ n
    · refine (Yields.remaining n).bind ?_
      rintro n fuel - rfl
      exact (yields_ifRest h _ _ n).mono fun _ _ _ hs => hs.1
    · exact yields_whileRest h _ n
    · exact yields_returnRest h _ n
  · refine (Yields.check n _).bind ?_
    rintro n braced - rfl
    split
    · exact (yields_block h n).bind fun _ _ _ hb => .pure hb
    · refine (yields_expression h n).bind fun m value _ hv => (Yields.fresh m).bind ?_
      rintro _ _ - ⟨rfl, rfl⟩
      exact .pure (hv.cons rfl trivial)

/-- A declaration is well formed without what goes around it. -/
theorem yields_bareDeclaration {g : Nested} (h : g.Sound) (n : Nat) :
    Yields n (bareDeclaration g) fun m s => Formed n m (s.nodes everywhere) := by
  refine (Yields.accept n _).bind ?_
  rintro n isClass - rfl
  split
  · exact yields_classRest h n
  · refine (Yields.check n _).bind ?_
    rintro n isFun - rfl
    refine (Yields.peekNext n).bind ?_
    rintro n next - rfl
    split
    · refine (Yields.advance n).bind ?_
      rintro n keyword - rfl
      refine (yields_function h keyword n).bind fun m fn _ hfn => (Yields.fresh m).bind ?_
      rintro _ _ - ⟨rfl, rfl⟩
      exact .pure (hfn.1.cons rfl hfn.2)
    · refine (Yields.accept n _).bind ?_
      rintro n isVar - rfl
      split
      · exact yields_varRest h n
      · exact yields_statement h n

/-- A declaration is well formed, or there is none. -/
theorem yields_declaration {g : Nested} (h : g.Sound) (n : Nat) :
    Yields n (declaration g) fun m s => Formed n m (s.nodes everywhere) := by
  refine (yields_bareDeclaration h n).bind fun m s _ hs => (Yields.accept m _).bind ?_
  rintro m _ - rfl
  exact .pure hs

/-- However deep expressions and declarations nest, they are well formed. -/
theorem nested_sound (levels : Nat) : (nested levels).Sound := by
  induction levels with
  | zero => exact ⟨fun _ => .throw _, fun _ => .throw _⟩
  | succ levels ih => exact ⟨yields_expression ih, yields_declaration ih⟩

/-! ### Programs -/

/-- To skip tokens hands no identity out. -/
theorem still_skipToStatement (fuel n : Nat) : Yields.Still n (skipToStatement fuel) := by
  induction fuel generalizing n with
  | zero => exact .pure rfl
  | succ fuel ih =>
    refine (Yields.atEnd n).bind ?_
    rintro n ended - rfl
    split
    · exact .pure rfl
    · refine (Yields.previous n).bind ?_
      rintro n last - rfl
      split
      · exact .pure rfl
      · refine (Yields.peek n).bind ?_
        rintro n next - ⟨rfl, -⟩
        split
        · exact .pure rfl
        · refine (Yields.advance n).bind ?_
          rintro n _ - rfl
          exact ih n

/-- Neither does the way on after a mistake. -/
theorem still_synchronize (n : Nat) : Yields.Still n synchronize := by
  refine (Yields.advance n).bind ?_
  rintro n _ - rfl
  refine (Yields.remaining n).bind ?_
  rintro n fuel - rfl
  exact still_skipToStatement fuel n

/-- A program is well formed, also where parts of it were given up. -/
theorem formed_programFrom {g : Nested} (h : g.Sound) (fuel : Nat) {s : State} (hs : s.Plain) :
    Formed s.nextId (programFrom g fuel s).2.nextId
      (Stmt.nodesOf everywhere (programFrom g fuel s).1) := by
  -- On the rounds; one that gives a declaration up may have used identities, but no node has them.
  induction fuel generalizing s with
  | zero => exact .nil (Nat.le_refl _)
  | succ fuel ih =>
    unfold programFrom
    split
    · exact .nil (Nat.le_refl _)
    · split
      · next stmt s' hd =>
        obtain ⟨-, hs', hf⟩ := (yields_declaration h s.nextId).ok rfl hs hd
        exact hf.append (ih hs')
      · next s' hd =>
        obtain ⟨hle, hs'⟩ := (yields_declaration h s.nextId).error rfl hs hd
        split
        · next s'' hsync =>
          obtain ⟨-, hs'', e⟩ := (still_synchronize s'.nextId).ok rfl hs' hsync
          have hrest := ih hs''
          rw [e] at hrest
          exact (Formed.nil hle).append hrest
        · next s'' hsync =>
          obtain ⟨hle', -⟩ := (still_synchronize s'.nextId).error rfl hs' hsync
          exact .nil (Nat.le_trans hle hle')
      · next s' hd =>
        exact .nil ((yields_declaration h s.nextId).error rfl hs hd).1

/-- The program of a source is well formed: its nodes have different identities, handed out from
the given one on, and what it names has a name that is not a reserved word. -/
theorem formed_source (src : String) (n : NodeId) :
    Formed n (source src n).nextId (allNodes (source src n).program) := by
  let s : State := { rest := Token.scanText src, nextId := n }
  have hs : s.Plain := Token.plain_scanFrom .start _
  exact formed_programFrom (nested_sound _) _ hs

end ClassScript.Parse
