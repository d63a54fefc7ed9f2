import ClassScript.Proofs.Parse.Reads

/-!
# Expressions and functions are read as they are spelled

Each part of the grammar makes a tree of the grammar and takes the tokens that the tree spells.
Parts nest through `Nested`; a nested part starts behind a token that was taken already, so that the
number of tokens bounds the nesting and no parse is given up for its depth.
-/

namespace ClassScript

namespace Parse

variable {g : Nested} {n : Nat} {ts : List Token}

/-- An expression of a rank at least was read from tokens. -/
structure ReadExpr (r : Nat) (taken : List Token) (e : Expr) : Prop where
  /-- The expression spells the tokens. -/
  written : Written taken fun ending => e.spell ending
  /-- The expression is one of the grammar. -/
  grammatical : e.Grammatical True
  /-- The expression binds tightly enough. -/
  rank : r ≤ e.rank

/-- No expression has a rank above that of calls. -/
theorem ReadExpr.rank_eq {taken : List Token} {e : Expr} (h : ReadExpr 8 taken e) : e.rank = 8 :=
  Nat.le_antisymm e.rank_le h.rank

/-- Nested parts read what their trees spell if there are fewer tokens than a bound. -/
structure Nested.Faithful (g : Nested) (n : Nat) : Prop where
  /-- An expression. -/
  expression : ∀ ts, ts.length < n → Reads True ts g.expression (ReadExpr 0)
  /-- A declaration, with a semicolon or without one. -/
  declaration : ∀ ts, ts.length < n → Reads True ts g.declaration fun taken s =>
    Written taken (fun ending => s.spell ending ++ ending.stmt) ∧ s.Grammatical True

/-- Two tokens of different kinds, of which none marks the end, are two tokens. -/
theorem exists_behind {kind kind' : Token.Kind} (h : (ts.headD .absent).kind = kind)
    (h' : (behind ts).kind = kind') (hne : kind ≠ kind') (heof : kind ≠ .eof) :
    ∃ t t' rest, ts = t :: t' :: rest := by
  rcases ts with _ | ⟨t, _ | ⟨t', rest⟩⟩
  · exact absurd h.symm heof
  · exact absurd (h.symm.trans h') hne
  · exact ⟨t, t', rest, rfl⟩

/-! ### Operators -/

namespace Level

/-- The rank of the operators of a level. -/
def rank : Level → Nat
  | disjunction => 1
  | conjunction => 2
  | equality => 3
  | comparison => 4
  | sum => 5
  | product => 6

variable (level : Level) {op : Token} {left right : Expr}

/-- The mark of the end is no operator. -/
theorem eof_not_mem_operators : Token.Kind.eof ∉ level.operators := by
  cases level <;> decide

/-- The operators of a level bind as tightly as its rank says. -/
theorem binding?_of_mem {kind : Token.Kind} (h : kind ∈ level.operators) :
    kind.binding? = some level.rank := by
  have hall : ∀ kind ∈ level.operators, kind.binding? = some level.rank := by
    cases level <;> decide
  exact hall kind h

/-- A semicolon is no operator. -/
theorem ne_semicolon_of_mem {kind : Token.Kind} (h : kind ∈ level.operators) :
    kind ≠ .semicolon := by
  rintro rfl
  cases level.binding?_of_mem h

/-- An operator is spelled between its operands. -/
theorem spell_node (ending : Endings) (id : NodeId) (left : Expr) (op : Token) (right : Expr) :
    (level.node id left op right).spell ending = left.spell ending ++ op :: right.spell ending := by
  cases level <;> rfl

/-- An operator makes an expression of the rank of its level. -/
theorem rank_node (h : op.kind ∈ level.operators) (id : NodeId) (left right : Expr) :
    (level.node id left op right).rank = level.rank := by
  have hbinding := level.binding?_of_mem h
  cases level <;> simp only [node, Expr.rank, hbinding, Option.getD_some]

/-- An operator of a level joins operands of the grammar, a tighter one on the right. -/
theorem grammatical_node (h : op.kind ∈ level.operators) (id : NodeId)
    (hleft : left.Grammatical True) (hl : level.rank ≤ left.rank) (hright : right.Grammatical True)
    (hr : level.rank < right.rank) : (level.node id left op right).Grammatical True := by
  have hbinding := level.binding?_of_mem h
  cases level <;> exact ⟨⟨_, hbinding, by decide, by decide, hl, hr⟩, hleft, hright⟩

end Level

/-- The operands and the operator between them were read as one expression. -/
theorem ReadExpr.node {level : Level} {before taken : List Token} {left right : Expr} {op : Token}
    (hleft : ReadExpr level.rank before left) (hop : op.kind ∈ level.operators)
    (hright : ReadExpr (level.rank + 1) taken right) (id : NodeId) :
    ReadExpr level.rank (before ++ op :: taken) (level.node id left op right) where
  written := by
    have htokens := hleft.written.append
      ((Written.token (level.ne_semicolon_of_mem hop)).append hright.written)
    exact htokens.congr fun ending => (level.spell_node ending id left op right).symm
  grammatical := level.grammatical_node hop id hleft.grammatical hleft.rank hright.grammatical
    hright.rank
  rank := Nat.le_of_eq (level.rank_node hop id left right).symm

/-- A loop over operators reads an expression of its level, whatever was read in front of it. -/
theorem reads_operands (level : Level) {operand : Parser Expr}
    (h : ∀ ts, ts.length ≤ n → Reads True ts operand (ReadExpr (level.rank + 1))) (fuel : Nat)
    (hts : ts.length ≤ n) (before : List Token) (left : Expr) :
    Reads (ReadExpr level.rank before left) ts (operands operand level fuel left)
      fun taken e => ReadExpr level.rank (before ++ taken) e := by
  -- On the fuel; what was read in front goes along.
  induction fuel generalizing ts before left with
  | zero => exact .pure fun hleft => by rwa [List.append_nil]
  | succ fuel ih =>
    refine .accept? level.eof_not_mem_operators ?_ ?_
    · exact .pure fun hleft => by rwa [List.append_nil]
    · rintro op rest rfl hop
      have hrest : rest.length ≤ n := Nat.le_of_succ_le hts
      -- The right operand binds more tightly than the operator, and both make the left operand of
      -- what follows.
      refine ((h rest hrest).frame (fun _ => trivial) fun _ _ => And.intro).bind
        fun taken rest' right hsplit => ?_
      refine .fresh fun id => ?_
      have hrest' : rest'.length ≤ n := by
        rw [hsplit, List.length_append] at hrest
        omega
      refine (ih hrest' (before ++ op :: taken) (level.node id left op right)).frame
        (fun hboth => hboth.1.node hop hboth.2 id) fun taken' e _ he => ?_
      simpa using he

/-- A level of operators reads expressions of its rank. -/
theorem reads_binary (level : Level) {operand : Parser Expr}
    (h : ∀ ts, ts.length ≤ n → Reads True ts operand (ReadExpr (level.rank + 1))) :
    ∀ ts, ts.length ≤ n → Reads True ts (binary operand level) (ReadExpr level.rank) := by
  intro ts hts
  refine (h ts hts).bind fun before rest left hsplit => .remaining ?_
  have hrest : rest.length ≤ n := by
    rw [hsplit, List.length_append] at hts
    omega
  exact (reads_operands level h _ hrest before left).weaken fun hleft =>
    ⟨hleft.written, hleft.grammatical, Nat.le_of_succ_le hleft.rank⟩

/-! ### Rows -/

/-- Things in a row, with commas between them, were read behind others of their kind. -/
def ReadRow {α : Type} (P : α → Prop) (spell : Endings → α → List Token) (prior : List α)
    (taken : List Token) (all : List α) : Prop :=
  ∃ new, all = prior ++ new ∧ new ≠ [] ∧ (∀ a ∈ new, P a) ∧
    Written taken fun ending => Token.commas (new.map (spell ending))

namespace ReadRow

variable {α : Type} {P : α → Prop} {spell : Endings → α → List Token} {prior one all : List α}
  {taken taken₁ taken₂ : List Token}

/-- A single thing was read as a row. -/
theorem single {a : α} (ha : P a) (hwritten : Written taken fun ending => spell ending a) :
    ReadRow P spell prior taken (prior ++ [a]) := by
  refine ⟨[a], rfl, List.cons_ne_nil _ _, by simpa using ha, hwritten.congr fun ending => ?_⟩
  exact (Token.commas_singleton _).symm

/-- Things behind a comma. -/
theorem trans {comma : Token} (h₁ : ReadRow P spell prior taken₁ one)
    (hcomma : Written [comma] fun _ => [.mark .comma]) (h₂ : ReadRow P spell one taken₂ all) :
    ReadRow P spell prior (taken₁ ++ comma :: taken₂) all := by
  obtain ⟨new₁, rfl, hne₁, hall₁, hwritten₁⟩ := h₁
  obtain ⟨new₂, rfl, hne₂, hall₂, hwritten₂⟩ := h₂
  refine ⟨new₁ ++ new₂, List.append_assoc .., List.append_ne_nil_of_left_ne_nil hne₁ _,
    List.forall_mem_append.2 ⟨hall₁, hall₂⟩, ?_⟩
  refine (hwritten₁.append (hcomma.append hwritten₂)).congr fun ending => ?_
  rw [List.singleton_append, List.map_append, Token.commas_append (by simpa using hne₁)
    (by simpa using hne₂)]

/-- A comma decides whether the row goes on. -/
theorem reads_more (C : List α → Prop) (prior : List α) (taken : List Token)
    {loop : List α → Parser (List α)}
    (hloop : ∀ rest, rest.length < ts.length →
      Reads (C one) rest (loop one) fun taken all => ReadRow P spell one taken all ∧ C all) :
    Reads (ReadRow P spell prior taken one ∧ C one) ts
      (do if ← accept .comma then loop one else return one)
      fun taken' all => ReadRow P spell prior (taken ++ taken') all ∧ C all := by
  refine .acceptMark rfl (by decide) ?_ ?_
  · exact .pure fun h => by rwa [List.append_nil]
  · rintro comma rest rfl hcomma
    exact (hloop rest (Nat.lt_succ_self _)).frame (fun h => h.2) fun taken' all h hmore =>
      ⟨h.1.trans hcomma hmore.1, hmore.2⟩

end ReadRow

/-! ### Calls and members -/

/-- A named argument was read from tokens. -/
structure ReadNamed (taken : List Token) (arg : NamedArg) : Prop where
  /-- The argument spells the tokens. -/
  written : Written taken fun ending => arg.name :: .mark .colon :: arg.value.spell ending
  /-- The name is one. -/
  name : arg.name.kind = .identifier
  /-- The value is an expression of the grammar. -/
  value : arg.value.Grammatical True

/-- A named argument is read as it is spelled. -/
theorem reads_namedArgument (h : g.Faithful n) (prior : List NamedArg) {name colon : Token}
    {rest : List Token} (hname : name.kind = .identifier) (hcolon : colon.kind = .colon)
    (hrest : rest.length < n) :
    Reads True (name :: colon :: rest) (namedArgument g prior) fun taken arg =>
      ReadNamed taken arg ∧ ∀ other ∈ prior, other.name.lexeme ≠ arg.name.lexeme := by
  refine .proper fun hp => ?_
  refine .advance (by rw [hname]; decide) (.advance (by rw [hcolon]; decide) ?_)
  -- No complaint was made, so no argument in front of it has the name.
  refine .complaints prior _ name _ ?_
  refine ((h.expression rest hrest).frame (fun _ => trivial) fun _ _ => And.intro).bind
    fun taken _ value _ => .pure ?_
  rintro ⟨⟨-, hnew⟩, hvalue⟩
  refine ⟨⟨?_, hname, hvalue.grammatical⟩, hnew⟩
  have hmark : Written [colon] fun _ => [.mark .colon] :=
    .mark (hp.regular colon (by simp)) hcolon rfl (by decide)
  have hkept : Written [name] fun _ => [name] := .token (by rw [hname]; decide)
  simpa using hkept.append (hmark.append hvalue.written)

/-- Arguments of a call were read behind others: at least one, and after a named one only named
ones. -/
structure ReadArguments (a : Arguments) (taken : List Token) (a' : Arguments) : Prop where
  /-- The new arguments are of the grammar and spell the tokens. -/
  written : ∃ args named, a' = ⟨a.args ++ args, a.named ++ named⟩ ∧
    (args = [] → named ≠ []) ∧ (a.named ≠ [] → args = []) ∧
    Expr.AllGrammatical True args ∧ NamedArg.AllGrammatical True named ∧
    Written taken fun ending =>
      Token.commas (Expr.spellEach ending args ++ NamedArg.spellEach ending named)
  /-- All names are different. -/
  nodup : (a'.named.map (·.name.lexeme)).Nodup

namespace ReadArguments

variable {a a₁ a₂ : Arguments} {taken taken₁ taken₂ : List Token}

/-- A named argument with a new name was read behind others. -/
theorem named {arg : NamedArg} (hnodup : (a.named.map (·.name.lexeme)).Nodup)
    (harg : ReadNamed taken arg)
    (hnew : ∀ other ∈ a.named, other.name.lexeme ≠ arg.name.lexeme) :
    ReadArguments a taken { a with named := a.named ++ [arg] } where
  written := by
    refine ⟨[], [arg], by rw [List.append_nil], fun _ => List.cons_ne_nil _ _, fun _ => rfl,
      trivial, ?_, harg.written.congr fun ending => ?_⟩
    · exact (NamedArg.allGrammatical_iff True).2 (by simpa using ⟨harg.name, harg.value⟩)
    · rw [NamedArg.spellEach_eq_map]
      exact (Token.commas_singleton _).symm
  nodup := by
    rw [List.map_append, List.nodup_append]
    refine ⟨hnodup, by simp, ?_⟩
    simpa using hnew

/-- A positional argument was read behind others of its kind. -/
theorem positional {arg : Expr} (hnodup : (a.named.map (·.name.lexeme)).Nodup)
    (harg : ReadExpr 0 taken arg) (hfirst : a.named = []) :
    ReadArguments a taken { a with args := a.args ++ [arg] } where
  written := by
    refine ⟨[arg], [], by rw [List.append_nil], nofun, fun hne => absurd hfirst hne,
      ⟨harg.grammatical, trivial⟩, trivial, ?_⟩
    exact harg.written.congr fun ending => (Token.commas_singleton _).symm
  nodup := hnodup

/-- Arguments behind a comma. -/
theorem trans {comma : Token} (h₁ : ReadArguments a taken₁ a₁)
    (hcomma : Written [comma] fun _ => [.mark .comma]) (h₂ : ReadArguments a₁ taken₂ a₂) :
    ReadArguments a (taken₁ ++ comma :: taken₂) a₂ where
  written := by
    obtain ⟨args₁, named₁, rfl, hne₁, hlast₁, hargs₁, hnamed₁, hw₁⟩ := h₁.written
    obtain ⟨args₂, named₂, rfl, hne₂, hlast₂, hargs₂, hnamed₂, hw₂⟩ := h₂.written
    refine ⟨args₁ ++ args₂, named₁ ++ named₂, by simp only [List.append_assoc], ?_, ?_, ?_, ?_, ?_⟩
    · intro hnil
      exact List.append_ne_nil_of_left_ne_nil (hne₁ (List.append_eq_nil_iff.1 hnil).1) _
    · intro hne
      rw [hlast₁ hne, hlast₂ (List.append_ne_nil_of_left_ne_nil hne _), List.append_nil]
    · rw [Expr.allGrammatical_iff] at *
      exact List.forall_mem_append.2 ⟨hargs₁, hargs₂⟩
    · rw [NamedArg.allGrammatical_iff] at *
      exact List.forall_mem_append.2 ⟨hnamed₁, hnamed₂⟩
    · refine (hw₁.append (hcomma.append hw₂)).congr fun ending => ?_
      simp only [Expr.spellEach_eq_map, NamedArg.spellEach_eq_map]
      rw [List.singleton_append, ← Token.commas_append (by simpa using hne₁) (by simpa using hne₂)]
      -- Behind a named argument there are only named ones, so nothing changes its place.
      cases named₁ with
      | nil => simp only [List.map_append, List.map_nil, List.append_nil, List.nil_append,
          List.append_assoc]
      | cons arg rest =>
        rw [hlast₂ (List.append_ne_nil_of_right_ne_nil _ (List.cons_ne_nil _ _))]
        simp only [List.map_append, List.map_nil, List.append_nil, List.nil_append,
          List.append_assoc]
  nodup := h₂.nodup

end ReadArguments

/-- The arguments of a call are read as they are spelled, with no name twice. -/
theorem reads_arguments (h : g.Faithful n) (fuel : Nat) (hts : ts.length < n)
    (hfuel : ts.length ≤ fuel) (a : Arguments) :
    Reads (a.named.map (·.name.lexeme)).Nodup ts (arguments g fuel a) (ReadArguments a) := by
  induction fuel generalizing ts a with
  | zero =>
    exact .proper fun hp => absurd (List.length_eq_zero_iff.1 (Nat.le_zero.1 hfuel)) hp.ne_nil
  | succ fuel ih =>
    -- Whatever the next argument is, a comma decides whether another one follows.
    have go : ∀ (taken rest : List Token) (a₁ : Arguments), ts = taken ++ rest →
        Reads (ReadArguments a taken a₁) rest
          (do if ← accept .comma then arguments g fuel a₁ else return a₁)
          fun taken' a₂ => ReadArguments a (taken ++ taken') a₂ := by
      intro taken rest a₁ hsplit
      have hlength : rest.length ≤ ts.length := by
        rw [hsplit, List.length_append]
        omega
      refine .acceptMark rfl (by decide) ?_ ?_
      · exact .pure fun hone => by rwa [List.append_nil]
      · rintro comma rest' rfl hcomma
        rw [List.length_cons] at hlength
        exact (ih (by omega) (by omega) a₁).frame (fun hone => hone.nodup)
          fun taken' a₂ hone hmore => hone.trans hcomma hmore
    refine .check (.peekNext ?_)
    split
    · next hnext =>
      obtain ⟨hname, hcolon⟩ := Bool.and_eq_true_iff.1 hnext
      obtain ⟨name, colon, rest, rfl⟩ :=
        exists_behind (of_decide_eq_true hname) (of_decide_eq_true hcolon) (by decide) (by decide)
      have hrest : rest.length < n := by
        simp only [List.length_cons] at hts
        omega
      have hnamed := reads_namedArgument h a.named (of_decide_eq_true hname)
        (of_decide_eq_true hcolon) hrest
      refine (hnamed.frame (fun _ => trivial) fun _ _ => And.intro).bind
        fun taken rest' arg hsplit => .known ?_
      exact (go taken rest' _ hsplit).weaken fun hone => .named hone.1 hone.2.1 hone.2.2
    · refine ((h.expression ts hts).frame (fun _ => trivial) fun _ _ => And.intro).bind
        fun taken rest arg hsplit => ?_
      have hgo := go taken rest { a with args := a.args ++ [arg] } hsplit
      split
      · next hfirst =>
        exact .known (hgo.weaken fun hone => .positional hone.1 hone.2 (List.isEmpty_iff.1 hfirst))
      · exact .complain _ _ (.known (hgo.weaken nofun))

/-- The rest of a call is read as it is spelled. -/
theorem reads_callRest (h : g.Faithful n) (hts : ts.length < n) {paren : Token}
    (hparen : Written [paren] fun _ => [.mark .leftParen]) (before : List Token) (callee : Expr) :
    Reads (ReadExpr 8 before callee) ts (callRest g callee)
      fun taken e => ReadExpr 8 (before ++ paren :: taken) e := by
  -- Behind arguments that were read, the closing parenthesis makes the call.
  have close : ∀ (taken rest : List Token) (a : Arguments), Reads
      (ReadExpr 8 before callee ∧ Expr.AllGrammatical True a.args ∧
        NamedArg.AllGrammatical True a.named ∧ (a.named.map (·.name.lexeme)).Nodup ∧
        Written taken fun ending =>
          Token.commas (Expr.spellEach ending a.args ++ NamedArg.spellEach ending a.named))
      rest
      (do
        let paren ← expect .rightParen .argumentsClose
        return Expr.call (← fresh) callee paren a.args a.named)
      fun taken' e => ReadExpr 8 (before ++ paren :: (taken ++ taken')) e := by
    intro taken rest a
    refine .expectKept (by decide) (by decide) fun close rest' _ hclose hkept =>
      .fresh fun id => .pure ?_
    rintro ⟨hcallee, hargs, hnamed, hnodup, hwritten⟩
    refine ⟨?_, ⟨hcallee.rank_eq, .inr hcallee.grammatical, hclose, hargs, hnamed, hnodup⟩,
      Nat.le_refl _⟩
    exact hcallee.written.append (hparen.append (hwritten.append hkept))
  refine .check ?_
  dsimp only
  split
  · exact .known ((close [] ts {}).weaken fun hcallee =>
      ⟨hcallee, trivial, trivial, .nil, .nil⟩)
  · -- With arguments: they were read behind none.
    refine .remaining ?_
    refine ((reads_arguments h _ hts (Nat.le_refl _) {}).frame (fun _ => .nil)
      fun _ _ => And.intro).bind fun taken rest a _ => ?_
    refine (close taken rest a).weaken ?_
    rintro ⟨hcallee, hread⟩
    obtain ⟨args, named, rfl, -, -, hargs, hnamed, hwritten⟩ := hread.written
    exact ⟨hcallee, hargs, hnamed, hread.nodup, hwritten⟩

/-- Calls and members behind an expression are read as they are spelled. -/
theorem reads_postfixes (h : g.Faithful n) (fuel : Nat) (hts : ts.length ≤ n)
    (before : List Token) (e : Expr) :
    Reads (ReadExpr 8 before e) ts (postfixes g fuel e)
      fun taken e' => ReadExpr 8 (before ++ taken) e' := by
  induction fuel generalizing ts before e with
  | zero => exact .pure fun he => by rwa [List.append_nil]
  | succ fuel ih =>
    refine .proper fun hp => .peek (.previous fun last => ?_)
    split
    · next hopen =>
      -- A parenthesis on the same line opens a call.
      have hkind := of_decide_eq_true (Bool.and_eq_true_iff.1 hopen).1
      obtain ⟨paren, rest, rfl⟩ := Reads.exists_cons_of_head hkind (by decide)
      replace hkind : paren.kind = .leftParen := hkind
      have hparen : Written [paren] fun _ => [.mark .leftParen] :=
        .mark (hp.regular paren List.mem_cons_self) hkind rfl (by decide)
      rw [List.length_cons] at hts
      refine .advance (by rw [hkind]; decide) ?_
      refine (reads_callRest h hts hparen before e).bind fun taken rest' call hsplit => ?_
      rw [hsplit, List.length_append] at hts
      refine (ih (by omega) (before ++ paren :: taken) call).mono fun taken' e' he' => ?_
      simpa using he'
    · refine .acceptMark rfl (by decide) (.pure fun he => by rwa [List.append_nil]) ?_
      -- A dot and a name make a member.
      rintro dot rest rfl hdot
      refine .expectKept (by decide) (by decide) ?_
      rintro name rest' rfl hname hkept
      simp only [List.length_cons] at hts
      refine .fresh fun id => (ih (by omega) (before ++ [dot, name]) (.get id e name)).frame
        (fun he => ⟨?_, ⟨he.rank_eq, he.grammatical, hname⟩, Nat.le_refl _⟩) fun taken e' _ he' => ?_
      · exact he.written.append (hdot.append hkept)
      · simpa using he'

/-! ### Functions and blocks -/

/-- An expression that is there but may have been left out. -/
theorem reads_some {x : Parser Expr} {r : Nat} (h : Reads True ts x (ReadExpr r)) :
    Reads True ts (some <$> x) fun taken v => ∃ e, v = some e ∧ ReadExpr r taken e :=
  h.map fun _ e he => ⟨e, rfl, he⟩

/-- The parameters so far may stand in front of another one if the last of them may. -/
theorem Param.precedes_of_last {prior : List Param} {last p : Param}
    (hprior : prior.Pairwise Param.Precedes) (hlast : prior.getLast? = some last)
    (hvariadic : last.variadic = false)
    (hdefault : last.defaultValue.isSome → p.defaultValue.isSome ∨ p.variadic)
    (hname : ∀ q ∈ prior, q.name.lexeme ≠ p.name.lexeme) : ∀ q ∈ prior, q.Precedes p := by
  obtain ⟨front, rfl⟩ := List.getLast?_eq_some_iff.1 hlast
  obtain ⟨-, -, hfront⟩ := List.pairwise_append.1 hprior
  intro q hq
  rcases List.mem_append.1 hq with hfirst | hq'
  · obtain ⟨hq₁, hq₂, -⟩ := hfront q hfirst last (List.mem_singleton_self last)
    refine ⟨hq₁, fun hsome => hdefault ?_, hname q hq⟩
    -- A variadic parameter is not followed by another one.
    exact (hq₂ hsome).resolve_right (by rw [hvariadic]; exact Bool.false_ne_true)
  · rw [List.mem_singleton.1 hq'] at hq ⊢
    exact ⟨hvariadic, hdefault, hname last hq⟩

/-- A parameter was read from tokens behind others. -/
structure ReadParam (prior : List Param) (taken : List Token) (p : Param) : Prop where
  /-- The parameter spells the tokens. -/
  written : Written taken fun ending => p.spell ending
  /-- The parameter is one of the grammar. -/
  grammatical : p.Grammatical True
  /-- The parameters so far may stand in front of it. -/
  precedes : ∀ q ∈ prior, q.Precedes p

/-- The checks of a parameter behind its last token. -/
def parameterChecked (prior : List Param) (p : Param) : Parser Param := do
  if let some last := prior.getLast? then
    if last.variadic then complain p.name .variadicNotLast
    if last.defaultValue.isSome && p.defaultValue.isNone && !p.variadic then
      complain p.name .requiredAfterDefault
  if p.variadic && p.defaultValue.isSome then complain p.name .variadicDefault
  for other in prior do
    if other.name.lexeme = p.name.lexeme then complain p.name (.duplicateParam p.name.lexeme)
  return p

/-- A parameter behind its type and dots. -/
def parameterNamed (g : Nested) (prior : List Param) (type : Token) (variadic : Bool) :
    Parser Param := do
  let name ← expect .identifier .paramName
  let defaultValue ← if ← accept .equal then some <$> g.expression else pure none
  parameterChecked prior { type, name, defaultValue, variadic }

/-- A parameter starts with its type, if there is one; the rest is `parameterNamed`. -/
theorem parameter_eq (g : Nested) (prior : List Param) :
    parameter g prior = (do
      let next := (← peekNext).kind
      let typed := (← check .identifier) && (next = .identifier || next = .ellipsis)
      let type ← if typed then advance else pure (.synthetic "Object")
      parameterNamed g prior type (← accept .ellipsis)) := rfl

/-- A parameter that passes its checks may stand behind the others. -/
theorem reads_parameterChecked (prior : List Param) (before : List Token) (p : Param) :
    Reads (prior.Pairwise Param.Precedes ∧ (Written before fun ending => p.spell ending) ∧
        ((p.variadic && p.defaultValue.isSome) = false → p.Grammatical True))
      ts (parameterChecked prior p) fun taken p' => ReadParam prior (before ++ taken) p' := by
  unfold parameterChecked
  dsimp only
  split
  · next last hlast =>
    -- Where no complaint was made, all checks against the last parameter passed.
    refine .complainIf _ _ _ (.complainIf _ _ _ (.complainIf _ _ _ (.complaints prior _ _ _ ?_)))
    refine .pure ?_
    rintro ⟨⟨⟨⟨⟨hprior, hwritten, hgrammatical⟩, hvariadic⟩, hdefault⟩, hboth⟩, hnames⟩
    rw [List.append_nil]
    refine ⟨hwritten, hgrammatical (Bool.eq_false_iff.2 hboth), ?_⟩
    refine Param.precedes_of_last hprior hlast (Bool.eq_false_iff.2 hvariadic) ?_ hnames
    intro hsome
    cases hvalue : p.defaultValue with
    | some e => exact .inl rfl
    | none => exact .inr (by simpa [hsome, hvalue] using hdefault)
  · next hnone =>
    -- The first parameter is preceded by none.
    refine .complainIf _ _ _ (.complaints prior _ _ _ (.pure ?_))
    rintro ⟨⟨⟨-, hwritten, hgrammatical⟩, hboth⟩, -⟩
    rw [List.append_nil]
    refine ⟨hwritten, hgrammatical (Bool.eq_false_iff.2 hboth), ?_⟩
    rw [List.getLast?_eq_none_iff.1 (Option.eq_none_iff_forall_ne_some.2 hnone)]
    exact nofun

/-- A parameter is read as it is spelled behind its type. -/
theorem reads_parameterNamed (h : g.Faithful n) (hts : ts.length < n) (prior : List Param)
    {type : Token} {variadic : Bool} {before : List Token} (hkind : type.kind = .identifier)
    (himplied : type.isImplied → type = .synthetic "Object")
    (hbefore : Written before fun _ => (if type.isImplied then [] else [type])
      ++ if variadic then [.mark .ellipsis] else []) :
    Reads (prior.Pairwise Param.Precedes) ts (parameterNamed g prior type variadic)
      fun taken p => ReadParam prior (before ++ taken) p := by
  refine .expectKept (by decide) (by decide) ?_
  rintro name rest rfl hname hkept
  refine .acceptMark rfl (by decide) (.known ?_) ?_
  · -- No default.
    refine (reads_parameterChecked prior (before ++ [name])
      { type, name, defaultValue := none, variadic }).frame (fun hprior =>
        ⟨hprior, hbefore.append hkept, fun _ => ⟨hkind, himplied, hname⟩⟩) fun taken p _ hread => ?_
    simpa using hread
  · rintro equal rest' rfl hequal
    -- An equals sign and the default.
    simp only [List.length_cons] at hts
    refine ((reads_some (h.expression rest' (by omega))).frame (fun _ => trivial)
      fun _ _ => And.intro).bind fun taken _ value _ => ?_
    refine (reads_parameterChecked prior (before ++ name :: equal :: taken)
      { type, name, defaultValue := value, variadic }).frame ?_ fun taken' p _ hread => ?_
    · rintro ⟨hprior, e, rfl, he⟩
      refine ⟨hprior, hbefore.append (hkept.append (hequal.append he.written)), fun hboth => ?_⟩
      exact ⟨hkind, himplied, hname, by simpa using hboth, he.grammatical⟩
    · simpa using hread

/-- A parameter is read as it is spelled. -/
theorem reads_parameter (h : g.Faithful n) (hts : ts.length < n) (prior : List Param) :
    Reads (prior.Pairwise Param.Precedes) ts (parameter g prior) (ReadParam prior) := by
  -- Behind a type, or none, there may be dots.
  have dotted : ∀ (before rest : List Token) (type : Token), ts = before ++ rest →
      type.kind = .identifier → (type.isImplied → type = .synthetic "Object") →
      (Written before fun _ => if type.isImplied then [] else [type]) →
      Reads (prior.Pairwise Param.Precedes) rest
        (do parameterNamed g prior type (← accept .ellipsis))
        fun taken p => ReadParam prior (before ++ taken) p := by
    intro before rest type hsplit hkind himplied htype
    rw [hsplit, List.length_append] at hts
    refine .acceptMark rfl (by decide) ?_ ?_
    · exact reads_parameterNamed h (by omega) prior hkind himplied
        (htype.congr fun _ => (List.append_nil _).symm)
    · rintro dots rest' rfl hdots
      rw [List.length_cons] at hts
      refine (reads_parameterNamed h (by omega) prior hkind himplied
        (htype.append hdots)).mono fun taken p hread => ?_
      simpa using hread
  rw [parameter_eq]
  refine .proper fun hp => .peekNext (.check ?_)
  dsimp only
  split
  · next htyped =>
    -- A name in front of another one, or of dots, is a type of the source, which has a line.
    have hkind := of_decide_eq_true (Bool.and_eq_true_iff.1 htyped).1
    obtain ⟨type, rest, rfl⟩ := Reads.exists_cons_of_head hkind (by decide)
    replace hkind : type.kind = .identifier := hkind
    have hwritten : type.isImplied = false := by
      have hline := (hp.regular type List.mem_cons_self).line
      simp [Token.isImplied, hline]
    refine .advance (by rw [hkind]; decide) ?_
    refine dotted [type] rest type rfl hkind (by rw [hwritten]; exact nofun) ?_
    rw [hwritten]
    exact .token (by rw [hkind]; decide)
  · exact .known (dotted [] ts (.synthetic "Object") rfl rfl (fun _ => rfl) .nil)

/-- The parameters of a function are read as they are spelled, each behind those that may precede
it. -/
theorem reads_parameters (h : g.Faithful n) (fuel : Nat) (hts : ts.length < n)
    (hfuel : ts.length ≤ fuel) (params : List Param) :
    Reads (params.Pairwise Param.Precedes) ts (parameters g fuel params) fun taken all =>
      ReadRow (Param.Grammatical True) Param.spell params taken all ∧
        all.Pairwise Param.Precedes := by
  induction fuel generalizing ts params with
  | zero =>
    -- The mark of the end is left, so there is fuel.
    exact .proper fun hp => absurd (List.length_eq_zero_iff.1 (Nat.le_zero.1 hfuel)) hp.ne_nil
  | succ fuel ih =>
    refine ((reads_parameter h hts params).frame id fun _ _ => And.intro).bind
      fun taken rest p hsplit => ?_
    rw [hsplit, List.length_append] at hts hfuel
    refine (ReadRow.reads_more (List.Pairwise Param.Precedes) params taken
      fun rest' hrest' => ih (by omega) (by omega) _).weaken ?_
    -- The new parameter may stand behind all that were read.
    rintro ⟨hprior, hp⟩
    refine ⟨.single hp.grammatical hp.written, List.pairwise_append.2 ⟨hprior, ?_, ?_⟩⟩
    · exact List.pairwise_singleton _ _
    · intro q hq p' hp'
      rw [List.mem_singleton.1 hp']
      exact hp.precedes q hq

/-- Declarations up to a closing brace, with the semicolons behind them. -/
theorem reads_declarations (h : g.Faithful n) (fuel : Nat) (hts : ts.length < n)
    (body : List Stmt) :
    Reads True ts (declarations g fuel body) fun taken all => ∃ new, all = body ++ new ∧
      Stmt.AllGrammatical True new ∧ Written taken fun ending => Stmt.spellAll ending new := by
  -- On the fuel; every declaration takes a token, so what is left is shorter.
  induction fuel generalizing ts body with
  | zero => exact .pure fun _ => ⟨[], (List.append_nil _).symm, trivial, .nil⟩
  | succ fuel ih =>
    refine .check (.atEnd ?_)
    split
    · exact .pure fun _ => ⟨[], (List.append_nil _).symm, trivial, .nil⟩
    · refine (h.declaration ts hts).bind fun taken rest s hsplit => ?_
      rw [hsplit, List.length_append] at hts
      refine (ih (by omega) (body ++ [s])).frame (fun _ => trivial) ?_
      rintro taken' all ⟨hwritten, hs⟩ ⟨new, rfl, hnew, hwritten'⟩
      exact ⟨s :: new, by rw [List.append_assoc, List.singleton_append], ⟨hs, hnew⟩,
        hwritten.append hwritten'⟩

/-- A block was read from tokens. -/
structure ReadBlock (taken : List Token) (b : Block) : Prop where
  /-- The block spells the tokens. -/
  written : Written taken fun ending => b.spell ending
  /-- So it does if its brace is not kept. -/
  unkept : Written taken fun ending =>
    .mark .leftBrace :: (Stmt.spellAll ending b.body ++ [.mark .rightBrace])
  /-- The block is one of the grammar. -/
  grammatical : b.Grammatical True

/-- A block is read as it is spelled. -/
theorem reads_block (h : g.Faithful n) (hts : ts.length ≤ n) :
    Reads True ts (block g) ReadBlock := by
  refine .proper fun hp => .expectKept (by decide) (by decide) ?_
  rintro brace rest rfl hbrace hkept
  refine .remaining ((reads_declarations h _ hts []).bind fun taken rest' body _ => ?_)
  refine .expectMark rfl (by decide) fun close _ _ hclose => .fresh fun id => .pure ?_
  rintro ⟨new, rfl, hnew, hwritten⟩
  have hmark : Written [brace] fun _ => [.mark .leftBrace] :=
    .mark (hp.regular brace List.mem_cons_self) hbrace rfl (by decide)
  exact ⟨hkept.append (hwritten.append hclose), hmark.append (hwritten.append hclose), hbrace, hnew⟩

/-- The parameters and the body of a function were read, behind the tokens that it starts with. -/
structure ReadLambda (keyword : Token) (name : Option Token) (taken : List Token) (fn : Lambda) :
    Prop where
  /-- The function starts with the word or name that was given. -/
  keyword_eq : fn.keyword = keyword
  /-- The function has the name that was given. -/
  name_eq : fn.name = name
  /-- The function is one of the grammar. -/
  grammatical : fn.Grammatical True
  /-- The function spells what it starts with and the tokens. -/
  written : ∀ before, (Written before fun _ =>
      (if keyword.kind = .funWord then [keyword] else []) ++ name.toList) →
    Written (before ++ taken) fun ending => fn.spell ending

/-- The parameters and the body of a function are read as they are spelled. -/
theorem reads_lambdaRest (h : g.Faithful n) (hts : ts.length ≤ n) (keyword : Token)
    (name : Option Token) :
    Reads True ts (lambdaRest g keyword name) (ReadLambda keyword name) := by
  refine .expectMark rfl (by decide) ?_
  rintro opening rest rfl hopening
  rw [List.length_cons] at hts
  -- Behind parameters that were read, the body makes the function.
  have finish : ∀ (taken rest' : List Token) (params : List Param), rest = taken ++ rest' → Reads
      (params.Pairwise Param.Precedes ∧ Param.AllGrammatical True params ∧
        Written taken fun ending => Token.commas (Param.spellEach ending params)) rest'
      (do
        let _ ← expect .rightParen .paramsClose
        let body ← block g
        return (⟨← fresh, keyword, name, params, body.body⟩ : Lambda))
      fun taken' fn => ReadLambda keyword name (opening :: (taken ++ taken')) fn := by
    intro taken rest' params hsplit
    rw [hsplit, List.length_append] at hts
    refine .expectMark rfl (by decide) ?_
    rintro closing rest'' rfl hclosing
    rw [List.length_cons] at hts
    refine ((reads_block h (by omega)).frame (fun _ => trivial) fun _ _ => And.intro).bind
      fun taken' _ body _ => .fresh fun id => .pure ?_
    obtain ⟨_, brace, body⟩ := body
    rintro ⟨⟨hpairs, hparams, hwritten⟩, hbody⟩
    refine ⟨rfl, rfl, ⟨hpairs, hparams, hbody.grammatical.2⟩, fun before hbefore => ?_⟩
    rw [List.append_nil]
    exact hbefore.append (hopening.append (hwritten.append (hclosing.append hbody.unkept)))
  refine .check ?_
  dsimp only
  split
  · exact .known ((finish [] rest [] rfl).weaken fun _ => ⟨.nil, trivial, .nil⟩)
  · refine .remaining ((reads_parameters h _ (by omega) (Nat.le_refl _) []).weaken
      (fun _ => .nil) |>.bind fun taken rest' params hsplit => ?_)
    refine (finish taken rest' params hsplit).weaken ?_
    rintro ⟨⟨new, rfl, -, hnew, hwritten⟩, hpairs⟩
    refine ⟨hpairs, (Param.allGrammatical_iff True).2 hnew, hwritten.congr fun ending => ?_⟩
    exact congrArg Token.commas (Param.spellEach_eq_map ending _).symm

/-! ### Expressions without operators between them -/

/-- The elements of a list are read as they are spelled. -/
theorem reads_elements (h : g.Faithful n) (fuel : Nat) (hts : ts.length < n)
    (hfuel : ts.length ≤ fuel) (es : List Expr) :
    Reads True ts (elements g fuel es) fun taken all =>
      ReadRow (Expr.Grammatical True) Expr.spell es taken all ∧ True := by
  induction fuel generalizing ts es with
  | zero =>
    exact .proper fun hp => absurd (List.length_eq_zero_iff.1 (Nat.le_zero.1 hfuel)) hp.ne_nil
  | succ fuel ih =>
    refine (h.expression ts hts).bind fun taken rest e hsplit => ?_
    rw [hsplit, List.length_append] at hts hfuel
    refine (ReadRow.reads_more (fun _ => True) es taken
      fun rest' hrest' => ih (by omega) (by omega) _).weaken fun he => ?_
    exact ⟨.single he.grammatical he.written, trivial⟩

/-- The use of a superclass is read as it is spelled. -/
theorem reads_superRest {keyword : Token} (hkeyword : keyword.kind = .superWord) :
    Reads True ts (superRest keyword) fun taken e => ReadExpr 8 (keyword :: taken) e := by
  have hkept : Written [keyword] fun _ => [keyword] := .token (by rw [hkeyword]; decide)
  refine .acceptMark rfl (by decide) ?_ ?_
  · -- Behind the keyword is a parenthesis, which stays for the call, or a dot and a name.
    refine .check ?_
    split
    · exact .fresh fun id => .pure fun _ => ⟨hkept, ⟨trivial, hkeyword⟩, Nat.le_refl _⟩
    · exact .peek (.fail_last _ _)
  · rintro dot rest rfl hdot
    refine .expectKept (by decide) (by decide) ?_
    rintro method rest' rfl hmethod hname
    exact .fresh fun id => .pure fun _ =>
      ⟨hkept.append (hdot.append hname), ⟨hkeyword, hmethod⟩, Nat.le_refl _⟩

/-- A constant is neither the mark of the end nor a semicolon. -/
theorem ne_of_constant? {t : Token} {value : Literal} (h : constant? t = some value) :
    t.kind ≠ .eof ∧ t.kind ≠ .semicolon := by
  constructor <;>
  · intro hkind
    rw [constant?, hkind] at h
    cases h

/-- The smallest expressions are read as they are spelled. -/
theorem reads_primary (h : g.Faithful n) (hts : ts.length ≤ n) :
    Reads True ts (primary g) (ReadExpr 8) := by
  refine .peek ?_
  split
  · next value hvalue =>
    -- A constant.
    have hne := ne_of_constant? hvalue
    obtain ⟨t, rest, rfl⟩ := Reads.exists_cons_of_head rfl hne.1
    exact .advance hne.1 (.fresh fun id => .pure fun _ => ⟨.token hne.2, hvalue, Nat.le_refl _⟩)
  · split
    · next hkind =>
      -- A name, and then the receiver.
      refine .advance_of_head hkind (by decide) (by decide) fun t _ hts ht hkept => ?_
      subst hts
      exact .fresh fun id => .pure fun _ => ⟨hkept, ht, Nat.le_refl _⟩
    · next hkind =>
      refine .advance_of_head hkind (by decide) (by decide) fun t _ hts ht hkept => ?_
      subst hts
      exact .fresh fun id => .pure fun _ => ⟨hkept, ht, Nat.le_refl _⟩
    · next hkind =>
      -- The superclasses.
      refine .advance_of_head hkind (by decide) (by decide) fun t _ hts ht _ => ?_
      subst hts
      exact reads_superRest ht
    · next hkind =>
      -- A function without a name, which keeps its word.
      refine .advance_of_head hkind (by decide) (by decide) fun t _ heq ht hkept => ?_
      subst heq
      refine (reads_lambdaRest h (Nat.le_of_succ_le hts) t none).bind
        fun taken _ fn _ => .pure fun hfn => ?_
      rw [List.append_nil]
      refine ⟨hfn.written [t] ?_, ⟨hfn.keyword_eq ▸ ht, hfn.name_eq, hfn.grammatical⟩,
        Nat.le_refl _⟩
      rw [if_pos ht]
      exact hkept
    · next hkind =>
      -- An expression in parentheses.
      refine .advance_of_head hkind (by decide) (by decide) fun t rest heq ht hkept => ?_
      subst heq
      refine (h.expression rest hts).bind fun taken rest' inner _ => ?_
      refine .expectMark rfl (by decide) fun close _ _ hclose => .fresh fun id => .pure fun hi => ?_
      exact ⟨hkept.append (hi.written.append hclose), ⟨ht, hi.grammatical⟩, Nat.le_refl _⟩
    · next hkind =>
      -- A list: behind elements that were read, the bracket closes it.
      refine .advance_of_head hkind (by decide) (by decide) fun t rest heq ht hkept => ?_
      subst heq
      have finish : ∀ (taken rest' : List Token) (es : List Expr), Reads
          (Expr.AllGrammatical True es ∧
            Written taken fun ending => Token.commas (Expr.spellEach ending es)) rest'
          (do
            let _ ← expect .rightBracket .listClose
            return Expr.list (← fresh) t es)
          fun taken' e => ReadExpr 8 (t :: (taken ++ taken')) e := by
        intro taken rest' es
        refine .expectMark rfl (by decide) fun close _ _ hclose =>
          .fresh fun id => .pure fun hes => ?_
        exact ⟨hkept.append (hes.2.append hclose), ⟨ht, hes.1⟩, Nat.le_refl _⟩
      refine .check ?_
      dsimp only
      split
      · exact .known ((finish [] rest []).weaken fun _ => ⟨trivial, .nil⟩)
      · refine .remaining ((reads_elements h _ hts (Nat.le_refl _) []).bind
          fun taken rest' es _ => (finish taken rest' es).weaken ?_)
        rintro ⟨⟨new, rfl, -, hnew, hwritten⟩, -⟩
        refine ⟨(Expr.allGrammatical_iff True).2 hnew, hwritten.congr fun ending => ?_⟩
        exact congrArg Token.commas (Expr.spellEach_eq_map ending _).symm
    · exact .fail_last _ _

/-- So are expressions with calls and members behind them. -/
theorem reads_call (h : g.Faithful n) (hts : ts.length ≤ n) :
    Reads True ts (call g) (ReadExpr 8) := by
  refine (reads_primary h hts).bind fun taken rest e hsplit => .remaining ?_
  rw [hsplit, List.length_append] at hts
  exact reads_postfixes h _ (by omega) taken e

/-- So are expressions with operators in front of an operand. -/
theorem reads_unary (h : g.Faithful n) (fuel : Nat) (hts : ts.length ≤ n) :
    Reads True ts (unary g fuel) (ReadExpr 7) := by
  -- Without an operator there is an expression at the level of calls.
  have hcall : ∀ ts : List Token, ts.length ≤ n → Reads True ts (call g) (ReadExpr 7) :=
    fun ts hts => (reads_call h hts).mono fun _ _ he =>
      ⟨he.written, he.grammatical, Nat.le_of_succ_le he.rank⟩
  induction fuel generalizing ts with
  | zero => exact hcall ts hts
  | succ fuel ih =>
    refine .accept? (by decide) (hcall ts hts) ?_
    rintro op rest rfl hop
    have hop' : op.kind = .bang ∨ op.kind = .minus := by simpa using hop
    have hkept : Written [op] fun _ => [op] :=
      .token (by rcases hop' with h | h <;> rw [h] <;> decide)
    refine (ih (Nat.le_of_succ_le hts)).bind fun taken _ right _ =>
      .fresh fun id => .pure fun hr => ?_
    rw [List.append_nil]
    exact ⟨hkept.append hr.written, ⟨hop', hr.rank, hr.grammatical⟩, Nat.le_refl _⟩

/-- So are expressions with operators between operands. -/
theorem reads_operation (h : g.Faithful n) (hts : ts.length ≤ n) :
    Reads True ts (operation g) (ReadExpr 1) := by
  have hunary : ∀ ts : List Token, ts.length ≤ n →
      Reads True ts (do unary g (← remaining)) (ReadExpr 7) :=
    fun ts hts => .remaining (reads_unary h _ hts)
  have hproduct := reads_binary .product hunary
  have hsum := reads_binary .sum hproduct
  have hcomparison := reads_binary .comparison hsum
  have hequality := reads_binary .equality hcomparison
  have hconjunction := reads_binary .conjunction hequality
  exact reads_binary .disjunction hconjunction ts hts

/-- A target spells what stands on the left side of its assignment. -/
theorem ReadExpr.assignment? {before taken : List Token} {target value e : Expr} {equal : Token}
    {id : NodeId} {r : Nat} (htarget : ReadExpr r before target)
    (hequal : Written [equal] fun _ => [.mark .equal]) (hvalue : ReadExpr 0 taken value)
    (he : Parse.assignment? id value target = some e) : ReadExpr 0 (before ++ equal :: taken) e := by
  have hwritten := htarget.written.append (hequal.append hvalue.written)
  unfold Parse.assignment? at he
  split at he
  · cases he
    exact ⟨hwritten, ⟨htarget.grammatical, hvalue.grammatical⟩, Nat.zero_le _⟩
  · cases he
    obtain ⟨hrank, hobject, hname⟩ := htarget.grammatical
    exact ⟨hwritten.congr fun _ => by simp [Expr.spell],
      ⟨hrank, hobject, hname, hvalue.grammatical⟩, Nat.zero_le _⟩
  · cases he

/-- So are assignments. -/
theorem reads_assignment (h : g.Faithful n) (fuel : Nat) (hts : ts.length ≤ n) :
    Reads True ts (assignment g fuel) (ReadExpr 0) := by
  have loose : ∀ taken e, ReadExpr 1 taken e → ReadExpr 0 taken e := fun _ _ he =>
    ⟨he.written, he.grammatical, Nat.zero_le _⟩
  induction fuel generalizing ts with
  | zero => exact (reads_operation h hts).mono loose
  | succ fuel ih =>
    refine (reads_operation h hts).bind fun before rest target hsplit => ?_
    rw [hsplit, List.length_append] at hts
    refine .proper fun hp => .accept? (by decide) ?_ ?_
    · exact .pure fun ht => loose _ _ (by rwa [List.append_nil])
    · -- The equals sign is the only lexeme of its kind, so the tree need not keep it.
      rintro equal rest' rfl hequal
      have hmark : Written [equal] fun _ => [.mark .equal] :=
        .mark (hp.regular equal List.mem_cons_self) (List.mem_singleton.1 hequal) rfl (by decide)
      rw [List.length_cons] at hts
      refine ((ih (by omega)).frame (fun _ => trivial) fun _ _ => And.intro).bind
        fun taken _ value _ => .fresh fun id => ?_
      -- A target that cannot be assigned is complained of.
      split
      · next he =>
        exact .pure fun hboth => by
          rw [List.append_nil]
          exact hboth.1.assignment? hmark hboth.2 he
      · exact .complain _ _ (.pure nofun)

/-- Expressions are read as they are spelled. -/
theorem reads_expression (h : g.Faithful n) (hts : ts.length ≤ n) :
    Reads True ts (expression g) (ReadExpr 0) :=
  .remaining (reads_assignment h _ hts)

end Parse

end ClassScript
