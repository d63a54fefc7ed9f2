import ClassScript.Proofs.Parse.Complete.Blocks

/-!
# Expressions are accepted

A loop over operators, calls or members takes apart from the left what the tree nests to the left,
so the claim about it is one about everything behind the left operand: `Resumes` says that what is
behind an expression is accepted, from wherever the expression was made.
-/

namespace ClassScript

namespace Parse

variable {g : Nested} {line n : Nat} {ending : Endings} {behind : Bool} {xs ys : List Token}
  {F : Token.Kind → Prop}

/-! ### Calls and members -/

/-- The tokens of an argument of a call, positional or named. -/
def spellArgument (ending : Endings) : Expr ⊕ NamedArg → List Token
  | .inl e => e.spell ending
  | .inr arg => arg.name :: .mark .colon :: arg.value.spell ending

/-- The arguments of a call are spelled positional ones first. -/
theorem map_spellArgument (ending : Endings) (args : List Expr) (named : List NamedArg) :
    (args.map Sum.inl ++ named.map Sum.inr).map (spellArgument ending) =
      Expr.spellEach ending args ++ NamedArg.spellEach ending named := by
  rw [Expr.spellEach_eq_map, NamedArg.spellEach_eq_map, List.map_append, List.map_map,
    List.map_map]
  rfl

/-- A named argument with a new name is accepted. -/
theorem accepts_namedArgument (h : g.Complete line ending n) {prior : List NamedArg}
    {arg : NamedArg} (hname : arg.name.kind = .identifier) (hvalue : arg.value.Grammatical False)
    (hlength : (spellArgument ending (.inr arg)).length ≤ n)
    (hnew : ∀ other ∈ prior, other.name.lexeme ≠ arg.name.lexeme) :
    Accepts line behind (namedArgument g prior) (spellArgument ending (.inr arg)) AfterItem
      (·.unplaced = arg.unplaced) := by
  simp only [spellArgument, List.length_cons] at hlength
  refine .advance (by rw [hname]; decide) fun name hn => .advance (by decide) fun _ _ => ?_
  have hnew' : ∀ other ∈ prior, ¬other.name.lexeme = name.lexeme := by
    rw [hn.lexeme]
    exact hnew
  rw [complaints_eq _ _ hnew']
  refine (h.expression arg.value true hvalue (Nat.zero_le _) (by omega)).bind_nil
    (fun _ => AfterItem.stops) fun value b hv _ => .pure ?_
  rw [NamedArg.unplaced, NamedArg.unplaced, hn.1, hv]

/-- One argument of a call. -/
def argument (g : Nested) (a : Arguments) : Parser Arguments := do
  if (← check .identifier) && (← peekNext).kind = .colon then
    return { a with named := a.named ++ [← namedArgument g a.named] }
  else
    let arg ← g.expression
    unless a.named.isEmpty do complain arg.token .positionalAfterNamed
    return { a with args := a.args ++ [arg] }

/-- The arguments of a call are one argument, and others behind a comma. -/
theorem arguments_succ (g : Nested) (fuel : Nat) (a : Arguments) :
    arguments g (fuel + 1) a = (do
      let a' ← argument g a
      if ← accept .comma then arguments g fuel a' else return a') := by
  rw [arguments, argument]
  simp only [bind_assoc, pure_bind]
  refine bind_congr fun named => bind_congr fun next => ?_
  by_cases hnamed : (named && decide (next.kind = .colon)) = true
  · simp only [if_pos hnamed, bind_assoc, pure_bind]
  · simp only [if_neg hnamed, bind_assoc]
    refine bind_congr fun arg => ?_
    by_cases hfirst : a.named.isEmpty = true
    · simp only [if_pos hfirst, pure_bind]
    · simp only [if_neg hfirst, bind_assoc, pure_bind]

/-- A positional argument is accepted where no named one came before. -/
theorem accepts_argument_positional (h : g.Complete line ending n) {a : Arguments} {e : Expr}
    (he : e.Grammatical False) (hlength : (e.spell ending).length < n) (hfirst : a.named = []) :
    Accepts line behind (argument g a) (e.spell ending) AfterItem fun a' =>
      a'.args.map Expr.unplaced = (a.args ++ [e]).map Expr.unplaced ∧ a'.named = [] := by
  -- As a positional argument the expression is accepted.
  have positional : Accepts line behind
      (do
        let arg ← g.expression
        unless a.named.isEmpty do complain arg.token .positionalAfterNamed
        return { a with args := a.args ++ [arg] })
      (e.spell ending) AfterItem fun a' =>
        a'.args.map Expr.unplaced = (a.args ++ [e]).map Expr.unplaced ∧ a'.named = [] := by
    refine (h.expression e behind he (Nat.zero_le _) hlength).bind_nil
      (fun _ => AfterItem.stops) fun e' b he' _ => ?_
    rw [hfirst]
    refine .pure ⟨?_, rfl⟩
    simp only [List.map_append, List.map_singleton, he']
  -- It is not taken for a named one: behind a name that it begins with there is no colon.
  obtain ⟨x, xs, hx, -, -, hcolon, -⟩ := opens_expr ending e (.inr he)
  rw [hx] at positional ⊢
  refine .check (decide (x.kind = .identifier)) (by rintro _ rfl; rfl) (.peekNext fun t ht => ?_)
  have hplain : ¬(decide (x.kind = .identifier) && decide (t.kind = .colon)) = true := by
    rw [Bool.and_eq_true_iff, decide_eq_true_iff, decide_eq_true_iff]
    refine fun hboth => hcolon hboth.1 _ (ht.mono ?_) hboth.2
    rintro (hk | hk) <;> rw [hk] <;> decide
  rwa [if_neg hplain]

/-- A named argument is accepted behind any others. -/
theorem accepts_argument_named (h : g.Complete line ending n) {a : Arguments} {arg : NamedArg}
    (hname : arg.name.kind = .identifier) (hvalue : arg.value.Grammatical False)
    (hlength : (spellArgument ending (.inr arg)).length ≤ n)
    (hnew : ∀ other ∈ a.named, other.name.lexeme ≠ arg.name.lexeme) :
    Accepts line behind (argument g a) (spellArgument ending (.inr arg)) AfterItem fun a' =>
      a'.args = a.args ∧
        a'.named.map NamedArg.unplaced = (a.named ++ [arg]).map NamedArg.unplaced := by
  refine .check true (by rintro _ rfl; exact decide_eq_true hname) (.peekNext ?_)
  rintro t (ht : t.kind = .colon)
  rw [if_pos (by rw [ht]; rfl)]
  exact (accepts_namedArgument h hname hvalue hlength hnew).bind_nil (fun _ => id)
    fun arg' b harg _ => .pure ⟨rfl, by simp only [List.map_append, List.map_singleton, harg]⟩

/-- The arguments that a call has and those that are left are those that were spelled. Behind a
named argument only named ones are left. -/
def ArgumentsLeft (args : List Expr) (named : List NamedArg) (items : List (Expr ⊕ NamedArg))
    (a : Arguments) : Prop :=
  ∃ args' named', items = args'.map Sum.inl ++ named'.map Sum.inr ∧
    (a.named = [] ∨ args' = []) ∧ (a.args ++ args').map Expr.unplaced = args.map Expr.unplaced ∧
    (a.named ++ named').map NamedArg.unplaced = named.map NamedArg.unplaced

namespace ArgumentsLeft

variable {args : List Expr} {named : List NamedArg} {rest : List (Expr ⊕ NamedArg)} {a : Arguments}

/-- A positional argument leaves one fewer of those that were spelled. -/
theorem accepts_positional (h : g.Complete line ending n) {e : Expr} (he : e.Grammatical False)
    (hlength : (e.spell ending).length < n) (hleft : ArgumentsLeft args named (.inl e :: rest) a) :
    Accepts line behind (argument g a) (e.spell ending) AfterItem
      (ArgumentsLeft args named rest) := by
  obtain ⟨_ | ⟨e', args'⟩, named', hitems, hfirst, hall, hallNamed⟩ := hleft
  · cases named' <;> cases hitems
  · obtain ⟨⟨rfl⟩, rfl⟩ := List.cons.inj hitems
    have hnil := hfirst.resolve_right (List.cons_ne_nil _ _)
    refine (accepts_argument_positional h he hlength hnil).mono (fun _ => id) ?_
    rintro a' ⟨hargs', hnamed'⟩
    refine ⟨args', named', rfl, .inl hnamed', ?_, by rw [hnamed', ← hallNamed, hnil]⟩
    rw [← hall, List.map_append, hargs', ← List.map_append, List.append_assoc,
      List.singleton_append]

/-- A named argument leaves one fewer of those that were spelled. -/
theorem accepts_named (h : g.Complete line ending n) (hnames : (named.map (·.name.lexeme)).Nodup)
    {arg : NamedArg} (hname : arg.name.kind = .identifier) (hvalue : arg.value.Grammatical False)
    (hlength : (spellArgument ending (.inr arg)).length ≤ n)
    (hleft : ArgumentsLeft args named (.inr arg :: rest) a) :
    Accepts line behind (argument g a) (spellArgument ending (.inr arg)) AfterItem
      (ArgumentsLeft args named rest) := by
  obtain ⟨_ | ⟨e, args'⟩, _ | ⟨arg', named'⟩, hitems, hfirst, hall, hallNamed⟩ := hleft
  · cases hitems
  · obtain ⟨⟨rfl⟩, rfl⟩ := List.cons.inj hitems
    -- The names so far are those that were spelled in front, which are different from this one.
    have hlexemes : (a.named ++ arg :: named').map (·.name.lexeme) =
        named.map (·.name.lexeme) := by
      have hmap := congrArg (List.map (·.name.lexeme)) hallNamed
      rwa [List.map_map, List.map_map] at hmap
    rw [← hlexemes, List.map_append, List.map_cons, List.nodup_append] at hnames
    have hnew : ∀ other ∈ a.named, other.name.lexeme ≠ arg.name.lexeme := fun other hother =>
      hnames.2.2 _ (List.mem_map_of_mem hother) _ List.mem_cons_self
    refine (accepts_argument_named h hname hvalue hlength hnew).mono (fun _ => id) ?_
    rintro a' ⟨hargs', hnamed'⟩
    refine ⟨[], named', rfl, .inr rfl, by rw [hargs', hall], ?_⟩
    rw [← hallNamed, List.map_append, hnamed', ← List.map_append, List.append_assoc,
      List.singleton_append]
  · cases hitems
  · cases hitems

end ArgumentsLeft

/-- The tokens of the arguments of a call. -/
def spellArguments (ending : Endings) (args : List Expr) (named : List NamedArg) : List Token :=
  Token.commas (Expr.spellEach ending args ++ NamedArg.spellEach ending named)

/-- Arguments do not begin with a closing parenthesis. -/
theorem spellArguments_head (ending : Endings) {args : List Expr} {named : List NamedArg}
    (hargs : Expr.AllGrammatical False args) (hnamed : NamedArg.AllGrammatical False named)
    (hne : Expr.spellEach ending args ++ NamedArg.spellEach ending named ≠ []) :
    ∃ x rest, spellArguments ending args named = x :: rest ∧ x.kind ≠ .rightParen := by
  rw [spellArguments]
  cases args with
  | cons e rest =>
    -- Positional arguments come first, and no expression begins with a parenthesis that closes.
    obtain ⟨x, xs, hx, hopening, -⟩ := opens_expr ending e (.inr hargs.1)
    obtain ⟨ys, hys⟩ := Token.exists_commas_eq x xs
      (Expr.spellEach ending rest ++ NamedArg.spellEach ending named)
    rw [Expr.spellEach, hx]
    exact ⟨x, ys, hys, Token.Kind.ne_of_opening hopening (by decide)⟩
  | nil =>
    cases named with
    | nil => exact absurd rfl hne
    | cons arg rest =>
      -- Without them the first named argument begins with its name.
      obtain ⟨name, value⟩ := arg
      obtain ⟨ys, hys⟩ := Token.exists_commas_eq name _ (NamedArg.spellEach ending rest)
      refine ⟨name, ys, hys, ?_⟩
      rw [hnamed.1.1]
      decide

/-- The arguments of a call are accepted. -/
theorem accepts_arguments (h : g.Complete line ending n) {args : List Expr} {named : List NamedArg}
    (hargs : Expr.AllGrammatical False args) (hnamed : NamedArg.AllGrammatical False named)
    (hnames : (named.map (·.name.lexeme)).Nodup)
    (hne : Expr.spellEach ending args ++ NamedArg.spellEach ending named ≠ [])
    (hlength : (spellArguments ending args named).length < n) {fuel : Nat}
    (hfuel : (spellArguments ending args named).length ≤ fuel) :
    Accepts line behind (arguments g fuel {}) (spellArguments ending args named) (· = .rightParen)
      fun a => a.args.map Expr.unplaced = args.map Expr.unplaced ∧
        a.named.map NamedArg.unplaced = named.map NamedArg.unplaced := by
  rw [Expr.allGrammatical_iff] at hargs
  rw [NamedArg.allGrammatical_iff] at hnamed
  rw [spellArguments, ← map_spellArgument] at *
  -- Every argument is shorter than the whole call.
  have hle : ∀ i ∈ args.map Sum.inl ++ named.map Sum.inr, (spellArgument ending i).length < n :=
    fun i hi => Nat.lt_of_le_of_lt
      (Token.length_le_commas (List.mem_map_of_mem (f := spellArgument ending) hi)) hlength
  refine (accepts_row (argument g) (ArgumentsLeft args named) (arguments_succ g)
    (by rintro _ rfl; decide) ?_ (fun hnil => hne (by rw [hnil, List.map_nil])) hfuel
    ⟨args, named, rfl, .inl rfl, rfl, rfl⟩).mono (fun _ => id) ?_
  · -- An argument that is left is accepted in its turn, positional or named.
    intro i hi
    cases i with
    | inl e =>
      refine ⟨e.spell_ne_nil ending, fun rest a b hleft => ?_⟩
      exact hleft.accepts_positional h (hargs e (by simpa using hi)) (hle _ hi)
    | inr arg =>
      obtain ⟨hname, hvalue⟩ := hnamed arg (by simpa using hi)
      refine ⟨List.cons_ne_nil _ _, fun rest a b hleft => ?_⟩
      exact hleft.accepts_named h hnames hname hvalue (Nat.le_of_lt (hle _ hi))
  · -- When none is left, all of them were made.
    rintro a ⟨args', named', hnil, -, hall, hallNamed⟩
    obtain ⟨hargs', hnamed'⟩ := List.append_eq_nil_iff.1 hnil.symm
    rw [List.map_eq_nil_iff] at hargs' hnamed'
    rw [hargs', List.append_nil] at hall
    rw [hnamed', List.append_nil] at hallNamed
    exact ⟨hall, hallNamed⟩

/-- The rest of a call is accepted behind any callee. -/
theorem accepts_callRest (h : g.Complete line ending n) {id : NodeId} {callee callee' : Expr}
    {paren : Token} {args : List Expr} {named : List NamedArg}
    (hcall : (Expr.call id callee paren args named).Grammatical False)
    (hcallee : callee'.unplaced = callee.unplaced)
    (hlength : (spellArguments ending args named).length < n) :
    Accepts line behind (callRest g callee') (spellArguments ending args named ++ [paren])
      (fun _ => True) (·.unplaced = (Expr.call id callee paren args named).unplaced) := by
  obtain ⟨-, -, hparen, hargs, hnamed, hnames⟩ := hcall
  -- Behind the arguments the parenthesis closes the call.
  have close : ∀ (a : Arguments) (b : Bool), a.args.map Expr.unplaced = args.map Expr.unplaced →
      a.named.map NamedArg.unplaced = named.map NamedArg.unplaced → Accepts line b
        (do
          let paren ← expect .rightParen .argumentsClose
          return Expr.call (← fresh) callee' paren a.args a.named)
        [paren] (fun _ => True) (·.unplaced = (Expr.call id callee paren args named).unplaced) := by
    intro a b ha hn
    refine .expect hparen (by decide) fun t ht => .fresh fun id => .pure ?_
    rw [Expr.unplaced_call, Expr.unplaced_call, hcallee, ht.1, ha, hn]
  by_cases hnil : Expr.spellEach ending args ++ NamedArg.spellEach ending named = []
  · -- A call without arguments.
    obtain ⟨ha, hn⟩ := List.append_eq_nil_iff.1 hnil
    rw [Expr.spellEach_eq_map, List.map_eq_nil_iff] at ha
    rw [NamedArg.spellEach_eq_map, List.map_eq_nil_iff] at hn
    subst ha hn
    refine .check true (by rintro _ rfl; exact decide_eq_true hparen) (.known ?_)
    exact close {} behind rfl rfl
  · refine .check false ?_ (.remaining fun fuel hfuel => ?_)
    · obtain ⟨x, rest, hx, hkind⟩ := spellArguments_head ending hargs hnamed hnil
      rw [hx]
      rintro _ rfl
      exact decide_eq_false hkind
    · rw [List.length_append] at hfuel
      exact (accepts_arguments h hargs hnamed hnames hnil hlength (by omega)).bind
        (by rintro _ rfl; exact hparen) fun a b ha _ => close a b ha.1 ha.2

/-- What is behind an expression is accepted, from wherever the expression was made. -/
def Resumes (line : Nat) (loop : Nat → Expr → Parser Expr) (e : Expr) (ys : List Token)
    (F : Token.Kind → Prop) (Q : Expr → Prop) : Prop :=
  ∀ (e' : Expr) (fuel : Nat), e'.unplaced = e.unplaced → ys.length ≤ fuel →
    Accepts line true (loop fuel e') ys F Q

/-- A call is accepted behind its callee, and so is what is behind the call. -/
theorem resumes_call (h : g.Complete line ending n) {Q : Expr → Prop} {id : NodeId} {callee : Expr}
    {paren : Token} {args : List Expr} {named : List NamedArg}
    (hcall : (Expr.call id callee paren args named).Grammatical False)
    (hlength : (spellArguments ending args named).length < n)
    (hys : Resumes line (postfixes g) (.call id callee paren args named) ys F Q) :
    Resumes line (postfixes g) callee
      (.mark .leftParen :: (spellArguments ending args named ++ [paren] ++ ys)) F Q := by
  intro e' fuel he' hfuel
  cases fuel with
  | zero => cases hfuel
  | succ fuel =>
    rw [List.length_cons, List.length_append] at hfuel
    -- The parser looks whether the parenthesis is on the line of the callee, and in print all is on
    -- one line.
    refine .peek_cons fun t ht => .previous fun last hlast => ?_
    rw [if_pos (by simp [ht.kind, ht.2, hlast, Token.mark])]
    refine .advance (by decide) fun _ _ => ?_
    refine (accepts_callRest h hcall he' hlength).bind (fun _ _ => trivial) fun e b he hb => ?_
    obtain rfl := hb (.inl rfl)
    exact hys e fuel he (by omega)

/-- A member is accepted behind its object, and so is what is behind the member. -/
theorem resumes_get {Q : Expr → Prop} {id : NodeId} {object : Expr} {name : Token}
    (hname : name.kind = .identifier)
    (hys : Resumes line (postfixes g) (.get id object name) ys F Q) :
    Resumes line (postfixes g) object (.mark .dot :: name :: ys) F Q := by
  intro e' fuel he' hfuel
  cases fuel with
  | zero => cases hfuel
  | succ fuel =>
    refine .peek_cons fun t ht => .previous fun last _ => ?_
    rw [if_neg (by simp [ht.kind, Token.mark])]
    refine .accept_true rfl (by decide) (.expect hname (by decide) fun name' hn => ?_)
    refine .fresh fun id => hys _ fuel ?_ (by simp only [List.length_cons] at hfuel; omega)
    rw [Expr.unplaced, Expr.unplaced, he', hn.1]

/-- Nothing goes on with an expression where nothing binds it. -/
theorem resumes_nil (e : Expr) :
    Resumes line (postfixes g) e [] (Stops 8) (·.unplaced = e.unplaced) := by
  intro e' fuel he' _
  cases fuel with
  | zero => exact .pure he'
  | succ fuel =>
    -- A token that stops at the tightest level is neither an opening parenthesis nor a dot.
    have hstop : ∀ k, Stops 8 k → k ≠ .leftParen ∧ k ≠ .dot := by
      refine fun k hk => ⟨?_, ?_⟩ <;>
      · rintro rfl
        exact absurd (hk 8 rfl) (Nat.lt_irrefl _)
    refine .peek fun t ht => .previous fun last _ => ?_
    rw [if_neg (by simp [(hstop _ ht).1])]
    exact .accept_false (fun k hk => (hstop k hk).2) (.pure he')

/-! ### Expressions without operators between them -/

/-- The elements of a list are accepted. -/
theorem accepts_elements (h : g.Complete line ending n) {es : List Expr}
    (hes : Expr.AllGrammatical False es) (hne : es ≠ [])
    (hlength : (Token.commas (Expr.spellEach ending es)).length < n) {fuel : Nat}
    (hfuel : (Token.commas (Expr.spellEach ending es)).length ≤ fuel) :
    Accepts line behind (elements g fuel []) (Token.commas (Expr.spellEach ending es))
      (· = .rightBracket) fun all => all.map Expr.unplaced = es.map Expr.unplaced := by
  rw [Expr.spellEach_eq_map] at *
  rw [Expr.allGrammatical_iff] at hes
  -- The elements are a row with commas; what is said of rows is applied to one element.
  refine (accepts_row (fun made => do return made ++ [← g.expression])
    (fun rest made => (made ++ rest).map Expr.unplaced = es.map Expr.unplaced)
    (fun fuel made => ?_) (by rintro _ rfl; decide)
    (fun e he => ⟨e.spell_ne_nil ending, fun rest made behind hinv => ?_⟩)
    hne hfuel rfl).mono (fun _ => id) fun all hall => by rwa [List.append_nil] at hall
  · simp only [elements, bind_assoc, pure_bind]
  · have hle := Token.length_le_commas (List.mem_map_of_mem (f := (Expr.spell ending ·)) he)
    have he' := h.expression e behind (hes e he) (Nat.zero_le _) (Nat.lt_of_le_of_lt hle hlength)
    refine he'.bind_nil (by rintro _ (rfl | rfl) <;> exact stops_of_none rfl)
      fun e' _ he' _ => .pure ?_
    simpa [he'] using hinv

/-- The value of a constant does not depend on its place. -/
theorem constant?_unplaced (t : Token) : constant? t.unplaced = constant? t := by
  unfold constant?
  rfl

/-- A constant is accepted. -/
theorem accepts_literal {id : NodeId} {token : Token} {value : Literal}
    (hvalue : constant? token = some value) :
    Accepts line behind (primary g) [token] F
      (·.unplaced = (Expr.literal id token value).unplaced) := by
  refine .peek_cons fun t ht => ?_
  have hvalue' : constant? t = some value := by
    rw [← constant?_unplaced, ht.1, constant?_unplaced, hvalue]
  have heof : token.kind ≠ .eof := (ne_of_constant? hvalue).1
  rw [hvalue']
  refine .advance heof fun _ _ => .fresh fun id => .pure ?_
  rw [Expr.unplaced, Expr.unplaced, ht.1]

/-- A name is accepted. -/
theorem accepts_var {use : NameUse} (hname : use.name.kind = .identifier) :
    Accepts line behind (primary g) [use.name] F (·.unplaced = (Expr.var use).unplaced) := by
  refine .peek_cons fun t ht => ?_
  rw [constant?_eq_none (ht.kind.trans hname) (by decide), ht.kind, hname]
  refine .advance (by rw [hname]; decide) fun _ _ => .fresh fun id => .pure ?_
  rw [Expr.unplaced, Expr.unplaced, NameUse.unplaced, NameUse.unplaced, ht.1]

/-- The word `self` is accepted. -/
theorem accepts_self {id : NodeId} {keyword : Token} (hkeyword : keyword.kind = .selfWord) :
    Accepts line behind (primary g) [keyword] F (·.unplaced = (Expr.self id keyword).unplaced) := by
  refine .peek_cons fun t ht => ?_
  rw [constant?_eq_none (ht.kind.trans hkeyword) (by decide), ht.kind, hkeyword]
  refine .advance (by rw [hkeyword]; decide) fun _ _ => .fresh fun id => .pure ?_
  rw [Expr.unplaced, Expr.unplaced, ht.1]

/-- The word `super` without a name stands in front of arguments. -/
theorem accepts_super {id : NodeId} {keyword : Token} (hkeyword : keyword.kind = .superWord) :
    Accepts line behind (primary g) [keyword] (· = .leftParen)
      (·.unplaced = (Expr.super id keyword none).unplaced) := by
  refine .peek_cons fun t ht => ?_
  rw [constant?_eq_none (ht.kind.trans hkeyword) (by decide), ht.kind, hkeyword]
  refine .advance (by rw [hkeyword]; decide) fun _ _ => ?_
  refine .accept_false (by rintro _ rfl; decide) (.check true (by rintro _ rfl; rfl) ?_)
  refine .fresh fun id => .pure ?_
  rw [Expr.unplaced, Expr.unplaced, ht.1]

/-- A method of a superclass is accepted. -/
theorem accepts_super_method {id : NodeId} {keyword method : Token}
    (hkeyword : keyword.kind = .superWord) (hmethod : method.kind = .identifier) :
    Accepts line behind (primary g) [keyword, .mark .dot, method] F
      (·.unplaced = (Expr.super id keyword (some method)).unplaced) := by
  refine .peek_cons fun t ht => ?_
  rw [constant?_eq_none (ht.kind.trans hkeyword) (by decide), ht.kind, hkeyword]
  refine .advance (by rw [hkeyword]; decide) fun _ _ => .accept_true rfl (by decide) ?_
  refine .expect hmethod (by decide) fun m hm => .fresh fun id => .pure ?_
  rw [Expr.unplaced, Expr.unplaced, Option.map_some, Option.map_some, ht.1, hm.1]

/-- A function without a name is accepted. -/
theorem accepts_lambda (h : g.Complete line ending n) {fn : Lambda}
    (hkeyword : fn.keyword.kind = .funWord) (hname : fn.name = none) (hfn : fn.Grammatical False)
    (hlength : (fn.spell ending).length ≤ n) :
    Accepts line behind (primary g) (fn.spell ending) (fun _ => True)
      (·.unplaced = (Expr.lambda fn).unplaced) := by
  have hspell : fn.spell ending = fn.keyword :: Lambda.spellRest ending fn := by
    rw [Lambda.spell_eq, if_pos hkeyword, hname]
    rfl
  rw [hspell] at hlength ⊢
  refine .peek_cons fun t ht => ?_
  rw [constant?_eq_none (ht.kind.trans hkeyword) (by decide), ht.kind, hkeyword]
  refine .advance (by rw [hkeyword]; decide) fun _ _ => ?_
  refine (accepts_lambdaRest h hfn ht.1 (by rw [hname]) (Nat.le_of_succ_le hlength)).bind_nil
    (fun _ _ => trivial) fun fn' _ hfn' _ => .pure ?_
  rw [Expr.unplaced, Expr.unplaced, hfn']

/-- An expression in parentheses is accepted. -/
theorem accepts_group (h : g.Complete line ending n) {id : NodeId} {paren : Token} {inner : Expr}
    (hparen : paren.kind = .leftParen) (hinner : inner.Grammatical False)
    (hlength : ((Expr.group id paren inner).spell ending).length ≤ n) :
    Accepts line behind (primary g) ((Expr.group id paren inner).spell ending) (fun _ => True)
      (·.unplaced = (Expr.group id paren inner).unplaced) := by
  simp only [Expr.spell, List.length_cons, List.length_append] at hlength
  refine .peek_cons fun t ht => ?_
  rw [constant?_eq_none (ht.kind.trans hparen) (by decide), ht.kind, hparen]
  refine .advance (by rw [hparen]; decide) fun _ _ => ?_
  refine (h.expression inner true hinner (Nat.zero_le _) (by omega)).bind
    (by rintro _ rfl; exact stops_of_none rfl) fun e _ he _ => ?_
  refine .expect rfl (by decide) fun _ _ => .fresh fun id => .pure ?_
  rw [Expr.unplaced, Expr.unplaced, ht.1, he]

/-- A list is accepted. -/
theorem accepts_list (h : g.Complete line ending n) {id : NodeId} {bracket : Token}
    {es : List Expr} (hbracket : bracket.kind = .leftBracket) (hes : Expr.AllGrammatical False es)
    (hlength : ((Expr.list id bracket es).spell ending).length ≤ n) :
    Accepts line behind (primary g) ((Expr.list id bracket es).spell ending) (fun _ => True)
      (·.unplaced = (Expr.list id bracket es).unplaced) := by
  simp only [Expr.spell, List.length_cons, List.length_append] at hlength
  refine .peek_cons fun t ht => ?_
  rw [constant?_eq_none (ht.kind.trans hbracket) (by decide), ht.kind, hbracket]
  refine .advance (by rw [hbracket]; decide) fun _ _ => ?_
  -- Behind the elements the bracket closes the list.
  have close : ∀ (es' : List Expr) (b : Bool), es'.map Expr.unplaced = es.map Expr.unplaced →
      Accepts line b
        (do
          let _ ← expect .rightBracket .listClose
          return Expr.list (← fresh) t es')
        [.mark .rightBracket] (fun _ => True)
        (·.unplaced = (Expr.list id bracket es).unplaced) := by
    intro es' b hall
    refine .expect rfl (by decide) fun _ _ => .fresh fun id => .pure ?_
    rw [Expr.unplaced_list, Expr.unplaced_list, ht.1, hall]
  cases es with
  | nil => exact .check true (by rintro _ rfl; rfl) (.known (close [] true rfl))
  | cons e rest =>
    refine .check false ?_ (.remaining fun fuel hfuel => ?_)
    · -- An element does not begin with a closing bracket.
      obtain ⟨x, xs, hx, hopening, -⟩ := opens_expr ending e (.inr hes.1)
      obtain ⟨ys, hys⟩ := Token.exists_commas_eq x xs (Expr.spellEach ending rest)
      rw [Expr.spellEach, hx, hys]
      rintro _ rfl
      exact decide_eq_false (Token.Kind.ne_of_opening hopening (by decide))
    · rw [List.length_append] at hfuel
      exact (accepts_elements h hes (List.cons_ne_nil _ _) (by omega) (by omega)).bind
        (by rintro _ rfl; rfl) fun es' b hall _ => close es' b hall

/-- A primary expression goes on with what is behind it. -/
theorem resumed_primary {F₁ : Token.Kind → Prop} {Q : Expr → Prop} {e : Expr}
    (he : Accepts line behind (primary g) (e.spell ending) F₁ (·.unplaced = e.unplaced))
    (hnext : ∀ k, Next F ys k → F₁ k) (hys : Resumes line (postfixes g) e ys F Q) :
    Accepts line behind (call g) (e.spell ending ++ ys) F Q := by
  refine he.bind hnext fun e' b he' hb => .remaining fun fuel hfuel => ?_
  obtain rfl := hb (.inr (e.spell_ne_nil ending))
  exact hys e' fuel he' (Nat.le_of_lt hfuel)

/-- A call or member access takes apart its tokens from the left, so that the induction is on what
stands in front: the claim is about all that is behind it. -/
theorem resumed_call (h : g.Complete line ending n) {Q : Expr → Prop} (e : Expr)
    (hrank : e.rank = 8) (he : e.Grammatical False) (hlength : (e.spell ending).length ≤ n)
    {ys : List Token} (hys : Resumes line (postfixes g) e ys F Q) :
    Accepts line behind (call g) (e.spell ending ++ ys) F Q := by
  match e, he with
  | .assign .., _ | .set .., _ | .unary .., _ => cases hrank
  | .binary .., ⟨hjoined, _⟩ | .logical .., ⟨hjoined, _⟩ =>
    have hle := (Expr.Joined.rank_le hjoined).2
    rw [Expr.rank] at hrank
    omega
  | .super _ _ none, ⟨hlone, _⟩ => exact hlone.elim
  | .call _ callee paren args named, hcall =>
    -- What is left of the call, and all behind it, resumes behind the callee.
    obtain ⟨hcallee, hsuper, hrest⟩ := hcall
    rw [Expr.spell, List.length_append, List.length_cons] at hlength
    have hargs : (spellArguments ending args named).length < n := by
      rw [spellArguments]
      simp only [List.length_append, List.length_singleton] at hlength ⊢
      omega
    have hys' := resumes_call h ⟨hcallee, hsuper, hrest⟩ hargs hys
    rw [Expr.spell, List.append_assoc]
    -- Only here the word `super` may stand without a name.
    rcases hsuper with hsuper | hgrammatical
    · obtain ⟨_, _, rfl, hkeyword⟩ := Expr.BareSuper.eq hsuper
      exact resumed_primary (accepts_super hkeyword) (by rintro _ rfl; rfl) hys'
    · exact resumed_call h callee hcallee hgrammatical (by omega) hys'
  | .get _ object _, ⟨hobject, hgrammatical, hname⟩ =>
    rw [Expr.spell, List.length_append] at hlength
    rw [Expr.spell, List.append_assoc]
    exact resumed_call h object hobject hgrammatical (by omega) (resumes_get hname hys)
  | .literal .., hvalue => exact resumed_primary (accepts_literal hvalue) (fun _ => id) hys
  | .var use, hname => exact resumed_primary (accepts_var hname) (fun _ => id) hys
  | .self .., hkeyword => exact resumed_primary (accepts_self hkeyword) (fun _ => id) hys
  | .super _ _ (some _), ⟨hkeyword, hmethod⟩ =>
    exact resumed_primary (accepts_super_method hkeyword hmethod) (fun _ => id) hys
  | .lambda fn, ⟨hkeyword, hname, hfn⟩ =>
    exact resumed_primary (accepts_lambda h hkeyword hname hfn hlength) (fun _ _ => trivial) hys
  | .group .., ⟨hparen, hinner⟩ =>
    exact resumed_primary (accepts_group h hparen hinner hlength) (fun _ _ => trivial) hys
  | .list .., ⟨hbracket, hes⟩ =>
    exact resumed_primary (accepts_list h hbracket hes hlength) (fun _ _ => trivial) hys

/-- Expressions of the rank of calls are accepted. -/
theorem accepts_call (h : g.Complete line ending n) :
    AcceptsExpr line ending (n + 1) 8 (call g) := by
  intro e behind he hrank hlength
  have hcall : Accepts line behind (call g) (e.spell ending ++ []) (Stops 8)
      (·.unplaced = e.unplaced) :=
    resumed_call h e (Nat.le_antisymm e.rank_le hrank) he (Nat.le_of_lt_succ hlength)
      (resumes_nil e)
  rwa [List.append_nil] at hcall

/-- Expressions of the rank of operators in front of an operand are accepted. -/
theorem accepts_unary (h : g.Complete line ending n) (fuel : Nat) {e : Expr}
    (he : e.Grammatical False) (hrank : 7 ≤ e.rank) (hlength : (e.spell ending).length ≤ n)
    (hfuel : (e.spell ending).length ≤ fuel) :
    Accepts line behind (unary g fuel) (e.spell ending) (Stops 7) (·.unplaced = e.unplaced) := by
  induction fuel generalizing e behind with
  | zero =>
    -- No expression is spelled with nothing.
    exact absurd (List.length_eq_zero_iff.1 (Nat.eq_zero_of_le_zero hfuel)) (e.spell_ne_nil ending)
  | succ fuel ih =>
    rcases Expr.unary_of_rank he hrank with h8 | ⟨id, op, right, rfl⟩
    · -- An expression at the level of calls does not begin with an operator.
      obtain ⟨x, xs, hx, -, htight, -⟩ := opens_expr ending e (.inr he)
      refine .accept?_none ?_ ?_
      · rw [hx]
        rintro _ rfl hmem
        rcases List.mem_pair.1 hmem with hkind | hkind
        · exact (htight h8).1 hkind
        · exact (htight h8).2 hkind
      · exact (accepts_call h e behind he (Nat.le_of_eq h8.symm) (Nat.lt_succ_of_le hlength)).mono
          (fun _ hk => hk.mono (Nat.le_succ _)) fun _ => id
    · obtain ⟨hop, hright, hgrammatical⟩ := he
      rw [Expr.spell, List.length_cons] at hlength hfuel
      refine .accept?_some (by rcases hop with hop | hop <;> rw [hop] <;> decide) (by decide)
        fun t ht => ?_
      refine (ih hgrammatical hright (by omega) (by omega)).bind_nil (fun _ hk => hk)
        fun right' _ hr _ => .fresh fun id => .pure ?_
      rw [Expr.unplaced, Expr.unplaced, ht.1, hr]

/-! ### Operators -/

namespace Level

variable (level : Level)

/-- An operator that binds like a level is one of the level. -/
theorem mem_of_binding? {kind : Token.Kind} (h : kind.binding? = some level.rank) :
    kind ∈ level.operators := by
  cases kind <;> cases level <;> first | decide | cases h

/-- The parts of an operator's expression lose their places one by one. -/
theorem unplaced_node (id : NodeId) (left : Expr) (op : Token) (right : Expr) :
    (level.node id left op right).unplaced =
      level.node 0 left.unplaced op.unplaced right.unplaced := by
  cases level <;> rw [node, Expr.unplaced]

/-- The ranks of the levels lie between assignments and operators in front of an operand. -/
theorem rank_bounds : 1 ≤ level.rank ∧ level.rank ≤ 6 := by
  cases level <;> decide

/-- An expression that binds like the operators of a level is an operator of the level between
operands that are tight enough. -/
theorem exists_node {lone : Prop} {e : Expr} (he : e.Grammatical lone)
    (hrank : e.rank = level.rank) : ∃ id left op right, e = level.node id left op right ∧
      op.kind ∈ level.operators ∧ (level.rank ≤ left.rank ∧ left.Grammatical lone) ∧
      level.rank < right.rank ∧ right.Grammatical lone := by
  have hbounds := level.rank_bounds
  cases e with
  | binary id left op right =>
    obtain ⟨⟨r, hbinding, hlow, hhigh, hl, hr⟩, hleft, hright⟩ := he
    rw [Expr.rank, hbinding, Option.getD_some] at hrank
    subst hrank
    refine ⟨id, left, op, right, ?_, level.mem_of_binding? hbinding, ⟨hl, hleft⟩, hr, hright⟩
    -- The two levels of logical operators bind less tightly than any other.
    cases level <;> first | rfl | exact absurd hlow (by decide)
  | logical id left op right =>
    obtain ⟨⟨r, hbinding, hlow, hhigh, hl, hr⟩, hleft, hright⟩ := he
    rw [Expr.rank, hbinding, Option.getD_some] at hrank
    subst hrank
    refine ⟨id, left, op, right, ?_, level.mem_of_binding? hbinding, ⟨hl, hleft⟩, hr, hright⟩
    cases level <;> first | rfl | exact absurd hhigh (by decide)
  | _ =>
    simp only [Expr.rank] at hrank
    omega

end Level

/-- Operands of a level with its operators between them, in front of what ends the last operand. -/
theorem resumed_operands (level : Level) {operand : Parser Expr} {Q : Expr → Prop}
    (hoperand : AcceptsExpr line ending n (level.rank + 1) operand) {e : Expr}
    (he : e.Grammatical False) (hrank : level.rank ≤ e.rank) (hlength : (e.spell ending).length < n)
    (hnext : ∀ k, Next F ys k → Stops (level.rank + 1) k)
    (hys : Resumes line (operands operand level) e ys F Q) :
    Accepts line behind (binary operand level) (e.spell ending ++ ys) F Q := by
  -- The last operator is the outermost one, so the induction goes from the whole row to its front.
  induction hsize : (e.spell ending).length using Nat.strongRecOn generalizing e ys with
  | ind size ih =>
    rcases Nat.lt_or_eq_of_le hrank with htight | heq
    · refine (hoperand e behind he htight hlength).bind hnext fun e' b he' hb =>
        .remaining fun fuel hfuel => ?_
      obtain rfl := hb (.inr (e.spell_ne_nil ending))
      exact hys e' fuel he' (Nat.le_of_lt hfuel)
    · obtain ⟨id, left, op, right, rfl, hop, ⟨hl, hleft⟩, hr, hright⟩ :=
        level.exists_node he heq.symm
      rw [level.spell_node, List.length_append, List.length_cons] at hlength hsize
      rw [level.spell_node, List.append_assoc, List.cons_append]
      refine ih _ (by omega) hleft hl (by omega) ?_ ?_ rfl
      · rintro _ rfl q hq
        rw [level.binding?_of_mem hop] at hq
        cases hq
        exact Nat.lt_succ_self _
      · intro left' fuel hleft' hfuel
        cases fuel with
        | zero => cases hfuel
        | succ fuel =>
          rw [List.length_cons, List.length_append] at hfuel
          refine .accept?_some hop level.eof_not_mem_operators fun t ht => ?_
          refine (hoperand right true hright hr (by omega)).bind hnext fun right' b hright' hb =>
            .fresh fun id' => ?_
          obtain rfl := hb (.inl rfl)
          refine hys _ fuel ?_ (by omega)
          rw [level.unplaced_node, level.unplaced_node id, hleft', ht.1, hright']

/-- A level of operators accepts the expressions of its rank. -/
theorem accepts_binary (level : Level) {operand : Parser Expr}
    (hoperand : AcceptsExpr line ending n (level.rank + 1) operand) :
    AcceptsExpr line ending n level.rank (binary operand level) := by
  intro e behind he hrank hlength
  -- What stops an expression of the level is no operator of it, so the loop ends.
  have hresumes : Resumes line (operands operand level) e [] (Stops level.rank)
      (·.unplaced = e.unplaced) := by
    intro e' fuel he' _
    cases fuel with
    | zero => exact .pure he'
    | succ fuel =>
      refine .accept?_none (fun k hk hmem => ?_) (.pure he')
      exact absurd (hk _ (level.binding?_of_mem hmem)) (Nat.lt_irrefl _)
  have hrow : Accepts line behind (binary operand level) (e.spell ending ++ []) (Stops level.rank)
      (·.unplaced = e.unplaced) :=
    resumed_operands level hoperand he hrank hlength
      (fun _ hk => Stops.mono hk (Nat.le_succ _)) hresumes
  rwa [List.append_nil] at hrow

/-- Expressions of the rank of operators are accepted. -/
theorem accepts_operation (h : g.Complete line ending n) :
    AcceptsExpr line ending (n + 1) 1 (operation g) := by
  have hunary : AcceptsExpr line ending (n + 1) 7 (do unary g (← remaining)) := by
    intro e behind he hrank hlength
    exact .remaining fun fuel hfuel =>
      accepts_unary h fuel he hrank (Nat.le_of_lt_succ hlength) (Nat.le_of_lt hfuel)
  have hproduct := accepts_binary .product hunary
  have hsum := accepts_binary .sum hproduct
  have hcomparison := accepts_binary .comparison hsum
  have hequality := accepts_binary .equality hcomparison
  have hconjunction := accepts_binary .conjunction hequality
  exact accepts_binary .disjunction hconjunction

/-! ### Assignments -/

/-- A target that is the same up to places can be given the same value. -/
theorem assignment?_unplaced {id id' : NodeId} {target target' value value' e : Expr}
    (he : assignment? id value target = some e) (htarget : target'.unplaced = target.unplaced)
    (hvalue : value'.unplaced = value.unplaced) :
    ∃ e', assignment? id' value' target' = some e' ∧ e'.unplaced = e.unplaced := by
  unfold assignment? at he
  split at he
  · -- A variable: the other target is a variable of the same name.
    cases he
    cases target' with
    | var use' =>
      refine ⟨_, rfl, ?_⟩
      simp only [Expr.unplaced, NameUse.unplaced, Expr.var.injEq, NameUse.mk.injEq] at htarget ⊢
      rw [htarget.2, hvalue]
    | super id keyword method => cases htarget
    | _ => cases htarget
  · -- A member: so is the other target, of an object that is the same up to places.
    cases he
    cases target' with
    | get id' object' name' =>
      refine ⟨_, rfl, ?_⟩
      simp only [Expr.unplaced, Expr.get.injEq] at htarget ⊢
      rw [htarget.2.1, htarget.2.2, hvalue]
    | _ => cases htarget
  · cases he

/-- An expression that binds less tightly than all operators gives a value to a variable or field.
-/
theorem Expr.assigned_of_rank (ending : Endings) {lone : Prop} {e : Expr}
    (he : e.Grammatical lone) (hrank : e.rank = 0) : ∃ id target value,
      e.spell ending = target.spell ending ++ .mark .equal :: value.spell ending ∧
      assignment? id value target = some e ∧ target.rank = 8 ∧ target.Grammatical lone ∧
      value.Grammatical lone := by
  cases e with
  | assign id name value =>
    exact ⟨id, .var ⟨0, name⟩, value, rfl, rfl, rfl, he⟩
  | set id object name value =>
    obtain ⟨h8, hobject, hname, hvalue⟩ := he
    refine ⟨id, .get 0 object name, value, ?_, rfl, rfl, ⟨h8, hobject, hname⟩, hvalue⟩
    simp only [Expr.spell, List.append_assoc, List.cons_append, List.nil_append]
  | binary | logical =>
    -- Operators have ranks of their own, all of them greater.
    have hle := (Expr.Joined.rank_le he.1).1
    rw [Expr.rank] at hrank
    omega
  | _ => cases hrank

/-- Assignments are accepted. -/
theorem accepts_assignment (h : g.Complete line ending n) (fuel : Nat) {e : Expr}
    (he : e.Grammatical False) (hlength : (e.spell ending).length ≤ n)
    (hfuel : (e.spell ending).length ≤ fuel) :
    Accepts line behind (assignment g fuel) (e.spell ending) (Stops 0)
      (·.unplaced = e.unplaced) := by
  induction fuel generalizing e behind with
  | zero =>
    exact absurd (List.length_eq_zero_iff.1 (Nat.eq_zero_of_le_zero hfuel)) (e.spell_ne_nil ending)
  | succ fuel ih =>
    rcases Nat.eq_zero_or_pos e.rank with h0 | hpos
    · -- The target comes first, and the equals sign stops it.
      obtain ⟨id, target, value, hspell, he', hrank, htarget, hvalue⟩ :=
        Expr.assigned_of_rank ending he h0
      rw [hspell, List.length_append, List.length_cons] at hlength hfuel
      rw [hspell]
      refine (accepts_operation h target behind htarget (by omega) (by omega)).bind ?_
        fun target' b ht _ => ?_
      · rintro _ rfl q hq
        cases hq
        exact Nat.one_pos
      -- The value is an assignment again.
      refine .accept?_some (List.mem_singleton_self _) (by decide) fun _ _ => ?_
      refine (ih hvalue (by omega) (by omega)).bind_nil (fun _ hk => hk)
        fun value' _ hv _ => .fresh fun id => ?_
      obtain ⟨made, hmade, heq⟩ := assignment?_unplaced he' ht hv
      rw [hmade]
      exact .pure heq
    · -- Any other expression is not followed by an equals sign.
      refine (accepts_operation h e behind he hpos (Nat.lt_succ_of_le hlength)).bind_nil
        (fun _ hk => Stops.mono hk (Nat.zero_le _)) fun e' _ he' _ => ?_
      refine .accept?_none (fun k hk hmem => ?_) (.pure he')
      rw [List.mem_singleton.1 hmem] at hk
      exact absurd (hk 0 rfl) (Nat.lt_irrefl _)

/-- All expressions are accepted. -/
theorem accepts_expression (h : g.Complete line ending n) :
    AcceptsExpr line ending (n + 1) 0 (expression g) := by
  intro e behind he _ hlength
  exact .remaining fun fuel hfuel =>
    accepts_assignment h fuel he (Nat.le_of_lt_succ hlength) (Nat.le_of_lt hfuel)

end Parse

end ClassScript
