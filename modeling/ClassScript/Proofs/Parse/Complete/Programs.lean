import ClassScript.Proofs.Parse.Complete.Expressions

/-!
# What the grammar spells is parsed

Every program of the grammar is made again from the tokens that it spells, on one line and with
semicolons behind its statements.
-/

namespace ClassScript

namespace Parse

variable {g : Nested} {line n : Nat} {ending : Endings} {behind : Bool} {xs ys : List Token}
  {F : Token.Kind → Prop}

/-! ### Statements -/

/-- A function with a name is accepted. -/
theorem accepts_function (h : g.Complete line ending n) {fn : Lambda} {keyword name : Token}
    (hname : fn.name = some name) (hkind : name.kind = .identifier) (hfn : fn.Grammatical False)
    (hkeyword : keyword.unplaced = fn.keyword.unplaced)
    (hlength : (name :: Lambda.spellRest ending fn).length ≤ n) :
    Accepts line behind (function g keyword) (name :: Lambda.spellRest ending fn) (fun _ => True)
      (·.unplaced = fn.unplaced) := by
  refine .expect hkind (by decide) fun t ht => ?_
  refine accepts_lambdaRest h hfn hkeyword ?_ (Nat.le_of_succ_le hlength)
  rw [hname, Option.map_some, Option.map_some, ht.1]

/-- The superclasses of a class are accepted. -/
theorem accepts_superclasses {supers : List NameUse}
    (hsupers : ∀ s ∈ supers, s.name.kind = .identifier) (hne : supers ≠ []) {fuel : Nat}
    (hfuel : (Token.commas (supers.map fun s => [s.name])).length ≤ fuel) :
    Accepts line behind (superclasses fuel []) (Token.commas (supers.map fun s => [s.name]))
      (· = .leftBrace) fun all => all.map NameUse.unplaced = supers.map NameUse.unplaced := by
  -- The superclasses are a row with commas, of one name each.
  refine (accepts_row
    (fun made => do
      let name ← expect .identifier .superclassName
      return made ++ [⟨← fresh, name⟩])
    (fun rest made => (made ++ rest).map NameUse.unplaced = supers.map NameUse.unplaced)
    (fun fuel made => ?_) (by rintro _ rfl; decide)
    (fun s hs => ⟨List.cons_ne_nil _ _, fun rest made behind hinv => ?_⟩)
    hne hfuel rfl).mono (fun _ => id) fun all hall => by rwa [List.append_nil] at hall
  · simp only [superclasses, bind_assoc, pure_bind]
  · refine .expect (hsupers s hs) (by decide) fun t ht => .fresh fun id => .pure ?_
    have hs' : NameUse.unplaced ⟨id, t⟩ = s.unplaced := by
      rw [NameUse.unplaced, NameUse.unplaced, ht.1]
    simpa [hs'] using hinv

/-- No semicolon stands behind methods without one. -/
theorem spellAll_ne_semicolon {lone : Prop} {ms : List Lambda} (hms : Lambda.AllGrammatical lone ms)
    {k : Token.Kind} (hk : Next (· = .rightBrace) (Lambda.spellAll ending ms) k) :
    k ≠ .semicolon := by
  cases ms with
  | nil =>
    obtain rfl : k = .rightBrace := hk
    decide
  | cons fn rest =>
    obtain ⟨x, xs, hx, hkind⟩ := Lambda.spell_head ending hms.1.1
    rw [Lambda.spellAll, hx] at hk
    obtain rfl : k = x.kind := hk
    rcases hkind with hkind | hkind <;> rw [hkind] <;> decide

/-- A method behind the word `fun` that it may start with, with the semicolon that may end it. -/
theorem accepts_method (h : g.Complete line ending n) (hending : ending.Separates) {fn : Lambda}
    {keyword name : Token} (hname : fn.name = some name) (hkind : name.kind = .identifier)
    (hfn : fn.Grammatical False) (hkeyword : keyword.unplaced = fn.keyword.unplaced)
    (hlength : (name :: Lambda.spellRest ending fn).length ≤ n)
    (hnext : ∀ k, Next F ys k → k ≠ .semicolon) {α : Type} {P : α → Prop} {f : Lambda → Parser α}
    (hf : ∀ fn' b, fn'.unplaced = fn.unplaced → Accepts line b (f fn') ys F P) :
    Accepts line behind
      (do
        unless ← check .identifier do Parse.fail (← peek) .methodName
        let m ← function g keyword
        let _ ← accept .semicolon
        f m)
      (name :: Lambda.spellRest ending fn ++ (ending.method ++ ys)) F P := by
  refine .check true (by rintro _ rfl; exact decide_eq_true hkind) ?_
  refine (accepts_function h hname hkind hfn hkeyword hlength).bind (fun _ _ => trivial)
    fun fn' b hfn' _ => ?_
  rcases hending.method with hnone | hsemicolon
  · rw [hnone]
    exact .accept_false hnext (hf fn' b hfn')
  · rw [hsemicolon]
    exact .accept_true rfl (by decide) (hf fn' true hfn')

/-- One more method of a class, with the word `fun` or without it. -/
theorem accepts_methodRound (h : g.Complete line ending n) (hending : ending.Separates)
    {fn : Lambda} (hnamed : fn.Named)
    (hstart : fn.keyword.kind = .funWord ∨ fn.name = some fn.keyword) (hfn : fn.Grammatical False)
    (hlength : (fn.spell ending).length ≤ n) (hnext : ∀ k, Next F ys k → k ≠ .semicolon)
    {fuel : Nat} {acc : List Lambda} {P : List Lambda → Prop}
    (more : ∀ (fn' : Lambda) (b : Bool), fn'.unplaced = fn.unplaced →
      Accepts line b (methods g fuel (acc ++ [fn'])) ys F P) :
    Accepts line behind (methods g (fuel + 1) acc) (fn.spell ending ++ (ending.method ++ ys))
      F P := by
  obtain ⟨name, hname, hkind⟩ := hnamed
  -- The name comes first, or right behind the word `fun`.
  have hspell : fn.spell ending = (if fn.keyword.kind = .funWord then [fn.keyword] else []) ++
      name :: Lambda.spellRest ending fn := by
    rw [Lambda.spell_eq, hname]
    rfl
  rw [hspell] at hlength ⊢
  rw [List.length_append] at hlength
  have hrest : (name :: Lambda.spellRest ending fn).length ≤ n :=
    Nat.le_trans (Nat.le_add_left ..) hlength
  rcases hstart with hword | hfirst
  · rw [if_pos hword]
    refine .check false (by rintro _ rfl; rw [hword]; rfl)
      (.check false (by rintro _ rfl; rw [hword]; rfl) (.peek_cons fun t ht => ?_))
    exact .accept_true hword (by decide)
      (accepts_method h hending hname hkind hfn ht.1 hrest hnext more)
  · -- Without the word the method keeps its name as the token that it starts with.
    obtain rfl : name = fn.keyword := Option.some.inj (hname.symm.trans hfirst)
    rw [if_neg (by rw [hkind]; decide)]
    refine .check false (by rintro _ rfl; rw [hkind]; rfl)
      (.check false (by rintro _ rfl; rw [hkind]; rfl) (.peek_cons fun t ht => ?_))
    exact .accept_false (by rintro _ rfl; rw [hkind]; decide)
      (accepts_method h hending hname hkind hfn ht.1 hrest hnext more)

/-- Methods are accepted behind any others. -/
theorem accepts_methods (h : g.Complete line ending n) (hending : ending.Separates)
    {ms : List Lambda} (hms : Lambda.AllGrammatical False ms)
    (hlength : (Lambda.spellAll ending ms).length ≤ n) {fuel : Nat}
    (hfuel : (Lambda.spellAll ending ms).length ≤ fuel) (acc : List Lambda) :
    Accepts line behind (methods g fuel acc) (Lambda.spellAll ending ms) (· = .rightBrace)
      fun all => all.map Lambda.unplaced = (acc ++ ms).map Lambda.unplaced := by
  induction ms generalizing fuel acc behind with
  | nil =>
    rw [List.append_nil]
    cases fuel with
    | zero => exact .pure rfl
    | succ fuel =>
      -- The brace is next, and the loop ends in front of it.
      refine .check true (by rintro _ rfl; rfl) (.check false (by rintro _ rfl; rfl) ?_)
      exact .pure rfl
  | cons fn rest ih =>
    obtain ⟨⟨hnamed, hstart, hfn⟩, hrest⟩ := hms
    -- Every method has a token, so there is fuel for it.
    have hpos := List.length_pos_iff.2 (fn.spell_ne_nil ending)
    rw [Lambda.spellAll, List.append_assoc] at hlength hfuel ⊢
    rw [List.length_append, List.length_append] at hlength hfuel
    obtain ⟨fuel, rfl⟩ := Nat.exists_eq_add_one_of_ne_zero (n := fuel) (by omega)
    refine accepts_methodRound h hending hnamed hstart hfn (by omega)
      (fun _ => spellAll_ne_semicolon hrest) fun fn' b hfn' => ?_
    refine (ih hrest (by omega) (by omega) (acc ++ [fn'])).mono (fun _ => id) fun all hall => ?_
    simp only [hall, List.map_append, List.map_cons, hfn', List.append_assoc,
      List.cons_append, List.nil_append]

/-- The rest of a class is accepted. -/
theorem accepts_classRest (h : g.Complete line ending n) (hending : ending.Separates) {id : NodeId}
    {name : Token} {supers : List NameUse} {ms : List Lambda} (hname : name.kind = .identifier)
    (hsupers : ∀ s ∈ supers, s.name.kind = .identifier) (hms : Lambda.AllGrammatical False ms)
    (hlength : (Lambda.spellAll ending ms).length ≤ n) :
    Accepts line behind (classRest g)
      (name :: (NameUse.spellSupers supers ++ .mark .leftBrace :: (Lambda.spellAll ending ms
        ++ [.mark .rightBrace])))
      (fun _ => True) (·.unplaced = (Stmt.classDecl id name supers ms).unplaced) := by
  refine .expect hname (by decide) fun t ht => ?_
  -- The methods in braces, behind any superclasses.
  have body : ∀ (supers' : List NameUse) (b : Bool),
      supers'.map NameUse.unplaced = supers.map NameUse.unplaced → Accepts line b
        (do
          let _ ← expect .leftBrace .classOpen
          let ms ← methods g (← remaining) []
          let _ ← expect .rightBrace .classClose
          return Stmt.classDecl (← fresh) t supers' ms)
        (.mark .leftBrace :: (Lambda.spellAll ending ms ++ [.mark .rightBrace])) (fun _ => True)
        (·.unplaced = (Stmt.classDecl id name supers ms).unplaced) := by
    intro supers' b hsupers'
    refine .expect rfl (by decide) fun _ _ => .remaining fun fuel hfuel => ?_
    rw [List.length_append] at hfuel
    refine (accepts_methods h hending hms hlength (by omega) []).bind (by rintro _ rfl; rfl)
      fun ms' b hms' _ => .expect rfl (by decide) fun _ _ => .fresh fun id => .pure ?_
    rw [List.nil_append] at hms'
    rw [Stmt.unplaced_classDecl, Stmt.unplaced_classDecl, ht.1, hsupers', hms']
  cases supers with
  | nil => exact .accept_false (by rintro _ rfl; decide) (.known (body [] true rfl))
  | cons s rest =>
    rw [NameUse.spellSupers, List.cons_append]
    refine .accept_true rfl (by decide) (.remaining fun fuel hfuel => ?_)
    rw [List.length_append] at hfuel
    exact (accepts_superclasses hsupers (List.cons_ne_nil _ _) (by omega)).bind
      (by rintro _ rfl; rfl) fun supers' b hsupers' _ => body supers' b hsupers'

/-- The rest of a variable's declaration is accepted. -/
theorem accepts_varRest (h : g.Complete line ending n) {id : NodeId} {name : Token}
    (value : Option Expr) (hname : name.kind = .identifier)
    (hvalue : ∀ e ∈ value, e.Grammatical False)
    (hlength : (Expr.spellGiven ending value).length ≤ n + 1) :
    Accepts line behind (varRest g) (name :: Expr.spellGiven ending value) (· = .semicolon)
      (·.unplaced = (Stmt.varDecl id name value).unplaced) := by
  refine .expect hname (by decide) fun t ht => ?_
  -- Without an equals sign there is no value, and behind one there is an expression.
  cases value with
  | none =>
    refine .accept_false (by rintro _ rfl; decide) (.known (.fresh fun id => .pure ?_))
    rw [Stmt.unplaced_varDecl, Stmt.unplaced_varDecl, ht.1]
  | some e =>
    rw [Expr.spellGiven, List.length_cons] at hlength
    refine .accept_true rfl (by decide) ?_
    have he := accepts_expression h e true (hvalue e rfl) (Nat.zero_le _) hlength
    refine he.some.bind_nil (by rintro _ rfl; exact stops_of_none rfl) fun v _ hv _ =>
      .fresh fun id => .pure ?_
    rw [Stmt.unplaced_varDecl, Stmt.unplaced_varDecl, ht.1, hv]
    rfl

/-- An expression in front of a block. -/
theorem accepts_condition (h : g.Complete line ending n) {e : Expr} {body : Block}
    (he : e.Grammatical False) (hbody : body.Grammatical False)
    (hlength : (e.spell ending ++ (body.spell ending ++ xs)).length ≤ n) {α : Type} {P : α → Prop}
    {f : Expr → Block → Parser α}
    (hf : ∀ e' body', e'.unplaced = e.unplaced → body'.unplaced = body.unplaced →
      Accepts line true (f e' body') xs F P) :
    Accepts line behind
      (do
        let e' ← expression g
        let body' ← block g
        f e' body')
      (e.spell ending ++ (body.spell ending ++ xs)) F P := by
  simp only [List.length_append] at hlength
  refine (accepts_expression h e behind he (Nat.zero_le _) (by omega)).bind
    (fun k hk => stops_of_none (by rw [head_block hbody hk]; rfl)) fun e' b he' hb => ?_
  obtain rfl := hb (.inr (e.spell_ne_nil ending))
  refine (accepts_block h hbody (by omega)).bind (fun _ _ => trivial) fun body' b hbody' hb => ?_
  obtain rfl := hb (.inl rfl)
  exact hf e' body' he' hbody'

/-- The rest of a loop over items is accepted. -/
theorem accepts_forRest (h : g.Complete line ending n) {id : NodeId} {keyword keyword' name : Token}
    {iterable : Expr} {body : Block} (hkeyword : keyword'.unplaced = keyword.unplaced)
    (hname : name.kind = .identifier) (hiterable : iterable.Grammatical False)
    (hbody : body.Grammatical False)
    (hlength : (iterable.spell ending ++ body.spell ending).length ≤ n) :
    Accepts line behind (forRest g keyword')
      (name :: .mark .inWord :: (iterable.spell ending ++ body.spell ending)) F
      (·.unplaced = (Stmt.forIn id keyword name iterable body).unplaced) := by
  rw [← List.append_nil (body.spell ending)] at hlength ⊢
  refine .expect hname (by decide) fun t ht => .expect rfl (by decide) fun _ _ => ?_
  refine accepts_condition h hiterable hbody hlength fun iterable' body' hi hb =>
    .fresh fun id => .pure ?_
  rw [Stmt.unplaced, Stmt.unplaced, hkeyword, ht.1, hi, hb]

/-- The rest of a loop with a condition is accepted. -/
theorem accepts_whileRest (h : g.Complete line ending n) {id : NodeId} {keyword keyword' : Token}
    {condition : Expr} {body : Block} (hkeyword : keyword'.unplaced = keyword.unplaced)
    (hcondition : condition.Grammatical False) (hbody : body.Grammatical False)
    (hlength : (condition.spell ending ++ body.spell ending).length ≤ n) :
    Accepts line behind (whileRest g keyword') (condition.spell ending ++ body.spell ending) F
      (·.unplaced = (Stmt.whileLoop id keyword condition body).unplaced) := by
  rw [← List.append_nil (body.spell ending)] at hlength ⊢
  refine accepts_condition h hcondition hbody hlength fun condition' body' hc hb =>
    .fresh fun id => .pure ?_
  rw [Stmt.unplaced, Stmt.unplaced, hkeyword, hc, hb]

/-- The rest of a conditional is accepted. -/
theorem accepts_ifRest (h : g.Complete line ending n) (fuel : Nat) {id : NodeId}
    {keyword keyword' : Token} {condition : Expr} {body : Block} {otherwise : Option Stmt}
    (hkeyword : keyword'.unplaced = keyword.unplaced)
    (hif : (Stmt.ifElse id keyword condition body otherwise).Grammatical False)
    (hlength : (Stmt.spellBranches ending condition body otherwise).length ≤ n)
    (hfuel : (Stmt.spellBranches ending condition body otherwise).length < fuel) :
    Accepts line behind (ifRest g fuel keyword')
      (Stmt.spellBranches ending condition body otherwise) (· = .semicolon)
      (·.unplaced = (Stmt.ifElse id keyword condition body otherwise).unplaced) := by
  induction fuel generalizing behind id keyword keyword' condition body otherwise with
  | zero => cases hfuel
  | succ fuel ih =>
    obtain ⟨-, hcondition, hbody, hotherwise⟩ := Stmt.grammatical_ifElse.1 hif
    refine accepts_condition h hcondition hbody hlength fun condition' body' hc hb => ?_
    have made : ∀ (b : Bool) (o : Option Stmt), o.map Stmt.unplaced = otherwise.map Stmt.unplaced →
        Accepts line b (do return Stmt.ifElse (← fresh) keyword' condition' body' o) []
          (· = .semicolon)
          (·.unplaced = (Stmt.ifElse id keyword condition body otherwise).unplaced) := by
      intro b o ho
      refine .fresh fun id => .pure ?_
      rw [Stmt.unplaced_ifElse, Stmt.unplaced_ifElse, hkeyword, hc, hb, ho]
    -- Whatever the other branch is, the conditional is put together behind it.
    have other : ∀ {x : Parser Stmt} {xs : List Token} {s : Stmt}, otherwise = some s →
        Accepts line true x xs (· = .semicolon) (·.unplaced = s.unplaced) → Accepts line true
          (do
            let o ← some <$> x
            return Stmt.ifElse (← fresh) keyword' condition' body' o)
          xs (· = .semicolon)
          (·.unplaced = (Stmt.ifElse id keyword condition body otherwise).unplaced) := by
      intro x xs s ho hx
      refine (hx.map (Q := fun o => o.map Stmt.unplaced = some s.unplaced)
        fun _ => congrArg some).bind_nil (fun _ hk => hk) fun o b ho' _ => made b o ?_
      rw [ho', ho, Option.map_some]
    cases otherwise with
    | none => exact .accept_false (by rintro _ rfl; decide) (.known (made true none rfl))
    | some s =>
      simp only [Stmt.spellBranches, List.length_append, Stmt.spellElse, List.length_cons]
        at hlength hfuel
      refine .accept_true rfl (by decide) ?_
      obtain ⟨hbranch, hs⟩ := hotherwise s rfl
      rcases hbranch with ⟨b, rfl⟩ | ⟨id', keyword₁, condition₁, body₁, otherwise₁, rfl⟩
      · rw [Stmt.spell] at hlength ⊢
        rw [← List.append_nil (b.spell ending)]
        refine .accept?_none (fun k hk hmem => ?_) (other rfl ?_)
        · rw [head_block hs hk, List.mem_singleton] at hmem
          cases hmem
        · rw [List.append_nil]
          refine ((accepts_block h hs (by omega)).map fun b' hb' => ?_).mono
            (fun _ _ => trivial) fun _ hs' => hs'
          rw [Stmt.unplaced, Stmt.unplaced, hb']
      · rw [Stmt.spell_ifElse] at hlength hfuel ⊢
        rw [List.length_cons] at hlength hfuel
        have hword := List.mem_singleton.2 (Stmt.grammatical_ifElse.1 hs).1
        refine .accept?_some hword (by decide) fun t ht => ?_
        exact other rfl (ih ht.1 hs (by omega) (by omega))

/-- The rest of a return is accepted. -/
theorem accepts_returnRest (h : g.Complete line ending n) {id : NodeId} {keyword keyword' : Token}
    (value : Option Expr) (hkeyword : Token.PlacedAt line keyword' keyword)
    (hvalue : ∀ e ∈ value, e.Grammatical False)
    (hlength : (value.elim [] (·.spell ending)).length ≤ n) :
    Accepts line behind (returnRest g keyword') (value.elim [] (·.spell ending)) (· = .semicolon)
      (·.unplaced = (Stmt.ret id keyword value).unplaced) := by
  cases value with
  | none =>
    -- A semicolon is next, so no value is read.
    refine .peek fun t (ht : t.kind = .semicolon) => ?_
    simp only [ht]
    rw [if_neg (by simp)]
    refine .known (.fresh fun id => .pure ?_)
    rw [Stmt.unplaced_ret, Stmt.unplaced_ret, hkeyword.1]
  | some e =>
    have he := accepts_expression h e behind (hvalue e rfl) (Nat.zero_le _)
      (Nat.lt_succ_of_le hlength)
    obtain ⟨x, xs, hx, hopening, -⟩ := opens_expr ending e (.inr (hvalue e rfl))
    rw [Option.elim_some, hx]
    rw [hx] at he
    refine .peek_cons fun t ht => ?_
    -- The value begins with none of the tokens that end a statement, and on the line of the word.
    have hends : (t.kind = .rightBrace || t.kind = .semicolon || t.kind = .eof) = false := by
      rw [ht.kind]
      have hall : ∀ k ∈ Token.Kind.opening,
          (k = .rightBrace || k = .semicolon || k = .eof : Bool) = false := by decide
      exact hall _ hopening
    have hline : t.line = keyword'.line := ht.2.trans hkeyword.2.symm
    simp only [hends, hline]
    rw [if_pos (by simp)]
    refine he.some.bind_nil (by rintro _ rfl; exact stops_of_none rfl) fun v _ hv _ =>
      .fresh fun id => .pure ?_
    rw [Stmt.unplaced_ret, Stmt.unplaced_ret, hkeyword.1, hv]
    rfl

/-- What begins like no declaration is a statement. -/
theorem accepts_undeclared {x : Token} {P : Stmt → Prop} (hclass : x.kind ≠ .classWord)
    (hvar : x.kind ≠ .varWord) (hfun : x.kind = .funWord → ∀ k, Next F xs k → k ≠ .identifier)
    (h : Accepts line behind (statement g) (x :: xs) F P) :
    Accepts line behind (bareDeclaration g) (x :: xs) F P := by
  refine .accept_false (by rintro _ rfl; exact hclass) ?_
  refine .check (decide (x.kind = .funWord)) (by rintro _ rfl; rfl) (.peekNext fun t ht => ?_)
  have hplain : ¬(decide (x.kind = .funWord) && decide (t.kind = .identifier)) = true := by
    rw [Bool.and_eq_true_iff, decide_eq_true_iff, decide_eq_true_iff]
    exact fun hboth => hfun hboth.1 _ ht hboth.2
  rw [if_neg hplain]
  exact .accept_false (by rintro _ rfl; exact hvar) h

/-- A statement behind its word. -/
theorem accepts_worded {x : Token} {kind : Token.Kind} {P : Stmt → Prop} (hx : x.kind = kind)
    (hkind : kind ∈ ([.forWord, .ifWord, .whileWord, .returnWord] : List Token.Kind))
    (h : ∀ t, Token.PlacedAt line t x → Accepts line true
      (match kind with
        | .forWord => forRest g t
        | .ifWord => do ifRest g ((← remaining) + 1) t
        | .whileWord => whileRest g t
        | _ => returnRest g t) xs F P) :
    Accepts line behind (bareDeclaration g) (x :: xs) F P := by
  subst hx
  have hall : ∀ kind ∈ ([.forWord, .ifWord, .whileWord, .returnWord] : List Token.Kind),
      kind ≠ .classWord ∧ kind ≠ .varWord ∧ kind ≠ .funWord := by decide
  obtain ⟨hclass, hvar, hfun⟩ := hall _ hkind
  refine accepts_undeclared hclass hvar (fun he => absurd he hfun) ?_
  refine .accept?_some hkind (by decide) fun t ht => ?_
  have haccepts := h t ht
  rw [← ht.kind] at haccepts
  exact haccepts

/-- A block in the place of a statement. -/
theorem accepts_blockStatement (h : g.Complete line ending n) {b : Block}
    (hb : b.Grammatical False) (hlength : (b.spell ending).length ≤ n) :
    Accepts line behind (bareDeclaration g) (b.spell ending) (· = .semicolon)
      (·.unplaced = (Stmt.block b).unplaced) := by
  have hblock : Accepts line behind (block g) (b.spell ending) _ _ :=
    accepts_block h hb (Nat.le_succ_of_le hlength)
  obtain ⟨id, brace, body⟩ := b
  have hbrace : brace.kind = .leftBrace := hb.1
  refine accepts_undeclared (by rw [hbrace]; decide) (by rw [hbrace]; decide)
    (by rw [hbrace]; exact nofun) ?_
  refine .accept?_none (by rintro _ rfl; rw [hbrace]; decide)
    (.check true (by rintro _ rfl; exact decide_eq_true hbrace) ?_)
  refine hblock.bind_nil (fun _ _ => trivial) fun b' _ hb' _ => .pure ?_
  rw [Stmt.unplaced, Stmt.unplaced, hb']

/-- An expression is a statement: no expression opens with a word of another statement. -/
theorem accepts_exprStatement (h : g.Complete line ending n) {value : Expr}
    (hvalue : value.Grammatical False) (hlength : (value.spell ending).length ≤ n) (id : NodeId) :
    Accepts line behind (bareDeclaration g) (value.spell ending) (· = .semicolon)
      (·.unplaced = (Stmt.expr id value).unplaced) := by
  have haccepts := accepts_expression h value behind hvalue (Nat.zero_le _)
    (Nat.lt_succ_of_le hlength)
  obtain ⟨x, xs, hx, hopening, -, -, hfun⟩ := opens_expr ending value (.inr hvalue)
  rw [hx] at haccepts ⊢
  have hne : ∀ kind, kind ∉ Token.Kind.opening → x.kind ≠ kind := fun _ =>
    Token.Kind.ne_of_opening hopening
  -- Behind the word `fun` there is a parenthesis and no name, so it declares nothing.
  refine accepts_undeclared (hne _ (by decide)) (hne _ (by decide)) (fun hk k hk' => ?_) ?_
  · have hparen := hfun hk k (hk'.mono fun hk => by rw [hk]; decide)
    rw [hparen]
    decide
  -- Neither a brace nor one of the words for statements opens an expression.
  have hbrace := hne .leftBrace (by decide)
  refine .accept?_none ?_ (.check false (by rintro _ rfl; exact decide_eq_false hbrace) ?_)
  · have hall : ∀ kind ∈ Token.Kind.opening,
        kind ∉ ([.forWord, .ifWord, .whileWord, .returnWord] : List Token.Kind) := by decide
    rintro _ rfl
    exact hall _ hopening
  · refine haccepts.bind_nil (by rintro _ rfl; exact stops_of_none rfl) fun value' _ hv _ =>
      .fresh fun id => .pure ?_
    rw [Stmt.unplaced, Stmt.unplaced, hv]

/-- A function with a name in the place of a statement. -/
theorem accepts_functionStatement (h : g.Complete line ending n) {id : NodeId} {fn : Lambda}
    (hs : (Stmt.function id fn).Grammatical False) (hlength : (fn.spell ending).length ≤ n) :
    Accepts line behind (bareDeclaration g) (fn.spell ending) (· = .semicolon)
      (·.unplaced = (Stmt.function id fn).unplaced) := by
  obtain ⟨⟨name, hname, hkind⟩, hkeyword, hfn⟩ := hs
  have hspell : fn.spell ending = fn.keyword :: name :: Lambda.spellRest ending fn := by
    rw [Lambda.spell_eq, if_pos hkeyword, hname]
    rfl
  rw [hspell] at hlength ⊢
  -- It is no class, and two tokens are looked at before it is taken for a function with a name.
  refine .accept_false (by rintro _ rfl; rw [hkeyword]; decide) ?_
  refine .check true (by rintro _ rfl; exact decide_eq_true hkeyword) (.peekNext ?_)
  rintro t (ht : t.kind = name.kind)
  rw [if_pos (by rw [ht, hkind]; rfl)]
  refine .advance (by rw [hkeyword]; decide) fun keyword' hk => ?_
  refine (accepts_function h hname hkind hfn hk.1 (Nat.le_of_succ_le hlength)).bind_nil
    (fun _ _ => trivial) fun fn' _ hfn' _ => .fresh fun id => .pure ?_
  rw [Stmt.unplaced, Stmt.unplaced, hfn']

/-- A declaration is accepted in front of its semicolon. -/
theorem accepts_bareDeclaration (h : g.Complete line ending n) (hending : ending.Separates)
    {s : Stmt} (hs : s.Grammatical False) (hlength : (s.spell ending).length ≤ n) :
    Accepts line behind (bareDeclaration g) (s.spell ending) (· = .semicolon)
      (·.unplaced = s.unplaced) := by
  cases s with
  | block b => exact accepts_blockStatement h hs hlength
  | classDecl id name supers ms =>
    obtain ⟨hname, hsupers, hms⟩ := hs
    -- The first token tells which statement is there.
    simp only [Stmt.spell, List.length_cons, List.length_append] at hlength
    refine .accept_true rfl (by decide) ?_
    exact (accepts_classRest h hending hname hsupers hms (by omega)).mono (fun _ _ => trivial)
      fun _ hs => hs
  | expr id value => exact accepts_exprStatement h hs hlength id
  | function id fn => exact accepts_functionStatement h hs hlength
  | ifElse id keyword condition body otherwise =>
    rw [Stmt.spell_ifElse] at hlength ⊢
    refine accepts_worded (Stmt.grammatical_ifElse.1 hs).1 (by decide) fun t ht => ?_
    refine .remaining fun m hm => ?_
    exact accepts_ifRest h _ ht.1 hs (Nat.le_of_succ_le hlength) (Nat.lt_succ_of_lt hm)
  | forIn id keyword name iterable body =>
    obtain ⟨hkeyword, hname, hiterable, hbody⟩ := hs
    simp only [Stmt.spell, List.length_cons, List.length_append] at hlength
    refine accepts_worded hkeyword (by decide) fun t ht => ?_
    exact accepts_forRest h ht.1 hname hiterable hbody (by rw [List.length_append]; omega)
  | ret id keyword value =>
    obtain ⟨hkeyword, hvalue⟩ := Stmt.grammatical_ret.1 hs
    rw [Stmt.spell_ret] at hlength ⊢
    refine accepts_worded hkeyword (by decide) fun t ht => ?_
    exact accepts_returnRest h value ht hvalue (Nat.le_of_succ_le hlength)
  | varDecl id name initial =>
    obtain ⟨hname, hinitial⟩ := Stmt.grammatical_varDecl.1 hs
    rw [Stmt.spell_varDecl] at hlength ⊢
    simp only [List.length_cons] at hlength
    refine .accept_false (by rintro _ rfl; decide) (.check false (by rintro _ rfl; rfl) ?_)
    refine .peekNext fun _ _ => .accept_true rfl (by decide) ?_
    exact accepts_varRest h initial hname hinitial (by omega)
  | whileLoop id keyword condition body =>
    obtain ⟨hkeyword, hcondition, hbody⟩ := hs
    refine accepts_worded hkeyword (by decide) fun t ht => ?_
    exact accepts_whileRest h ht.1 hcondition hbody (Nat.le_of_succ_le hlength)

/-- A declaration is accepted with its semicolon. -/
theorem accepts_declaration (h : g.Complete line ending n) (hending : ending.Separates) {s : Stmt}
    (hs : s.Grammatical False) (hlength : (s.spell ending ++ ending.stmt).length ≤ n) :
    Accepts line behind (declaration g) (s.spell ending ++ ending.stmt) (fun _ => True)
      (·.unplaced = s.unplaced) := by
  rw [hending.stmt]
  rw [List.length_append] at hlength
  refine (accepts_bareDeclaration h hending hs (by omega)).bind (by rintro _ rfl; rfl)
    fun s' b hs' _ => ?_
  exact .accept_true rfl (by decide) (.pure hs')

/-- However deep expressions and statements nest, they are accepted. -/
theorem nested_complete (line : Nat) (hending : ending.Separates) (levels : Nat) :
    (nested levels).Complete line ending levels := by
  induction levels with
  | zero => exact ⟨nofun, nofun⟩
  | succ levels ih =>
    exact ⟨accepts_expression ih, fun s behind hs hlength =>
      accepts_declaration ih hending hs (Nat.le_of_lt_succ hlength)⟩

/-! ### Programs -/

/-- A program of the grammar is made again, without errors. -/
theorem programFrom_complete (h : g.Complete line ending n) (hending : ending.Separates)
    {program : List Stmt} (hprogram : Stmt.AllGrammatical False program) {ts : List Token}
    (hts : Token.Placed line ts (Stmt.spellAll ending program)) {last : Token}
    (hlast : last.kind = .eof) (hlength : ts.length ≤ n) {fuel : Nat} (hfuel : ts.length ≤ fuel)
    {s : State} (hs : s.rest = ts ++ [last]) :
    (programFrom g fuel s).2.errors = s.errors ∧
      (programFrom g fuel s).1.map Stmt.unplaced = program.map Stmt.unplaced := by
  -- On the statements; the state that the parse is in goes along.
  induction program generalizing ts fuel s with
  | nil =>
    cases hts
    cases fuel with
    | zero => exact ⟨rfl, rfl⟩
    | succ fuel =>
      have hend : (s.rest.headD .absent).kind = .eof := by
        rw [hs]
        exact hlast
      rw [programFrom, if_pos hend]
      exact ⟨rfl, rfl⟩
  | cons stmt rest ih =>
    obtain ⟨hstmt, hrest⟩ := hprogram
    -- The tokens are parted where the first statement ends.
    obtain ⟨ts₁, ts₂, rfl, hts₁, hts₂⟩ := hts.split
    rw [List.length_append] at hlength hfuel
    rw [List.append_assoc] at hs
    obtain ⟨x, xs, hx, -, heof⟩ := opens_stmt ending hstmt
    have haccepts : Accepts line false (declaration g) _ _ _ :=
      accepts_declaration h hending hstmt (by rw [← hts₁.length_eq]; omega)
    -- The declaration is accepted in front of what is left.
    obtain ⟨next, rest', hnext⟩ : ∃ next rest', ts₂ ++ [last] = next :: rest' :=
      List.exists_cons_of_ne_nil (by simp)
    obtain ⟨stmt', s', hrun, hrest', herrors, -, hstmt'⟩ :=
      haccepts ts₁ next rest' s hts₁ (hnext ▸ hs) trivial nofun
    rw [hx] at hts₁
    cases hts₁ with
    | @cons t _ ts₁ _ ht _ =>
      rw [List.length_cons] at hlength hfuel
      obtain ⟨fuel, rfl⟩ := Nat.exists_eq_add_one_of_ne_zero (n := fuel) (by omega)
      -- The statement has a first token, and it does not mark the end.
      have hmore : ¬(s.rest.headD .absent).kind = .eof := by
        rw [hs]
        exact fun he => heof (ht.kind.symm.trans he)
      have hfuel₂ : ts₂.length ≤ fuel := by omega
      obtain ⟨herrors', hall⟩ := ih hrest hts₂ (by omega) hfuel₂ (hrest'.trans hnext.symm)
      rw [programFrom, if_neg hmore, hrun]
      exact ⟨herrors'.trans herrors, by rw [List.map_cons, List.map_cons, hstmt', hall]⟩

/-- Every program of the grammar is parsed from the tokens that it spells on one line, with
semicolons behind its statements: without errors, and up to places and identities it is made again.
-/
theorem parse_accepts_spelling (hending : ending.Separates) {program : List Stmt}
    (hprogram : Stmt.AllGrammatical False program) {ts : List Token}
    (hts : Token.Placed line ts (Stmt.spellAll ending program)) {last : Token}
    (hlast : last.kind = .eof) (id : NodeId) :
    (tokens (ts ++ [last]) id).errors = [] ∧
      Stmt.unplacedAll (tokens (ts ++ [last]) id).program = Stmt.unplacedAll program := by
  have hcomplete := nested_complete line hending ((ts ++ [last]).length + 1)
  have hlength : ts.length ≤ (ts ++ [last]).length := by
    rw [List.length_append]
    omega
  obtain ⟨herrors, hall⟩ := programFrom_complete (s := { rest := ts ++ [last], nextId := id })
    hcomplete hending hprogram hts hlast (Nat.le_succ_of_le hlength) hlength rfl
  refine ⟨List.reverse_eq_nil_iff.2 herrors, ?_⟩
  rw [Stmt.unplacedAll_eq_map, Stmt.unplacedAll_eq_map]
  exact hall

/-- A call with operators in a positional argument, and a named argument. -/
theorem parse_accepts_spelling_call :
    let name (s : String) : Token := .synthetic s
    let program : List Stmt := [.expr 0 (.call 0 (.var ⟨0, name "f"⟩) (.mark .rightParen)
      [.binary 0 (.var ⟨0, name "a"⟩) (.mark .minus) (.unary 0 (.mark .minus) (.var ⟨0, name "b"⟩))]
      [⟨name "c", .self 0 (.mark .selfWord)⟩])]
    let ts := (Stmt.spellAll ⟨[.mark .semicolon], []⟩ program).map fun t => { t with line := 1 }
    (tokens (ts ++ [.absent]) 0).errors = [] ∧
      Stmt.unplacedAll (tokens (ts ++ [.absent]) 0).program = Stmt.unplacedAll program := by
  intro name program ts
  have hprogram : Stmt.AllGrammatical False program :=
    ⟨⟨rfl, .inr rfl, rfl, ⟨⟨⟨5, rfl, by decide, by decide, by decide, by decide⟩, rfl,
      .inr rfl, by decide, rfl⟩, trivial⟩, ⟨⟨rfl, rfl⟩, trivial⟩, by simp [name]⟩, trivial⟩
  have hts : Token.Placed 1 ts (Stmt.spellAll ⟨[.mark .semicolon], []⟩ program) :=
    List.forall₂_map_left_iff.2 (List.forall₂_same.2 fun _ _ => ⟨rfl, rfl⟩)
  exact parse_accepts_spelling ⟨rfl, .inl rfl⟩ hprogram hts rfl 0

end Parse

end ClassScript
