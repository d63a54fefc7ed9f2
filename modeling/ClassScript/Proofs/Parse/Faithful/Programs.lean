import ClassScript.Proofs.Parse.Faithful.Expressions

/-!
# A source without errors consists of what its program spells

Statements take the tokens that they spell, up to semicolons, and so do programs. Behind an error
the parse goes on at a later statement, but its errors are never taken back.
-/

namespace ClassScript

namespace Parse

variable {g : Nested} {n : Nat} {ts : List Token}

/-! ### Statements -/

/-- A statement was read from tokens. -/
structure ReadStmt (taken : List Token) (s : Stmt) : Prop where
  /-- The statement spells the tokens. -/
  written : Written taken fun ending => s.spell ending
  /-- The statement is one of the grammar. -/
  grammatical : s.Grammatical True

/-- A function with a name was read from tokens, behind the word that it may start with. -/
structure ReadFunction (ts : List Token) (keyword : Token) (taken : List Token) (fn : Lambda) :
    Prop where
  /-- The function starts with the token that was given. -/
  keyword_eq : fn.keyword = keyword
  /-- The name is the first token. -/
  name_eq : ∃ name, ts.head? = some name ∧ fn.name = some name ∧ name.kind = .identifier
  /-- The function is one of the grammar. -/
  grammatical : fn.Grammatical True
  /-- The function spells what it starts with and the tokens. -/
  written : ∀ before, (Written before fun _ => if keyword.kind = .funWord then [keyword] else []) →
    Written (before ++ taken) fun ending => fn.spell ending

/-- A function with a name is read as it is spelled. -/
theorem reads_function (h : g.Faithful n) (hts : ts.length ≤ n) (keyword : Token) :
    Reads True ts (function g keyword) (ReadFunction ts keyword) := by
  refine .expectKept (by decide) (by decide) ?_
  rintro name rest rfl hname hkept
  refine (reads_lambdaRest h (Nat.le_of_succ_le hts) keyword (some name)).mono fun taken fn hfn => ?_
  refine ⟨hfn.keyword_eq, ⟨name, rfl, hfn.name_eq, hname⟩, hfn.grammatical, fun before hbefore => ?_⟩
  have hall := hfn.written (before ++ [name]) (hbefore.append hkept)
  rwa [List.append_assoc, List.singleton_append] at hall

/-- The superclasses of a class are read as they are spelled. -/
theorem reads_superclasses (fuel : Nat) (hfuel : ts.length ≤ fuel) (supers : List NameUse) :
    Reads True ts (superclasses fuel supers) fun taken all =>
      ReadRow (·.name.kind = .identifier) (fun _ s => [s.name]) supers taken all ∧ True := by
  -- On the fuel. There is some for every token, so it does not run out in front of the end.
  induction fuel generalizing ts supers with
  | zero =>
    exact .proper fun hp => absurd (List.length_eq_zero_iff.1 (Nat.le_zero.1 hfuel)) hp.ne_nil
  | succ fuel ih =>
    refine .expectKept (by decide) (by decide) ?_
    rintro name rest rfl hname hkept
    rw [List.length_cons] at hfuel
    refine .fresh fun id => ?_
    refine (ReadRow.reads_more (fun _ => True) supers [name]
      fun rest' hrest' => ih (by omega) _).weaken fun _ => ?_
    exact ⟨.single (a := NameUse.mk id name) hname hkept, trivial⟩

/-- Methods are read behind others as they are spelled. -/
theorem reads_methods (h : g.Faithful n) (fuel : Nat) (hts : ts.length ≤ n) (ms : List Lambda) :
    Reads True ts (methods g fuel ms) fun taken all => ∃ new, all = ms ++ new ∧
      Lambda.AllGrammatical True new ∧ Written taken fun ending => Lambda.spellAll ending new := by
  induction fuel generalizing ts ms with
  | zero => exact .pure fun _ => ⟨[], (List.append_nil _).symm, trivial, .nil⟩
  | succ fuel ih =>
    -- A method behind its word `fun`; without that word, it starts with its name.
    have method : ∀ (before rest : List Token) (keyword : Token), ts = before ++ rest →
        (rest.head? = some keyword ∧ before = [] ∨
          keyword.kind = .funWord ∧ Written before fun _ => [keyword]) →
        Reads True rest
          (do
            unless ← check .identifier do Parse.fail (← peek) .methodName
            let m ← function g keyword
            let _ ← accept .semicolon
            methods g fuel (ms ++ [m]))
          fun taken all => ∃ new, all = ms ++ new ∧ Lambda.AllGrammatical True new ∧
            Written (before ++ taken) fun ending => Lambda.spellAll ending new := by
      intro before rest keyword hsplit hkeyword
      rw [hsplit, List.length_append] at hts
      refine .check ?_
      split
      · refine (reads_function h (by omega) keyword).bind fun taken rest' fn hsplit' => ?_
        refine .acceptEnding Endings.method rfl rfl fun _ ending rest'' hending hwritten => ?_
        rw [hsplit', hending, List.length_append, List.length_append] at hts
        refine (ih (by omega) (ms ++ [fn])).frame (fun _ => trivial) ?_
        rintro taken' all hfn ⟨new, rfl, hnew, hwritten'⟩
        obtain ⟨name, hhead, hname, hkind⟩ := hfn.name_eq
        have hstart : (fn.keyword.kind = .funWord ∨ fn.name = some fn.keyword) ∧
            Written before fun _ => if keyword.kind = .funWord then [keyword] else [] := by
          rw [hfn.keyword_eq]
          rcases hkeyword with ⟨hfirst, rfl⟩ | ⟨hword, hbefore⟩
          · obtain rfl : name = keyword := Option.some.inj (hhead.symm.trans hfirst)
            rw [hkind]
            exact ⟨.inr hname, .nil⟩
          · rw [if_pos hword]
            exact ⟨.inl hword, hbefore⟩
        refine ⟨fn :: new, by rw [List.append_assoc, List.singleton_append],
          ⟨⟨⟨name, hname, hkind⟩, hstart.1, hfn.grammatical⟩, hnew⟩, ?_⟩
        simpa [Lambda.spellAll] using
          (hfn.written before hstart.2).append (hwritten.append hwritten')
      · exact .peek (.fail _ _)
    refine .check (.atEnd ?_)
    split
    · exact .pure fun _ => ⟨[], (List.append_nil _).symm, trivial, .nil⟩
    · refine .proper fun hp => .peek (.accept (by decide) ?_ ?_)
      · obtain ⟨t, rest, rfl⟩ := List.exists_cons_of_ne_nil hp.ne_nil
        exact method [] _ t rfl (.inl ⟨rfl, rfl⟩)
      · rintro word rest rfl hword
        exact method [word] rest word rfl (.inr ⟨hword, .token (by rw [hword]; decide)⟩)

/-- The rest of a class is read as it is spelled. -/
theorem reads_classRest (h : g.Faithful n) (hts : ts.length ≤ n) {keyword : Token}
    (hkeyword : Written [keyword] fun _ => [.mark .classWord]) :
    Reads True ts (classRest g) fun taken s => ReadStmt (keyword :: taken) s := by
  refine .expectKept (by decide) (by decide) ?_
  rintro name rest rfl hname hkept
  rw [List.length_cons] at hts
  -- Behind superclasses that were read, the methods in braces make the class.
  have body : ∀ (taken rest' : List Token) (supers : List NameUse), rest = taken ++ rest' → Reads
      ((∀ s ∈ supers, s.name.kind = .identifier) ∧
        Written taken fun _ => NameUse.spellSupers supers) rest'
      (do
        let _ ← expect .leftBrace .classOpen
        let ms ← methods g (← remaining) []
        let _ ← expect .rightBrace .classClose
        return Stmt.classDecl (← fresh) name supers ms)
      fun taken' s => ReadStmt (keyword :: name :: (taken ++ taken')) s := by
    intro taken rest' supers hsplit
    rw [hsplit, List.length_append] at hts
    refine .expectMark rfl (by decide) ?_
    rintro opening rest'' rfl hopening
    rw [List.length_cons] at hts
    refine .remaining (((reads_methods h _ (by omega) []).frame (fun _ => trivial)
      fun _ _ => And.intro).bind fun taken' _ ms _ => ?_)
    refine .expectMark rfl (by decide) fun closing _ _ hclosing => .fresh fun id => .pure ?_
    rintro ⟨⟨hsupers, hwritten⟩, new, rfl, hnew, hmethods⟩
    exact ⟨hkeyword.append (hkept.append (hwritten.append (hopening.append
      (hmethods.append hclosing)))), hname, hsupers, hnew⟩
  refine .acceptMark rfl (by decide) (.known ?_) ?_
  · exact (body [] rest [] rfl).weaken fun _ => ⟨List.forall_mem_nil _, .nil⟩
  · -- There is a superclass at least behind the sign, so the sign is spelled too.
    rintro less rest' rfl hless
    refine .remaining ((reads_superclasses _ (Nat.le_refl _) []).bind
      fun taken rest'' supers hsplit => ?_)
    refine ((body (less :: taken) rest'' supers (by rw [hsplit]; rfl)).weaken ?_).mono
      fun taken' s hs => hs
    rintro ⟨⟨new, rfl, hne, hnew, hwritten⟩, -⟩
    refine ⟨hnew, (hless.append hwritten).congr fun _ => ?_⟩
    obtain ⟨s, rest, rfl⟩ := List.exists_cons_of_ne_nil hne
    rfl

/-- The rest of a variable's declaration is read as it is spelled. -/
theorem reads_varRest (h : g.Faithful n) (hts : ts.length ≤ n) {keyword : Token}
    (hkeyword : Written [keyword] fun _ => [.mark .varWord]) :
    Reads True ts (varRest g) fun taken s => ReadStmt (keyword :: taken) s := by
  refine .expectKept (by decide) (by decide) ?_
  rintro name rest rfl hname hkept
  rw [List.length_cons] at hts
  -- The equals sign is there with a value, and missing without one.
  refine .acceptMark rfl (by decide) (.known ?_) ?_
  · exact .fresh fun id => .pure fun _ => ⟨hkeyword.append hkept, hname⟩
  · rintro equal rest' rfl hequal
    rw [List.length_cons] at hts
    refine (reads_some (reads_expression h (by omega))).bind fun taken _ v _ =>
      .fresh fun id => .pure ?_
    rintro ⟨e, rfl, he⟩
    rw [List.append_nil]
    exact ⟨hkeyword.append (hkept.append (hequal.append he.written)), hname, he.grammatical⟩

/-- The rest of a loop over items is read as it is spelled. -/
theorem reads_forRest (h : g.Faithful n) (hts : ts.length ≤ n) {keyword : Token}
    (hkeyword : keyword.kind = .forWord) :
    Reads True ts (forRest g keyword) fun taken s => ReadStmt (keyword :: taken) s := by
  have hfor : Written [keyword] fun _ => [keyword] := .token (by rw [hkeyword]; decide)
  refine .expectKept (by decide) (by decide) ?_
  rintro name rest rfl hname hkept
  refine .expectMark rfl (by decide) ?_
  rintro word rest' rfl hword
  simp only [List.length_cons] at hts
  -- The expression and the block behind it are read with what is left.
  refine (reads_expression h (by omega)).bind fun taken rest'' iterable hsplit => ?_
  rw [hsplit, List.length_append] at hts
  refine ((reads_block h (by omega)).frame (fun _ => trivial) fun _ _ => And.intro).bind
    fun taken' _ body _ => .fresh fun id => .pure ?_
  rintro ⟨hiterable, hbody⟩
  rw [List.append_nil]
  exact ⟨hfor.append (hkept.append (hword.append (hiterable.written.append hbody.written))),
    hkeyword, hname, hiterable.grammatical, hbody.grammatical⟩

/-- The rest of a loop with a condition is read as it is spelled. -/
theorem reads_whileRest (h : g.Faithful n) (hts : ts.length ≤ n) {keyword : Token}
    (hkeyword : keyword.kind = .whileWord) :
    Reads True ts (whileRest g keyword) fun taken s => ReadStmt (keyword :: taken) s := by
  have hkept : Written [keyword] fun _ => [keyword] := .token (by rw [hkeyword]; decide)
  refine (reads_expression h hts).bind fun taken rest condition hsplit => ?_
  rw [hsplit, List.length_append] at hts
  refine ((reads_block h (by omega)).frame (fun _ => trivial) fun _ _ => And.intro).bind
    fun taken' _ body _ => .fresh fun id => .pure ?_
  rintro ⟨hcondition, hbody⟩
  rw [List.append_nil]
  exact ⟨hkept.append (hcondition.written.append hbody.written), hkeyword,
    hcondition.grammatical, hbody.grammatical⟩

/-- The rest of a return is read as it is spelled. -/
theorem reads_returnRest (h : g.Faithful n) (hts : ts.length ≤ n) {keyword : Token}
    (hkeyword : keyword.kind = .returnWord) :
    Reads True ts (returnRest g keyword) fun taken s => ReadStmt (keyword :: taken) s := by
  have hkept : Written [keyword] fun _ => [keyword] := .token (by rw [hkeyword]; decide)
  refine .peek ?_
  dsimp only
  split
  · refine (reads_some (reads_expression h hts)).bind fun taken _ v _ =>
      .fresh fun id => .pure ?_
    rintro ⟨e, rfl, he⟩
    rw [List.append_nil]
    exact ⟨hkept.append he.written, hkeyword, he.grammatical⟩
  · exact .known (.fresh fun id => .pure fun _ => ⟨hkept, hkeyword⟩)

/-- The rest of a conditional is read as it is spelled. -/
theorem reads_ifRest (h : g.Faithful n) (fuel : Nat) (hts : ts.length ≤ n)
    (hfuel : ts.length < fuel) {keyword : Token} (hkeyword : keyword.kind = .ifWord) :
    Reads True ts (ifRest g fuel keyword) fun taken s =>
      ReadStmt (keyword :: taken) s ∧ Branch s := by
  induction fuel generalizing ts keyword with
  | zero => exact absurd hfuel (Nat.not_lt_zero _)
  | succ fuel ih =>
    have hkept : Written [keyword] fun _ => [keyword] := .token (by rw [hkeyword]; decide)
    refine (reads_expression h hts).bind fun taken₁ rest₁ condition hsplit₁ => ?_
    rw [hsplit₁, List.length_append] at hts hfuel
    refine ((reads_block h (by omega)).frame (fun _ => trivial) fun _ _ => And.intro).bind
      fun taken₂ rest₂ body hsplit₂ => ?_
    rw [hsplit₂, List.length_append] at hts hfuel
    have hfront : ReadExpr 0 taken₁ condition → ReadBlock taken₂ body →
        Written (keyword :: (taken₁ ++ taken₂)) fun ending =>
          keyword :: (condition.spell ending ++ body.spell ending) := fun hcondition hbody =>
      hkept.append (hcondition.written.append hbody.written)
    -- Whatever the other branch is, it is read before the conditional is put together.
    have other : ∀ (x : Parser Stmt) (word : Token) (front ts : List Token),
        (Written [word] fun _ => [.mark .elseWord]) →
        (Reads True ts x fun taken s => ReadStmt (front ++ taken) s ∧ Branch s) →
        Reads (ReadExpr 0 taken₁ condition ∧ ReadBlock taken₂ body) ts
          (do
            let otherwise ← some <$> x
            return Stmt.ifElse (← fresh) keyword condition body otherwise)
          fun taken s =>
            ReadStmt (keyword :: (taken₁ ++ (taken₂ ++ word :: (front ++ taken)))) s ∧ Branch s := by
      intro x word front ts hword hx
      refine ((hx.map (R := fun taken o => ∃ s, o = some s ∧ ReadStmt (front ++ taken) s ∧ Branch s)
        fun _ s hs => ⟨s, rfl, hs⟩).frame (fun _ => trivial) fun _ _ => And.intro).bind
        fun taken _ otherwise _ => .fresh fun id => .pure ?_
      rintro ⟨⟨hcondition, hbody⟩, s, rfl, hs, hbranch⟩
      refine ⟨⟨?_, hkeyword, hcondition.grammatical, hbody.grammatical, hbranch, hs.grammatical⟩,
        .inr ⟨_, _, _, _, _, rfl⟩⟩
      simpa [Stmt.spell] using (hfront hcondition hbody).append (hword.append hs.written)
    refine .acceptMark rfl (by decide) (.known (.fresh fun id => .pure ?_)) ?_
    · rintro ⟨hcondition, hbody⟩
      rw [List.append_nil]
      exact ⟨⟨hfront hcondition hbody, hkeyword, hcondition.grammatical, hbody.grammatical⟩,
        .inr ⟨_, _, _, _, _, rfl⟩⟩
    · rintro word rest rfl hword
      rw [List.length_cons] at hts hfuel
      refine .accept? (by decide) ?_ ?_
      · exact other _ word [] rest hword ((reads_block h (by omega)).map fun _ b hb =>
          ⟨⟨hb.written, hb.grammatical⟩, .inl ⟨b, rfl⟩⟩)
      · rintro keyword' rest' rfl hkeyword'
        rw [List.length_cons] at hts hfuel
        exact other _ word [keyword'] rest' hword
          (ih (by omega) (by omega) (List.mem_singleton.1 hkeyword'))

/-- Statements are read as they are spelled. -/
theorem reads_statement (h : g.Faithful n) (hts : ts.length ≤ n) :
    Reads True ts (statement g) ReadStmt := by
  refine .accept? (by decide) ?_ ?_
  · -- No word begins the statement: a block, or an expression.
    refine .check ?_
    split
    · refine (reads_block h hts).bind fun taken _ b _ => .pure fun hb => ?_
      rw [List.append_nil]
      exact ⟨hb.written, hb.grammatical⟩
    · refine (reads_expression h hts).bind fun taken _ e _ => .fresh fun id => .pure fun he => ?_
      rw [List.append_nil]
      exact ⟨he.written, he.grammatical⟩
  · -- A word does. One token is taken, so what is behind it is shorter.
    rintro keyword rest rfl hmem
    rw [List.length_cons] at hts
    dsimp only
    split
    · next hkind => exact reads_forRest h (by omega) hkind
    · next hkind =>
      exact .remaining ((reads_ifRest h _ (by omega) (Nat.lt_succ_self _) hkind).mono
        fun _ _ hs => hs.1)
    · next hkind => exact reads_whileRest h (by omega) hkind
    · -- Of the words that begin a statement only `return` is left.
      next hfor hif hwhile =>
      have hkind : keyword.kind = .forWord ∨ keyword.kind = .ifWord ∨ keyword.kind = .whileWord ∨
          keyword.kind = .returnWord := by simpa using hmem
      exact reads_returnRest h (by omega)
        (((hkind.resolve_left hfor).resolve_left hif).resolve_left hwhile)

/-- Declarations are read as they are spelled, up to their end. -/
theorem reads_bareDeclaration (h : g.Faithful n) (hts : ts.length ≤ n) :
    Reads True ts (bareDeclaration g) ReadStmt := by
  refine .acceptMark rfl (by decide) ?_ ?_
  · refine .check (.peekNext ?_)
    split
    · -- A function: its word is taken for the keyword, which is spelled in front of it.
      next hnext =>
      have hhead := of_decide_eq_true (Bool.and_eq_true_iff.1 hnext).1
      refine .advance_of_head hhead (by decide) (by decide) fun keyword rest heq hkind hkept => ?_
      subst heq
      refine (reads_function h (Nat.le_of_succ_le hts) keyword).bind fun taken _ fn _ =>
        .fresh fun id => .pure fun hfn => ?_
      rw [List.append_nil]
      obtain ⟨name, -, hname⟩ := hfn.name_eq
      refine ⟨hfn.written [keyword] ?_, ⟨name, hname⟩, by rwa [hfn.keyword_eq], hfn.grammatical⟩
      rwa [if_pos hkind]
    · refine .acceptMark rfl (by decide) (reads_statement h hts) ?_
      rintro keyword rest rfl hkeyword
      exact reads_varRest h (Nat.le_of_succ_le hts) hkeyword
  · rintro keyword rest rfl hkeyword
    exact reads_classRest h (Nat.le_of_succ_le hts) hkeyword

/-- A declaration is read with the semicolon behind it, if there is one. -/
theorem reads_declaration (h : g.Faithful n) (hts : ts.length ≤ n) :
    Reads True ts (declaration g) fun taken s =>
      Written taken (fun ending => s.spell ending ++ ending.stmt) ∧ s.Grammatical True := by
  refine (reads_bareDeclaration h hts).bind fun taken rest s _ => ?_
  refine .acceptEnding Endings.stmt rfl rfl fun _ ending _ _ hending =>
    .pure fun hs => ⟨?_, hs.grammatical⟩
  rw [List.append_nil]
  exact hs.written.append hending

/-- However deep expressions and declarations nest, they are read as they spell. -/
theorem nested_faithful (levels : Nat) : (nested levels).Faithful levels := by
  induction levels with
  | zero => exact ⟨nofun, nofun⟩
  | succ levels ih =>
    exact ⟨fun ts hts => reads_expression ih (Nat.le_of_lt_succ hts),
      fun ts hts => reads_declaration ih (Nat.le_of_lt_succ hts)⟩

/-! ### Programs -/

/-- The search for the next statement keeps to the tokens. -/
theorem reads_skipToStatement (fuel : Nat) :
    Reads True ts (skipToStatement fuel) fun _ _ => True := by
  -- On the fuel. The search stops at the end, behind a semicolon and in front of a keyword.
  induction fuel generalizing ts with
  | zero => exact .pure id
  | succ fuel ih =>
    refine .atEnd ?_
    split
    · exact .pure id
    · refine .previous fun last => ?_
      split
      · exact .pure id
      · refine .peek ?_
        split
        · exact .pure id
        · exact .advanceUnlessEnd (fun _ => ih) fun _ _ _ => ih

/-- So does everything behind an error up to that statement. -/
theorem reads_synchronize : Reads True ts synchronize fun _ _ => True :=
  .advanceUnlessEnd (fun _ => .remaining (reads_skipToStatement _))
    fun _ _ _ => .remaining (reads_skipToStatement _)

/-- Errors are never taken back. -/
theorem errors_programFrom (h : g.Faithful n) (fuel : Nat) {s : State} (hp : Proper s.rest)
    (hn : s.rest.length ≤ n) (he : (programFrom g fuel s).2.errors = []) : s.errors = [] := by
  -- On the rounds. An error that is there stays there, so a list that is empty at the end was empty
  -- all along.
  induction fuel generalizing s with
  | zero => exact he
  | succ fuel ih =>
    unfold programFrom at he
    split at he
    · exact he
    · split at he
      · next stmt s' hd =>
        obtain ⟨hback, hp', taken, hts, -⟩ :=
          (reads_declaration h hn).ok rfl hp (fun _ => trivial) hd
        rw [hts, List.length_append] at hn
        exact hback (ih hp' (by omega) he)
      · -- A declaration that is given up has left an error, and what is skipped takes none back.
        next s' hd =>
        obtain ⟨hne, hp', hsuffix⟩ := (reads_declaration h hn).error rfl hp (fun _ => trivial) hd
        have hn' := Nat.le_trans hsuffix.length_le hn
        split at he
        · next s'' hsync =>
          obtain ⟨hback, hp'', taken, hts, -⟩ :=
            reads_synchronize.ok rfl hp' (fun _ => trivial) hsync
          rw [hts, List.length_append] at hn'
          exact absurd (hback (ih hp'' (by omega) he)) hne
        · next s'' hsync =>
          exact absurd he (reads_synchronize.error rfl hp' (fun _ => trivial) hsync).1
      · next s' hd =>
        exact absurd he ((reads_declaration h hn).error rfl hp (fun _ => trivial) hd).1

/-- A program without errors takes all tokens in front of the mark of the end, and spells them. -/
theorem written_programFrom (h : g.Faithful n) (fuel : Nat) {s : State} (hp : Proper s.rest)
    (hn : s.rest.length ≤ n) (hfuel : s.rest.length ≤ fuel)
    (he : (programFrom g fuel s).2.errors = []) :
    ∃ taken last rest, s.rest = taken ++ last :: rest ∧ last.kind = .eof ∧
      (Written taken fun ending => Stmt.spellAll ending (programFrom g fuel s).1) ∧
      Stmt.AllGrammatical True (programFrom g fuel s).1 := by
  induction fuel generalizing s with
  | zero => exact absurd (List.length_eq_zero_iff.1 (Nat.le_zero.1 hfuel)) hp.ne_nil
  | succ fuel ih =>
    have hall := errors_programFrom h (fuel + 1) hp hn he
    unfold programFrom at he ⊢
    split at he
    · next hend =>
      obtain ⟨last, rest, hrest⟩ := List.exists_cons_of_ne_nil hp.ne_nil
      rw [if_pos hend]
      rw [hrest] at hend
      exact ⟨[], last, rest, hrest, hend, .nil, trivial⟩
    · next hend =>
      rw [if_neg hend]
      cases hd : declaration g s with
      | ok stmt s' =>
        rw [hd] at he
        obtain ⟨-, hp', before, hts, hq⟩ :=
          (reads_declaration h hn).ok rfl hp (fun _ => trivial) hd
        rw [hts, List.length_append] at hn hfuel
        obtain ⟨hwritten, hstmt⟩ := hq (errors_programFrom h fuel hp' (by omega) he)
        -- A declaration spells at least one token, so the fuel lasts for what is left.
        have hpos := List.length_pos_iff.2 (hwritten.ne_nil
          (List.append_ne_nil_of_left_ne_nil (stmt.spell_ne_nil .omitted) _))
        obtain ⟨taken, last, rest, hrest, hlast, hwritten', hprogram⟩ :=
          ih hp' (by omega) (by omega) he
        exact ⟨before ++ taken, last, rest, by rw [hts, hrest, List.append_assoc], hlast,
          hwritten.append hwritten', hstmt, hprogram⟩
      | error e s' =>
        rw [hd] at he
        obtain ⟨hne, hp', hsuffix⟩ := (reads_declaration h hn).error rfl hp (fun _ => trivial) hd
        have hn' := Nat.le_trans hsuffix.length_le hn
        cases e with
        | exhausted => exact absurd he hne
        | bailout =>
          -- The error was reported, and nothing that follows takes it back.
          cases hsync : synchronize s' with
          | ok u s'' =>
            simp only [hsync] at he
            obtain ⟨hback, hp'', taken, hts, -⟩ :=
              reads_synchronize.ok rfl hp' (fun _ => trivial) hsync
            rw [hts, List.length_append] at hn'
            exact absurd (hback (errors_programFrom h fuel hp'' (by omega) he)) hne
          | error e' s'' =>
            simp only [hsync] at he
            exact absurd he (reads_synchronize.error rfl hp' (fun _ => trivial) hsync).1

/-- The tokens of every source are proper. -/
theorem proper_scan (src : List Glyph) : Proper (Token.scan src) := by
  obtain ⟨body, last, hscan, hlast, -⟩ := Token.scanFrom_eq_append .start (Token.untilNul src)
  refine ⟨Token.regular_scanFrom (by decide) _, last, ?_, hlast⟩
  rw [Token.scan, hscan, List.getLast?_append_cons, List.getLast?_singleton]

/-- The first mark of the end is the last token of a source. -/
theorem scan_split {src : List Glyph} {taken rest : List Token} {last : Token}
    (h : Token.scan src = taken ++ last :: rest) (hlast : last.kind = .eof) :
    rest = [] ∧ ∀ t ∈ taken, t.kind ≠ .eof := by
  -- The scanner puts one mark of the end, behind all other tokens.
  obtain ⟨body, last', hscan, -, hbody⟩ := Token.scanFrom_eq_append .start (Token.untilNul src)
  have hdrop : body = (taken ++ last :: rest).dropLast := by
    rw [← h, Token.scan, hscan, List.dropLast_concat]
  rw [List.dropLast_append_of_ne_nil (List.cons_ne_nil _ _)] at hdrop
  cases rest with
  | nil =>
    rw [List.dropLast_singleton, List.append_nil] at hdrop
    exact ⟨rfl, hdrop ▸ hbody⟩
  | cons t rest =>
    refine absurd hlast (hbody last ?_)
    rw [hdrop, List.dropLast_cons_of_ne_nil (List.cons_ne_nil _ _)]
    exact List.mem_append_right _ List.mem_cons_self

/-- A source that is parsed without errors consists of the tokens of its program and the mark of the
end. -/
theorem written_tokens {src : List Glyph} {n : NodeId}
    (h : (tokens (Token.scan src) n).errors = []) :
    ∃ taken last, Token.scan src = taken ++ [last] ∧ last.kind = .eof ∧
      (∀ t ∈ taken, t.kind ≠ .eof) ∧
      (Written taken fun ending => Stmt.spellAll ending (tokens (Token.scan src) n).program) ∧
      Stmt.AllGrammatical True (tokens (Token.scan src) n).program := by
  have he := List.reverse_eq_nil_iff.1 h
  obtain ⟨taken, last, rest, hscan, hlast, hwritten, hprogram⟩ :=
    written_programFrom (nested_faithful _) _ (s := { rest := Token.scan src, nextId := n })
      (proper_scan src) (Nat.le_succ _) (Nat.le_refl _) he
  change Token.scan src = taken ++ last :: rest at hscan
  obtain ⟨rfl, htaken⟩ := scan_split hscan hlast
  exact ⟨taken, last, hscan, hlast, htaken, hwritten, hprogram⟩

/-- A source that is parsed without errors consists of the tokens that its program spells: without
the mark of the end and without semicolons they are the tokens of the program in the order of the
grammar, and every semicolon stands at the end of a statement or a method. The program is one of the
grammar, so that its operands are as tight as their operators need them to be. -/
theorem parse_reads_spelling (src : List Glyph) (n : NodeId)
    (h : (tokens (Token.scan src) n).errors = []) :
    ((Token.scan src).filter fun t => t.kind ≠ .eof ∧ t.kind ≠ .semicolon).map Token.view =
        (Stmt.spellAll .omitted (tokens (Token.scan src) n).program).map Token.view ∧
      (((Token.scan src).filter (·.kind ≠ .eof)).map Token.view).Sublist
        ((Stmt.spellAll .full (tokens (Token.scan src) n).program).map Token.view) ∧
      Stmt.AllGrammatical True (tokens (Token.scan src) n).program := by
  -- What was taken is all but the mark of the end, and was written by the program.
  obtain ⟨taken, last, hscan, hlast, htaken, hwritten, hprogram⟩ := written_tokens h
  have hkept : (Token.scan src).filter (·.kind ≠ .eof) = taken := by
    rw [hscan, List.filter_append, List.filter_eq_self.2 (by simpa using htaken)]
    simp [hlast]
  refine ⟨?_, ?_, hprogram⟩
  · have hboth : (Token.scan src).filter (fun t => t.kind ≠ .eof ∧ t.kind ≠ .semicolon) =
        taken.filter (·.kind ≠ .semicolon) := by
      rw [← hkept, List.filter_filter]
      simp [Bool.and_comm]
    rw [hboth]
    exact hwritten.bare
  · rw [hkept]
    exact hwritten.ended

/-- Operators of two levels, a call with a named argument, and a typed and a variadic parameter. -/
theorem parse_reads_spelling_operators :
    let src := Glyph.ofString "fun f(Int a, ...b) { return a - a * -a; } f(2, a: 1)"
    (tokens (Token.scan src) 0).errors = [] ∧
      ((Token.scan src).filter fun t => t.kind ≠ .eof ∧ t.kind ≠ .semicolon).map Token.view =
        (Stmt.spellAll .omitted (tokens (Token.scan src) 0).program).map Token.view := by
  intro src
  have herrors : (tokens (Token.scan src) 0).errors = [] :=
    List.isEmpty_iff.1 (by decide +kernel)
  exact ⟨herrors, (parse_reads_spelling src 0 herrors).1⟩

end Parse

end ClassScript
