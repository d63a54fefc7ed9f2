import ClassScript.Command.Repl
import ClassScript.Proofs.Parse.Unfinished.Expressions

/-!
# Programs that end early

A program that follows the grammar can be cut off behind any of its tokens. What is left is parsed
without errors, or an error is found at its end, so that the prompt asks for more.
-/

namespace ClassScript.Parse

open State

variable {g g' : Nested} {N n : Nat}

/-! ### Statements -/

/-- A function with a name goes alike. -/
theorem continues_function (hg : g.Continues g' (N - 1) (n - 1)) (keyword : Token) :
    Continues False (fun _ => True) N n 1 (function g keyword) (function g' keyword) :=
  (Continues.expect (by decide) _).seq fun name =>
    (continues_lambdaRest hg.pred keyword (some name)).taking (Nat.zero_le 1)

/-- The superclasses of a class go alike. -/
theorem continues_superclasses {fuel fuel' r r' : Nat} (hbound : r' ≤ r) (hfuel : r ≤ fuel)
    (hfuel' : r' ≤ fuel') (supers : List NameUse) :
    Continues False (fun _ => True) r r' 1 (superclasses fuel supers)
      (superclasses fuel' supers) := by
  refine Continues.loop (x := superclasses) (y := superclasses) ?_ hbound (Nat.le_refl r)
    (Nat.le_refl r') hfuel hfuel' supers
  intro fuel fuel' r r' _ _ _ ih supers
  refine (Continues.expect (by decide) _).seq fun name => Continues.fresh.seq fun id => ?_
  refine .accept_bind (by decide) (by decide) ?_ (.pure _)
  exact ((ih _).within (Nat.sub_le _ _) (Nat.sub_le _ _)).taking (Nat.zero_le 1)

/-- The methods of a class go alike. -/
theorem continues_methods (hg : g.Continues g' (N - 1) (n - 1)) {fuel fuel' r r' : Nat}
    (hbound : r' ≤ r) (hr : r ≤ N) (hr' : r' ≤ n) (hfuel : r ≤ fuel) (hfuel' : r' ≤ fuel')
    (ms : List Lambda) :
    Continues False (fun _ => True) r r' 0 (methods g fuel ms) (methods g' fuel' ms) := by
  refine Continues.loop (x := methods g) (y := methods g') ?_ hbound hr hr' hfuel hfuel' ms
  intro fuel fuel' r r' hbound hr hr' ih ms
  have hg : g.Continues g' (r - 1) (r' - 1) := hg.within (by omega) (by omega) (by omega)
  refine (Continues.check _).seq fun closed => (Continues.check _).seq fun ended => ?_
  refine .ite (.pure ms) (.peek_bind fun keyword => ?_)
  -- Behind its word, a method goes on with its name.
  have body {N n : Nat} (hbound : n ≤ N) (hN : N ≤ r) (hn : n ≤ r') :
      Continues False (fun _ => True) N n 1
        (do
          let m ← function g keyword
          let _ ← accept .semicolon
          methods g fuel (ms ++ [m]))
        (do
          let m ← function g' keyword
          let _ ← accept .semicolon
          methods g' fuel' (ms ++ [m])) := by
    refine (continues_function (hg.within (by omega) (by omega) (by omega)) keyword).seq fun m => ?_
    refine .accept_bind (by decide) (by decide) ?_ ?_ <;> exact (ih _).within (by omega) (by omega)
  have named {N n : Nat} (hbound : n ≤ N) (hN : N ≤ r) (hn : n ≤ r') :
      Continues False (fun _ => True) N n 1
        (do
          unless ← check .identifier do fail (← peek) .methodName
          let m ← function g keyword
          let _ ← accept .semicolon
          methods g fuel (ms ++ [m]))
        (do
          unless ← check .identifier do fail (← peek) .methodName
          let m ← function g' keyword
          let _ ← accept .semicolon
          methods g' fuel' (ms ++ [m])) := by
    refine .check_bind .identifier (body hbound hN hn).any ?_
    refine .peek_bind fun t => (Continues.fail (k := 1) t _ fun _ ht => ht.2).seq fun _ => ?_
    exact (body (by omega) (by omega) (by omega)).taking (Nat.zero_le 1)
  refine Continues.any (Continues.taking (k := 1) ?_ (Nat.zero_le 1))
  refine .accept_bind (by decide) (by decide) ?_ (named hbound (Nat.le_refl r) (Nat.le_refl r'))
  exact (named (by omega) (Nat.sub_le r 1) (Nat.sub_le r' 1)).taking (Nat.zero_le 1)

/-- The rest of a class goes alike. -/
theorem continues_classRest (hg : g.Continues g' (N - 1) (n - 1)) :
    Continues False (fun _ => True) N n 1 (classRest g) (classRest g') := by
  refine (Continues.expect (by decide) _).seq fun name => ?_
  -- The body is the same with and without superclasses.
  have body {N n : Nat} (hbound : n ≤ N) (hg : g.Continues g' (N - 1) (n - 1))
      (supers : List NameUse) : Continues False (fun _ => True) N n 0
        (do
          let _ ← expect .leftBrace .classOpen
          let ms ← methods g (← remaining) []
          let _ ← expect .rightBrace .classClose
          return Stmt.classDecl (← fresh) name supers ms)
        (do
          let _ ← expect .leftBrace .classOpen
          let ms ← methods g' (← remaining) []
          let _ ← expect .rightBrace .classClose
          return Stmt.classDecl (← fresh) name supers ms) := by
    refine ((Continues.expect (by decide) _).taking (Nat.zero_le 1)).seq fun _ => ?_
    refine .remaining_bind hbound fun r r' hle hr hr' => ?_
    refine (continues_methods hg hle hr hr' (Nat.le_refl r) (Nat.le_refl r') []).seq fun ms => ?_
    refine ((Continues.expect (by decide) _).taking (Nat.zero_le 1)).seq fun _ => ?_
    exact Continues.fresh.seq fun id => .pure _
  have hbound := hg.bound
  refine .accept_bind (by decide) (by decide) ?_ (.known (body hbound hg.pred []))
  refine .remaining_bind (Nat.sub_le_sub_right hbound 1) fun r r' hle hr hr' => ?_
  refine ((continues_superclasses hle (Nat.le_refl r) (Nat.le_refl r') []).taking
    (Nat.zero_le 1)).seq fun supers => ?_
  exact body hle (hg.within (by omega) (by omega) (by omega)) supers

/-- An expression that is no nested part. -/
theorem continues_inner (hg : g.Continues g' N n) :
    Continues False (fun _ => True) N n 0 (expression g) (expression g') :=
  (continues_expression hg.bound hg.pred).taking (Nat.zero_le 1)

/-- The rest of a variable's declaration goes alike. -/
theorem continues_varRest (hg : g.Continues g' (N - 1) (n - 1)) :
    Continues False (fun _ => True) N n 1 (varRest g) (varRest g') := by
  refine (Continues.expect (by decide) _).seq fun name => ?_
  have made {N n : Nat} (initial : Option Expr) : Continues False (fun _ => True) N n 0
      (do return Stmt.varDecl (← fresh) name initial)
      (do return Stmt.varDecl (← fresh) name initial) :=
    Continues.fresh.seq fun id => .pure _
  refine .accept_bind (by decide) (by decide) ?_ (.known (made none))
  exact (continues_inner hg.pred).map.seq fun value => made value

/-- The rest of a loop over items goes alike. -/
theorem continues_forRest (hg : g.Continues g' (N - 1) (n - 1)) (keyword : Token) :
    Continues False (fun _ => True) N n 1 (forRest g keyword) (forRest g' keyword) := by
  refine (Continues.expect (by decide) _).seq fun name => ?_
  refine ((Continues.expect (by decide) _).taking (Nat.zero_le 1)).seq fun _ => ?_
  refine (continues_inner hg).seq fun iterable => ?_
  refine ((continues_block hg.pred).taking (Nat.zero_le 1)).seq fun body => ?_
  exact Continues.fresh.seq fun id => .pure _

/-- The rest of a loop with a condition goes alike. -/
theorem continues_whileRest (hg : g.Continues g' N n) (keyword : Token) :
    Continues False (fun _ => True) N n 0 (whileRest g keyword) (whileRest g' keyword) := by
  refine (continues_inner hg).seq fun condition => ?_
  refine ((continues_block hg.pred).taking (Nat.zero_le 1)).seq fun body => ?_
  exact Continues.fresh.seq fun id => .pure _

/-- The rest of a return goes alike. -/
theorem continues_returnRest (hg : g.Continues g' N n) (keyword : Token) :
    Continues False (fun _ => True) N n 0 (returnRest g keyword) (returnRest g' keyword) := by
  refine .peek_bind fun next => Continues.any ?_
  have made {N n : Nat} (value : Option Expr) : Continues False (fun _ => True) N n 0
      (do return Stmt.ret (← fresh) keyword value) (do return Stmt.ret (← fresh) keyword value) :=
    Continues.fresh.seq fun id => .pure _
  exact .ite ((continues_inner hg).map.seq fun value => made value) (.known (made none))

/-- The rest of a conditional goes alike. -/
theorem continues_ifRest (hg : g.Continues g' N n) {fuel fuel' r r' : Nat} (hbound : r' ≤ r)
    (hr : r ≤ N) (hr' : r' ≤ n) (hfuel : r ≤ fuel) (hfuel' : r' ≤ fuel') (keyword : Token) :
    Continues False (fun _ => True) r r' 1 (ifRest g fuel keyword) (ifRest g' fuel' keyword) := by
  -- The conditionals of a chain are rounds of one loop.
  refine Continues.loop (x := ifRest g) (y := ifRest g') ?_ hbound hr hr' hfuel hfuel' keyword
  intro fuel fuel' r r' hbound hr hr' ih keyword
  have hg := hg.within hbound hr hr'
  refine (continues_expression hg.bound hg.pred).seq fun condition => ?_
  refine ((continues_block hg.pred.pred).taking (Nat.zero_le 1)).seq fun body => ?_
  have made {N n : Nat} (otherwise : Option Stmt) : Continues False (fun _ => True) N n 0
      (do return Stmt.ifElse (← fresh) keyword condition body otherwise)
      (do return Stmt.ifElse (← fresh) keyword condition body otherwise) :=
    Continues.fresh.seq fun id => .pure _
  refine .accept_bind (by decide) (by decide) ?_ (.known (made none))
  refine .accept?_bind (by decide) (by decide) (fun keyword' => ?_) ?_
  · exact ((((ih keyword').within (by omega) (by omega)).taking (Nat.zero_le 1)).map).seq
      fun s => made s
  · exact ((((continues_block hg.pred.pred.pred).taking (Nat.zero_le 1)).map).map).seq
      fun s => made s

/-- Statements go alike. -/
theorem continues_statement (hbound : n ≤ N) (hg : g.Continues g' (N - 1) (n - 1)) :
    Continues False (fun _ => True) N n 1 (statement g) (statement g') := by
  refine .accept?_bind (by decide) (by decide) (fun keyword => ?_) ?_
  · dsimp only
    split
    · exact (continues_forRest hg.pred keyword).taking (Nat.zero_le 1)
    · refine .remaining_bind hg.bound fun r r' hle hr hr' => ?_
      exact (continues_ifRest hg hle hr hr' (Nat.le_succ r) (Nat.le_succ r') keyword).taking
        (Nat.zero_le 1)
    · exact continues_whileRest hg keyword
    · exact continues_returnRest hg keyword
  · refine .check_bind .leftBrace ?_ ?_
    · exact (continues_block hg).any.seq fun b => .pure _
    · exact (continues_expression hbound hg).any.seq fun value =>
        Continues.fresh.seq fun id => .pure _

/-- The keyword of a function alone starts no declaration, but an expression that breaks off. -/
theorem settles_statement (hbound : n ≤ N) (hg : g.Continues g' (N - 1) (n - 1)) {c : State}
    {t last : Token} (hc : c.Single t last) (ht : t.kind = .funWord) (hn : c.rest.length ≤ n) :
    Settles False (statement g' c) := by
  have hnone : accept? [.forWord, .ifWord, .whileWord, .returnWord] c = .ok none c :=
    accept?_of_notMem (by rw [hc.next_eq, ht]; decide)
  have hblock : check .leftBrace c = .ok false c := by
    rw [check_apply, hc.next_eq, ht]
    rfl
  -- Neither a keyword nor a brace, so the statement is an expression.
  rw [statement, bind_of_ok hnone]
  dsimp only
  rw [bind_of_ok hblock]
  exact (continues_expression hbound hg).settles
    (fun value => Continues.fresh.seq fun id => .pure _) hc.ended hn trivial
    (settles_expression hbound hg hc (.inr ht) hn) .inl

/-- Declarations go alike up to their end. The input may be cut behind the word `fun`, in front of a
name. -/
theorem continues_bareDeclaration (hbound : n ≤ N) (hg : g.Continues g' (N - 1) (n - 1)) :
    Continues False (fun _ => True) N n 1 (bareDeclaration g) (bareDeclaration g') := by
  have otherwise : Continues False (fun _ => True) N n 1
      (do if ← accept .varWord then varRest g else statement g)
      (do if ← accept .varWord then varRest g' else statement g') :=
    .accept_bind (by decide) (Nat.le_refl 1) ((continues_varRest hg.pred).taking (Nat.zero_le 1))
      (continues_statement hbound hg)
  refine .accept_bind (by decide) (Nat.le_refl 1)
    ((continues_classRest hg.pred).taking (Nat.zero_le 1)) ?_
  refine .check_bind .funWord (.peekNext_bind (fun next => .ite ?_ otherwise.any) ?_)
    (.peekNext_bind (fun next => otherwise.any) ?_)
  · refine (Continues.advance fun t ht => by rw [ht.2]; decide).seq fun keyword => ?_
    refine ((continues_function hg.pred keyword).taking (Nat.zero_le 1)).seq fun fn => ?_
    exact Continues.fresh.seq fun id => .pure _
  · intro s c s' t u last stmt _ _ _ hn hc hp _ _
    -- The word alone is no declaration, even if a name followed it in the full input.
    right
    have hvar : accept .varWord c = .ok false c :=
      accept_of_ne (by rw [hc.next_eq, hp.2]; decide)
    rw [if_neg (by simp [hc.mark]), bind_of_ok hvar]
    exact settles_statement hbound hg hc hp.2 hn
  · intro s c s' t u last stmt ha hs hN hn hc _ hr herrors
    exact otherwise.cut ha hs hc.ended hN hn trivial hc.not_atEnd hr herrors

/-- Declarations with their semicolons go alike. -/
theorem continues_declaration (hbound : n ≤ N) (hg : g.Continues g' (N - 1) (n - 1)) :
    Continues False (fun _ => True) N n 1 (declaration g) (declaration g') := by
  refine (continues_bareDeclaration hbound hg).seq fun stmt => ?_
  exact .accept_bind (by decide) (by decide) (.pure stmt) (.pure stmt)

/-- Levels that are as many as the tokens of either input are enough for it. -/
theorem nested_continues {levels levels' : Nat} (hbound : n ≤ N) (hN : N ≤ levels)
    (hn : n ≤ levels') : (nested levels).Continues (nested levels') N n := by
  induction levels generalizing levels' N n with
  | zero =>
    obtain rfl : N = 0 := by omega
    obtain rfl : n = 0 := by omega
    exact ⟨hbound, .zero, .zero, fun hc _ hl => absurd hc.ended.length_pos (by omega)⟩
  | succ levels ih =>
    cases levels' with
    | zero =>
      -- There is no room for the mark of the cut input, so only the full one counts.
      obtain rfl : n = 0 := by omega
      have hg : (nested levels).Continues (nested 0) (N - 1) 0 :=
        ih (Nat.zero_le _) (by omega) (Nat.le_refl 0)
      exact ⟨hbound, .of_full (continues_expression hbound hg).full,
        .of_full (continues_declaration hbound hg).full,
        fun hc _ hl => absurd hc.ended.length_pos (by omega)⟩
    | succ levels' =>
      have hg : (nested levels).Continues (nested levels') (N - 1) (n - 1) :=
        ih (by omega) (by omega) (by omega)
      exact ⟨hbound, continues_expression hbound hg, continues_declaration hbound hg,
        fun hc ht hl => settles_expression hbound hg hc (.inl ht) hl⟩

/-! ### Programs -/

/-- The search for the next statement goes alike. -/
theorem continues_skipToStatement {fuel fuel' r r' : Nat} (hbound : r' ≤ r) (hfuel : r ≤ fuel)
    (hfuel' : r' ≤ fuel') :
    Continues False (fun _ => True) r r' 0 (skipToStatement fuel) (skipToStatement fuel') := by
  refine Continues.loop (x := fun fuel (_ : Unit) => skipToStatement fuel)
    (y := fun fuel _ => skipToStatement fuel) ?_ hbound (Nat.le_refl r) (Nat.le_refl r') hfuel
    hfuel' ()
  intro fuel fuel' r r' _ _ _ ih _
  refine .check_bind .eof (.pure _) (.previous_bind fun last => .ite (.pure _) ?_)
  refine .peek_bind fun next => .ite (.pure _) (Continues.taking (k := 1) ?_ (Nat.zero_le 1))
  exact (Continues.advance fun _ ht => ht.1.2).seq fun _ => ih ()

/-- Going on behind an error takes nothing back. -/
theorem moves_synchronize : Moves (fun _ => True) N 0 synchronize := by
  have hself : Continues False (fun _ => True) N N 0 synchronize synchronize :=
    Continues.advance_any.seq fun _ => .remaining_bind (Nat.le_refl _) fun _ _ hle _ _ =>
      continues_skipToStatement hle (Nat.le_refl _) (Nat.le_refl _)
  exact hself.full

/-- At the end of the input a program has no statements left. -/
theorem programFrom_atEnd {s : State} (hs : s.AtEnd) (fuel : Nat) :
    programFrom g fuel s = ([], s) := by
  cases fuel with
  | zero => rfl
  | succ fuel => exact if_pos hs

/-- A program goes on behind a statement that was parsed. -/
theorem programFrom_ok {s s' : State} {stmt : Stmt} (hs : ¬s.AtEnd)
    (hd : declaration g s = .ok stmt s') (fuel : Nat) :
    (programFrom g (fuel + 1) s).2 = (programFrom g fuel s').2 := by
  have hs : ¬(s.rest.headD .absent).kind = .eof := hs
  rw [programFrom, if_neg hs, hd]

/-- What follows a declaration that was given up. -/
theorem programFrom_error {s s' : State} (hs : ¬s.AtEnd)
    (hd : declaration g s = .error .bailout s') (hended : s'.Ended) (fuel : Nat) :
    ∃ s'', Took 0 s' s'' ∧ ((programFrom g (fuel + 1) s).2 = s'' ∨
      (programFrom g (fuel + 1) s).2 = (programFrom g fuel s'').2) := by
  have hs : ¬(s.rest.headD .absent).kind = .eof := hs
  rw [programFrom, if_neg hs, hd]
  dsimp only
  cases hsync : synchronize s' with
  | ok _ s'' =>
    exact ⟨s'', moves_synchronize.ok hended (Nat.le_refl _) trivial hsync, .inr rfl⟩
  | error e s'' =>
    exact ⟨s'', (moves_synchronize.error hended (Nat.le_refl _) trivial hsync).2.1, .inl rfl⟩

/-- Errors are kept up to the end of a program. -/
theorem suffix_errors_programFrom (h : Moves (fun _ => True) N 1 (declaration g)) (fuel : Nat)
    {s : State} (hs : s.Ended) (hN : s.rest.length ≤ N) :
    s.errors <:+ (programFrom g fuel s).2.errors := by
  -- On the rounds; the skipping behind an error keeps the errors, too.
  induction fuel generalizing s with
  | zero => exact List.suffix_refl _
  | succ fuel ih =>
    by_cases hend : s.AtEnd
    · simp only [programFrom_atEnd hend, List.suffix_refl]
    · cases hd : declaration g s with
      | ok stmt s' =>
        have htook := h.ok hs hN trivial hd
        have hcount := htook.count
        rw [programFrom_ok hend hd]
        exact htook.errors.trans (ih htook.ended (by omega))
      | error e s' =>
        obtain ⟨rfl, htook, -⟩ := h.error hs hN trivial hd
        obtain ⟨s'', hsync, hrest⟩ := programFrom_error hend hd htook.ended fuel
        have hcount := (htook.trans hsync).count
        refine (htook.trans hsync).errors.trans ?_
        rcases hrest with hrest | hrest
        · simp only [hrest, List.suffix_refl]
        · rw [hrest]
          exact ih hsync.ended (by omega)

/-- The errors of a declaration that was given up are kept, too. -/
theorem suffix_errors_of_error (h : Moves (fun _ => True) N 1 (declaration g)) (fuel : Nat)
    {s s' : State} {e : Stop} (hs : s.Ended) (hN : s.rest.length ≤ N) (hend : ¬s.AtEnd)
    (hd : declaration g s = .error e s') :
    s'.errors <:+ (programFrom g (fuel + 1) s).2.errors := by
  obtain ⟨rfl, htook, -⟩ := h.error hs hN trivial hd
  obtain ⟨s'', hsync, hrest⟩ := programFrom_error hend hd htook.ended fuel
  have hcount := (htook.trans hsync).count
  refine hsync.errors.trans ?_
  rcases hrest with hrest | hrest
  · simp only [hrest, List.suffix_refl]
  · rw [hrest]
    exact suffix_errors_programFrom h fuel hsync.ended (by omega)

/-- Two programs, of which the first one has no errors. -/
theorem programFrom_cut
    (h : Continues False (fun _ => True) N n 1 (declaration g) (declaration g'))
    {fuel fuel' : Nat} {s c : State} (ha : Aligned s c) (hs : s.Ended) (hc : c.Ended)
    (hN : s.rest.length ≤ N) (hn : c.rest.length ≤ n) (hfuel : s.rest.length ≤ fuel)
    (herrors : (programFrom g fuel s).2.errors = []) :
    (programFrom g' fuel' c).2.errors = [] ∨
      ∃ error ∈ (programFrom g' fuel' c).2.errors, error.atEnd = true := by
  -- The induction is on the steps of the cut input. The full one has enough for its tokens.
  induction fuel' generalizing fuel s c with
  | zero => exact .inl ha.part
  | succ fuel' ih =>
    by_cases hend : c.AtEnd
    · rw [programFrom_atEnd hend]
      exact .inl ha.part
    have hend' : ¬s.AtEnd := by rwa [AtEnd, ← ha.next_eq hend]
    cases fuel with
    | zero => exact absurd hs.length_pos (by omega)
    | succ fuel =>
    cases hd : declaration g s with
    | error e s' =>
      -- A declaration that is given up leaves an error, and there is none.
      have hkept := suffix_errors_of_error h.full fuel hs hN hend' hd
      rw [herrors] at hkept
      exact absurd (List.suffix_nil.1 hkept) (h.full.error hs hN trivial hd).2.2
    | ok stmt s' =>
      have htook := h.full.ok hs hN trivial hd
      have hcount := htook.count
      rw [programFrom_ok hend' hd] at herrors
      have hkept := suffix_errors_programFrom h.full fuel htook.ended (by omega)
      rw [herrors] at hkept
      obtain ⟨c', hd', ha'⟩ | hsettles :=
        h.cut ha hs hc hN hn trivial hend hd (List.suffix_nil.1 hkept)
      · -- The declaration is the same one on both inputs.
        have htook' := h.part.ok hc hn trivial hd'
        have hcount' := htook'.count
        rw [programFrom_ok hend hd']
        exact ih ha' htook.ended htook'.ended (by omega) (by omega) (by omega) herrors
      · -- The declaration came to the end of the cut input.
        cases hd' : declaration g' c with
        | ok stmt' c' =>
          rw [hd'] at hsettles
          rw [programFrom_ok hend hd', programFrom_atEnd hsettles.1]
          exact .inl (hsettles.2.resolve_right id)
        | error e c' =>
          rw [hd'] at hsettles
          obtain ⟨error, hmem, hatEnd⟩ := hsettles.2
          exact .inr ⟨error, (suffix_errors_of_error h.part fuel' hc hn hend hd').subset hmem,
            hatEnd⟩

/-- Tokens in front of a mark of the end. -/
theorem State.ended_append {ts : List Token} {last : Token} (hlast : last.kind = .eof)
    {s : State} (hs : s.rest = ts ++ [last]) : s.Ended := ⟨last, by simp [hs], hlast⟩

/-- A program without errors that is cut off behind any token has no errors, or one at its end. -/
theorem errors_of_cut {ts more : List Token} {last last' : Token} {id : NodeId}
    (hlast : last.kind = .eof) (hlast' : last'.kind = .eof)
    (h : (tokens (ts ++ more ++ [last]) id).errors = []) :
    (tokens (ts ++ [last']) id).errors = [] ∨ (tokens (ts ++ [last']) id).incomplete = true := by
  have hN : (ts ++ [last']).length ≤ (ts ++ more ++ [last]).length := by simp
  have hg := nested_continues hN (Nat.le_succ _) (Nat.le_succ _)
  have hdeclaration := continues_declaration hN hg.pred
  -- The whole program and the cut one are aligned up to the cut, with nothing reported so far.
  have ha : Aligned { rest := ts ++ more ++ [last], nextId := id }
      { rest := ts ++ [last'], nextId := id } :=
    ⟨⟨ts, more ++ [last], last', by simp, hlast', by simp, rfl⟩, rfl, rfl, rfl, rfl⟩
  refine (programFrom_cut hdeclaration ha (State.ended_append hlast rfl)
    (State.ended_append hlast' rfl) (Nat.le_refl _) (Nat.le_refl _) (Nat.le_refl _)
    (List.reverse_eq_nil_iff.1 h)).imp List.reverse_eq_nil_iff.2 fun hsome => ?_
  obtain ⟨error, hmem, hend⟩ := hsome
  exact List.any_eq_true.2 ⟨error, List.mem_reverse.2 hmem, hend⟩

end ClassScript.Parse

namespace ClassScript

/-- If tokens are a program without errors, then the tokens in front of any cut are one, too, or
they are found to be incomplete. So the prompt collects more lines as long as they can still be
completed to a program, unless they are one already. -/
theorem unfinished_input_goes_on {T P : List Token} {last last' : Token}
    (hlast : last.kind = .eof) (hlast' : last'.kind = .eof) (hP : P <+: T)
    (hT : (Parse.tokens (T ++ [last]) 0).errors = []) :
    let cut := Parse.tokens (P ++ [last']) 0
    (cut.errors = [] ∨ cut.incomplete = true) ∧
      ∀ (r : Repl) (line text : String), Token.scanText text = P ++ [last'] →
        text = (if r.pending.isEmpty then line else r.pending ++ "\n" ++ line) →
        cut.errors ≠ [] → (Text.trim text).startsWith ":" = false →
        r.feed line = ({}, { r with pending := text }) := by
  obtain ⟨more, rfl⟩ := hP
  have hcut := Parse.errors_of_cut hlast hlast' hT
  refine ⟨hcut, fun r line text hscan htext herrors hcommand => ?_⟩
  have hincomplete : (Parse.source text 0).incomplete = true := by
    rw [Parse.source, hscan]
    exact hcut.resolve_left herrors
  simp only [Repl.feed, ← htext, hcommand, hincomplete, Bool.not_true, Bool.or_self,
    Bool.false_eq_true, if_false]

/-- A named argument that is a function, cut off between a name and the equals sign that would make
it a parameter with a default. -/
theorem unfinished_input_goes_on_call :
    let line := "f(a: fun (x, y"
    let typed := (Token.scanText line).dropLast
    let more := (Token.scanText "= 1) \x7b\x7d)").dropLast
    let r : Repl := { session := { checksTypes := true } }
    (Parse.tokens (typed ++ more ++ [.absent]) 0).errors = [] ∧
      (Parse.source line 0).errors ≠ [] ∧ (Parse.source line 0).incomplete = true ∧
      r.feed line = ({}, { r with pending := line }) := by
  intro line typed more r
  have hne : Token.scanText line ≠ [] := by
    rw [ne_eq, ← List.isEmpty_iff]
    decide +kernel
  -- The line as the tokens that were typed and the mark of the end behind them.
  have hline : Token.scanText line = typed ++ [(Token.scanText line).getLast hne] :=
    (List.dropLast_concat_getLast hne).symm
  have hkind : ((Token.scanText line).getLastD .absent).kind = .eof := by decide +kernel
  have hlast : ((Token.scanText line).getLast hne).kind = .eof := by
    rwa [List.getLastD_eq_getLast?, List.getLast?_eq_some_getLast hne] at hkind
  -- With the default and the body behind it, the call is read without an error.
  have hwhole : (Parse.tokens (typed ++ more ++ [.absent]) 0).errors = [] :=
    List.isEmpty_iff.1 (by decide +kernel)
  obtain ⟨hends, hasks⟩ := unfinished_input_goes_on rfl hlast (List.prefix_append typed more) hwhole
  rw [← hline] at hends hasks
  have herrors : (Parse.source line 0).errors ≠ [] := by
    rw [ne_eq, ← List.isEmpty_iff]
    decide +kernel
  exact ⟨hwhole, herrors, hends.resolve_left herrors,
    hasks r line line rfl (by simp [r]) herrors (by decide +kernel)⟩

end ClassScript
