import Mathlib.Logic.Relation
import ClassScript.Proofs.Parse.Faithful.Programs
import ClassScript.Proofs.Parse.Progress.Expressions
import ClassScript.Proofs.Parse.Unfinished.Basic

/-!
# A parse takes all tokens

Statements take tokens as expressions do. A declaration that is given up was given up in front of a
token that does not mark the end, or behind tokens that it took; either way the parse goes on at a
later token, and ends at the mark of the end.
-/

namespace ClassScript.Parse

variable {g : Nested} {n : Nat} {ts rest : List Token}

/-! ### Statements -/

/-- A function with a name takes a token. -/
theorem runs_function (h : g.Steady ts n) (keyword : Token) (rest : List Token) :
    Runs ts (n < rest.length) rest (function g keyword) fun rest' fn =>
      rest'.length < rest.length ∧ Called ts (fn.nodes everywhere) := by
  refine .expect (by decide) fun name rest₁ _ h₁ _ => ?_
  exact ((runs_lambdaRest h keyword (some name) rest₁).weaken fun hn => by omega).mono
    fun rest₂ fn h₂ hfn => ⟨by omega, hfn.2⟩

/-- The loop over superclasses is steady. -/
theorem superclassLoop_steady (ts : List Token) (n : Nat) :
    (rowLoop superclassRound).Steady ts n fun _ => True :=
  rowLoop_steady fun _ _ =>
    .expect (by decide) fun _ _ _ h₁ _ => .fresh fun _ => .pure ⟨h₁, fun _ => trivial⟩

/-- Every further method takes a token. -/
theorem runs_methodRound (h : g.Steady ts n) (rest : List Token) (ms : List Lambda) :
    Runs ts (n ≤ rest.length) rest (methodRound g ms) fun rest' ms' =>
      rest'.length < rest.length ∧ (Called ts (Lambda.nodesOf everywhere ms) →
        Called ts (Lambda.nodesOf everywhere ms')) := by
  -- From the name on, whether there was a keyword or not: the name is a token in any case.
  have named : ∀ (keyword : Token) rest₁, rest₁.length ≤ rest.length →
      Runs ts (n ≤ rest.length) rest₁
        (do
          unless ← check .identifier do Parse.fail (← peek) .methodName
          let m ← function g keyword
          let _ ← accept .semicolon
          return ms ++ [m])
        fun rest' ms' => rest'.length < rest.length ∧
          (Called ts (Lambda.nodesOf everywhere ms) →
            Called ts (Lambda.nodesOf everywhere ms')) := by
    intro keyword rest₁ h₁
    refine .check ?_
    split
    · refine ((runs_function h keyword rest₁).weaken fun hn => by omega).bind
        fun rest₂ m h₂ hm => ?_
      have hadded : Called ts (Lambda.nodesOf everywhere ms) →
          Called ts (Lambda.nodesOf everywhere (ms ++ [m])) := by
        intro hms
        rw [Lambda.nodesOf_append]
        exact hms.append (hm.2.append .nil)
      exact .accept (by decide) (fun _ => .pure ⟨by omega, hadded⟩)
        fun _ _ _ h₃ _ => .pure ⟨by omega, hadded⟩
    · exact .peek (.fail_bind _ _)
  refine .peek (.accept (by decide) (fun _ => named _ rest (Nat.le_refl _)) ?_)
  exact fun _ rest₁ _ h₁ _ => named _ rest₁ (Nat.le_of_lt h₁)

/-- The rest of a class takes a token. -/
theorem runs_classRest (h : g.Steady ts n) (rest : List Token) :
    Runs ts (n < rest.length) rest (classRest g) fun rest' s =>
      rest'.length < rest.length ∧ Called ts (s.nodes everywhere) := by
  refine .expect (by decide) fun name rest₁ _ h₁ _ => ?_
  -- Superclasses are names, and no call is among them.
  have hsupers : ∀ supers : List NameUse,
      Called ts (supers.flatMap fun u => Node.visit everywhere (.expr (.var u)) []) := by
    intro supers
    induction supers with
    | nil => exact .nil
    | cons u more ih => exact ih.cons trivial
  have body : ∀ rest₂ (supers : List NameUse), rest₂.length ≤ rest₁.length →
      Runs ts (n < rest.length) rest₂
        (do
          let _ ← expect .leftBrace .classOpen
          let ms ← methods g (← remaining) []
          let _ ← expect .rightBrace .classClose
          return Stmt.classDecl (← fresh) name supers ms)
        fun rest' s => rest'.length < rest.length ∧ Called ts (s.nodes everywhere) := by
    intro rest₂ supers h₂
    refine .expect (by decide) fun _ rest₃ _ h₃ _ => ?_
    rw [methods_eq]
    refine .remaining ((((bracesLoop_steady (runs_methodRound h)).runs _ rest₃ []).weaken
      fun hn => by omega).bind fun rest₄ ms h₄ hms => ?_)
    exact .expect (by decide) fun _ rest₅ _ h₅ _ => .fresh fun id =>
      .pure ⟨by omega, ((hsupers supers).append (hms .nil)).cons trivial⟩
  refine .accept (by decide) (fun _ => .known (body rest₁ [] (Nat.le_refl _))) ?_
  intro less rest₂ _ h₂ _
  rw [superclasses_eq]
  refine .remaining ((((superclassLoop_steady ts n).runs _ rest₂ []).weaken
    fun hn => by omega).bind fun rest₃ supers h₃ _ => ?_)
  exact body rest₃ supers (by omega)

/-- The rest of a variable's declaration takes a token. -/
theorem runs_varRest (h : g.Steady ts n) (rest : List Token) :
    Runs ts (n < rest.length) rest (varRest g) fun rest' s =>
      rest'.length < rest.length ∧ Called ts (s.nodes everywhere) := by
  refine .expect (by decide) fun name rest₁ _ h₁ _ => .accept (by decide) (fun _ => .known ?_) ?_
  · exact .fresh fun id => .pure ⟨h₁, .cons .nil trivial⟩
  · intro equal rest₂ _ h₂ _
    refine (runs_some ((runs_expression h rest₂).weaken fun hn => by omega)).bind
      fun rest₃ v h₃ hv => .fresh fun id => .pure ?_
    obtain ⟨e, rfl, he⟩ := hv
    exact ⟨by omega, he.cons trivial⟩

/-- The rest of a loop over items takes a token. -/
theorem runs_forRest (h : g.Steady ts n) (keyword : Token) (rest : List Token) :
    Runs ts (n < rest.length) rest (forRest g keyword) fun rest' s =>
      rest'.length < rest.length ∧ Called ts (s.nodes everywhere) := by
  refine .expect (by decide) fun name rest₁ _ h₁ _ => .expect (by decide) fun _ rest₂ _ h₂ _ => ?_
  refine ((runs_expression h rest₂).weaken fun hn => by omega).bind fun rest₃ iterable h₃ hi => ?_
  refine ((runs_block h rest₃).weaken fun hn => by omega).bind fun rest₄ body h₄ hbody =>
    .fresh fun id => .pure ⟨by omega, ?_⟩
  exact (hi.2.append (hbody.2.block body)).cons trivial

/-- The rest of a loop with a condition takes a token. -/
theorem runs_whileRest (h : g.Steady ts n) (keyword : Token) (rest : List Token) :
    Runs ts (n < rest.length) rest (whileRest g keyword) fun rest' s =>
      rest'.length < rest.length ∧ Called ts (s.nodes everywhere) := by
  refine (runs_expression h rest).bind fun rest₁ condition h₁ hc => ?_
  refine ((runs_block h rest₁).weaken fun hn => by omega).bind fun rest₂ body h₂ hbody =>
    .fresh fun id => .pure ⟨by omega, ?_⟩
  exact (hc.2.append (hbody.2.block body)).cons trivial

/-- The rest of a return stays within the bounds; it may take nothing. -/
theorem runs_returnRest (h : g.Steady ts n) (keyword : Token) (rest : List Token) :
    Runs ts (n < rest.length) rest (returnRest g keyword) fun _ s =>
      Called ts (s.nodes everywhere) := by
  refine .peek ?_
  dsimp only
  split
  · refine (runs_some (runs_expression h rest)).bind fun rest₁ v _ hv => .fresh fun id => .pure ?_
    obtain ⟨e, rfl, he⟩ := hv
    exact he.cons trivial
  · exact .known (.fresh fun id => .pure (.cons .nil trivial))

/-- The rest of a conditional takes a token. -/
theorem runs_ifRest (h : g.Steady ts n) (fuel : Nat) (keyword : Token) (rest : List Token)
    (hfuel : rest.length < fuel) :
    Runs ts (n < rest.length) rest (ifRest g fuel keyword) fun rest' s =>
      rest'.length < rest.length ∧ Called ts (s.nodes everywhere) := by
  -- On the chained conditionals: each has taken a token more, so the fuel never runs out.
  induction fuel generalizing rest keyword with
  | zero => exact absurd hfuel (Nat.not_lt_zero _)
  | succ fuel ih =>
    refine (runs_expression h rest).bind fun rest₁ condition h₁ hc => ?_
    refine ((runs_block h rest₁).weaken fun hn => by omega).bind fun rest₂ body h₂ hbody => ?_
    have hfront := hc.2.append (hbody.2.block body)
    -- The other branch is a block or one more conditional.
    have other : ∀ (x : Parser Stmt) rest₃, rest₃.length ≤ rest₂.length →
        (Runs ts (n < rest.length) rest₃ x fun rest' s =>
          rest'.length < rest₃.length ∧ Called ts (s.nodes everywhere)) →
        Runs ts (n < rest.length) rest₃
          (do
            let otherwise ← some <$> x
            return Stmt.ifElse (← fresh) keyword condition body otherwise)
          fun rest' s => rest'.length < rest.length ∧ Called ts (s.nodes everywhere) := by
      intro x rest₃ h₃ hx
      refine (hx.map (R := fun _ o => ∃ s, o = some s ∧ Called ts (s.nodes everywhere))
        fun _ s hs => ⟨s, rfl, hs.2⟩).bind fun rest₄ o h₄ ho => .fresh fun id => .pure ?_
      obtain ⟨s, rfl, hs⟩ := ho
      exact ⟨by omega, (hfront.append hs).cons trivial⟩
    refine .accept (by decide) (fun _ => .known (.fresh fun id => .pure ?_)) ?_
    · exact ⟨by omega, hfront.cons trivial⟩
    · intro word rest₃ _ h₃ _
      refine .accept? (by decide) (fun _ => ?_) fun keyword' rest₄ _ h₄ _ => ?_
      · refine other _ rest₃ (by omega) (((runs_block h rest₃).weaken fun hn => by omega).map ?_)
        exact fun _ b hb => ⟨hb.1, hb.2.block b⟩
      · exact other _ rest₄ (by omega) ((ih keyword' rest₄ (by omega)).weaken fun hn => by omega)

/-- Statements take a token. -/
theorem runs_statement (h : g.Steady ts n) (rest : List Token) :
    Runs ts (n < rest.length) rest (statement g) fun rest' s =>
      rest'.length < rest.length ∧ Called ts (s.nodes everywhere) := by
  refine .accept? (by decide) (fun _ => .check ?_) fun keyword rest₁ _ h₁ _ => ?_
  · split
    · exact (runs_block h rest).bind fun rest₁ b _ hb => .pure ⟨hb.1, hb.2.block b⟩
    · exact (runs_expression h rest).bind fun rest₁ e _ he => .fresh fun id =>
        .pure ⟨he.1, he.2.cons trivial⟩
  · dsimp only
    -- The word in front has been taken, so the statements behind it need not take a token.
    have behind : ∀ {x : Parser Stmt}, (Runs ts (n < rest₁.length) rest₁ x fun _ s =>
          Called ts (s.nodes everywhere)) →
        Runs ts (n < rest.length) rest₁ x fun rest' s =>
          rest'.length < rest.length ∧ Called ts (s.nodes everywhere) := fun hx =>
      (hx.weaken fun hn => by omega).mono fun rest₂ s h₂ hs => ⟨by omega, hs⟩
    split
    · exact behind ((runs_forRest h keyword rest₁).mono fun _ _ _ hs => hs.2)
    · refine .remaining (behind ((runs_ifRest h _ keyword rest₁ ?_).mono fun _ _ _ hs => hs.2))
      exact Nat.lt_succ_self _
    · exact behind ((runs_whileRest h keyword rest₁).mono fun _ _ _ hs => hs.2)
    · exact behind (runs_returnRest h keyword rest₁)

/-- Declarations take a token up to their end. -/
theorem runs_bareDeclaration (h : g.Steady ts n) (rest : List Token) :
    Runs ts (n < rest.length) rest (bareDeclaration g) fun rest' s =>
      rest'.length < rest.length ∧ Called ts (s.nodes everywhere) := by
  refine .accept (by decide) (fun _ => .check (.peekNext ?_)) fun _ rest₁ _ h₁ _ => ?_
  · split
    · next hnext =>
      have hhead := of_decide_eq_true (Bool.and_eq_true_iff.1 hnext).1
      refine .advance_of_head hhead (by decide) fun keyword rest₁ _ h₁ _ => ?_
      refine ((runs_function h keyword rest₁).weaken fun hn => by omega).bind
        fun rest₂ fn h₂ hfn => .fresh fun id => .pure ⟨by omega, hfn.2.cons trivial⟩
    · refine .accept (by decide) (fun _ => runs_statement h rest) fun _ rest₁ _ h₁ _ => ?_
      exact ((runs_varRest h rest₁).weaken fun hn => by omega).mono
        fun rest₂ s h₂ hs => ⟨by omega, hs.2⟩
  · exact ((runs_classRest h rest₁).weaken fun hn => by omega).mono
      fun rest₂ s h₂ hs => ⟨by omega, hs.2⟩

/-- Declarations take a token with their semicolon. -/
theorem runs_declaration (h : g.Steady ts n) (rest : List Token) :
    Runs ts (n < rest.length) rest (declaration g) fun rest' s =>
      rest'.length < rest.length ∧ Called ts (s.nodes everywhere) := by
  refine (runs_bareDeclaration h rest).bind fun rest₁ s h₁ hs => ?_
  exact .accept (by decide) (fun _ => .pure hs) fun _ rest₂ _ h₂ _ => .pure ⟨by omega, hs.2⟩

/-- However deep expressions and declarations nest, every level takes a token. -/
theorem nested_steady (ts : List Token) (levels : Nat) : (nested levels).Steady ts levels := by
  induction levels with
  | zero =>
    -- Any number of tokens is as many as there are levels.
    exact ⟨fun _ => .exhausted (Nat.zero_le _), fun _ => .exhausted (Nat.zero_le _)⟩
  | succ levels ih => exact ⟨runs_expression ih, runs_declaration ih⟩

/-! ### Errors -/

/-- The search for the next statement stays within the bounds. -/
theorem runs_skipToStatement (fuel : Nat) (rest : List Token) (hlt : rest.length < ts.length) :
    Runs ts False rest (skipToStatement fuel) fun _ _ => True := by
  induction fuel generalizing rest with
  | zero => exact .pure trivial
  | succ fuel ih =>
    refine .atEnd ?_
    split
    · exact .pure trivial
    · refine .previous hlt fun last _ => ?_
      split
      · exact .pure trivial
      · refine .peek ?_
        split
        · exact .pure trivial
        · exact .advanceUnlessEnd (fun _ => hlt) fun _ rest₁ _ hlt₁ _ => ih rest₁ hlt₁

/-- What follows an error is looked for behind a token, which is the next one if there is one. -/
theorem runs_synchronize (hend : (rest.headD .absent).kind = .eof → rest.length < ts.length) :
    Runs ts False rest synchronize fun rest' _ =>
      (rest.headD .absent).kind ≠ .eof → rest'.length < rest.length := by
  refine .advanceUnlessEnd hend fun _ rest₁ _ hlt htaken => .remaining ?_
  exact (runs_skipToStatement _ rest₁ hlt).mono fun rest₂ _ hle _ hne => by
    have hshorter := htaken hne
    omega

/-- A step that never gives up. -/
def Quiet {α : Type} (x : Parser α) : Prop := ∀ s, ∃ a s', x s = .ok a s'

namespace Quiet

variable {α β : Type}

/-- A value does not give up. -/
theorem pure (a : α) : Quiet (Pure.pure a) := fun s => ⟨a, s, rfl⟩

/-- Steps in a row do not give up if neither does. -/
theorem bind {x : Parser α} {f : α → Parser β} (hx : Quiet x) (hf : ∀ a, Quiet (f a)) :
    Quiet (x >>= f) := by
  intro s
  obtain ⟨a, s₁, h₁⟩ := hx s
  obtain ⟨b, s', h⟩ := hf a s₁
  refine ⟨b, s', ?_⟩
  simp only [Bind.bind, EStateM.bind, h₁]
  exact h

/-- Looking at the next token does not give up. -/
theorem peek : Quiet Parse.peek := fun _ => ⟨_, _, rfl⟩

/-- Looking at the token behind does not give up. -/
theorem previous : Quiet Parse.previous := fun _ => ⟨_, _, rfl⟩

/-- Taking a token does not give up. -/
theorem advance : Quiet Parse.advance := fun _ => ⟨_, _, rfl⟩

/-- The search for the next statement does not give up. -/
theorem skipToStatement (fuel : Nat) : Quiet (skipToStatement fuel) := by
  induction fuel with
  | zero => exact .pure ()
  | succ fuel ih =>
    refine .bind (.bind .peek fun _ => .pure _) fun ended => ?_
    split
    · exact .pure ()
    · refine .bind .previous fun last => ?_
      split
      · exact .pure ()
      · refine .bind .peek fun next => ?_
        split
        · exact .pure ()
        · exact .bind .advance fun _ => ih

/-- Looking for the next statement does not fail. -/
theorem synchronize : Quiet synchronize :=
  .bind .advance fun _ => .bind (fun _ => ⟨_, _, rfl⟩) fun fuel => .skipToStatement fuel

end Quiet

/-! ### Rounds of a program -/

/-- A round of a program: a declaration, or one that is given up together with what is skipped to
go on behind it. -/
inductive Round (g : Nested) : State → State → Prop where
  /-- A declaration. -/
  | declared {s s' : State} {stmt : Stmt} (hs : ¬s.AtEnd) (h : declaration g s = .ok stmt s') :
      Round g s s'
  /-- A declaration that is given up. -/
  | recovered {s s₁ s' : State} (hs : ¬s.AtEnd) (h : declaration g s = .error .bailout s₁)
      (hsync : synchronize s₁ = .ok () s') : Round g s s'

/-- What a state between the rounds of a program offers: it stands at a token, looking whether it
is the last one and going on are within the bounds, a declaration is given up for nothing but an
error, behind which the program goes on, and the rounds advance. -/
structure Safe (ts : List Token) (g : Nested) (s : State) : Prop where
  /-- The state stands at a token. -/
  place : s.Stands ts
  /-- Looking for the end is within the bounds. -/
  looks : InBounds ts atEnd s
  /-- So is a declaration. -/
  declares : ¬s.AtEnd → InBounds ts (declaration g) s
  /-- A declaration that is given up is caught. -/
  caught : ∀ {e : Stop} {s₁ : State}, ¬s.AtEnd → declaration g s = .error e s₁ →
    e = .bailout ∧ InBounds ts synchronize s₁ ∧ ∃ s', synchronize s₁ = .ok () s'
  /-- A round increases the position. -/
  advances : ∀ {s' : State}, Round g s s' → s.position ts < s'.position ts

section Rounds

variable {s s₁ s' : State}

/-- Where less is left, a state at the mark of the end is behind one that is not. -/
theorem State.On.length_lt (hs : s.On ts) (hs₁ : s₁.On ts)
    (hle : s₁.rest.length ≤ s.rest.length) (hne : ¬s.AtEnd) (hend : s₁.AtEnd) :
    s₁.rest.length < s.rest.length := by
  refine Nat.lt_of_le_of_ne hle fun heq => hne ?_
  have hsame := (List.suffix_of_suffix_length_le hs₁.suffix hs.suffix hle).eq_of_length heq
  rwa [State.AtEnd, State.next, ← hsame]

variable (h : g.Steady ts n) (hs : s.On ts) (hn : s.rest.length ≤ n)

include h hs hn

/-- What is left behind a declaration that is given up, with enough of it to go on. -/
theorem on_of_error {e : Stop} (hne : ¬s.AtEnd) (herror : declaration g s = .error e s₁) :
    e = .bailout ∧ s₁.On ts ∧ s₁.rest.length ≤ s.rest.length ∧
      (s₁.AtEnd → s₁.rest.length < s.rest.length) := by
  obtain ⟨hs₁, hle, hdeep⟩ := (runs_declaration h s.rest).error rfl hs herror
  refine ⟨?_, hs₁, hle, hs.length_lt hs₁ hle hne⟩
  cases e with
  | bailout => rfl
  | exhausted => exact absurd (hdeep rfl) (by omega)

/-- Behind a declaration that is given up a token is taken, unless the end is reached. -/
theorem runs_recovery {e : Stop} (hne : ¬s.AtEnd) (herror : declaration g s = .error e s₁) :
    Runs ts False s₁.rest synchronize fun rest' _ => ¬s₁.AtEnd → rest'.length < s₁.rest.length := by
  obtain ⟨-, -, -, hbehind⟩ := on_of_error h hs hn hne herror
  have hlength := hs.suffix.length_le
  exact runs_synchronize fun hend => Nat.lt_of_lt_of_le (hbehind hend) hlength

/-- A round takes tokens. -/
theorem Round.on (hround : Round g s s') : s'.On ts ∧ s'.rest.length < s.rest.length := by
  cases hround with
  | declared hne hdeclared =>
    obtain ⟨hs', -, hlt, -⟩ := (runs_declaration h s.rest).ok rfl hs hdeclared
    exact ⟨hs', hlt⟩
  | recovered hne herror hsync =>
    rename_i s₁
    obtain ⟨-, hs₁, hle₁, hbehind⟩ := on_of_error h hs hn hne herror
    obtain ⟨hs', hle, hlt⟩ := (runs_recovery h hs hn hne herror).ok rfl hs₁ hsync
    refine ⟨hs', ?_⟩
    -- At the mark of the end the declaration took a token; elsewhere the recovery takes one.
    by_cases hend : s₁.AtEnd
    · exact Nat.lt_of_le_of_lt hle (hbehind hend)
    · exact Nat.lt_of_lt_of_le (hlt hend) hle₁

/-- A state that stands at a token is safe. -/
theorem safe_of_on : Safe ts g s where
  place := hs.place
  looks := .bind (.peek hs.place) fun _ _ hrun => by
    cases hrun
    exact .pure _ hs.place
  declares _ := (runs_declaration h s.rest).bounds rfl hs
  caught hne herror := by
    obtain ⟨rfl, hs₁, -⟩ := on_of_error h hs hn hne herror
    -- The skipping behind a caught error begins where the declaration was given up.
    obtain ⟨⟨⟩, s', hsync⟩ := Quiet.synchronize _
    exact ⟨rfl, (runs_recovery h hs hn hne herror).bounds rfl hs₁, s', hsync⟩
  advances hround := by
    obtain ⟨hs', hlt⟩ := hround.on h hs hn
    have hle := hs.suffix.length_le
    unfold State.position
    omega

/-- A program that goes on makes a round. -/
theorem programFrom_succ (hne : ¬s.AtEnd) (fuel : Nat) : ∃ s', Round g s s' ∧
    (programFrom g (fuel + 1) s).2 = (programFrom g fuel s').2 ∧
    (Called ts (Stmt.nodesOf everywhere (programFrom g fuel s').1) →
      Called ts (Stmt.nodesOf everywhere (programFrom g (fuel + 1) s).1)) := by
  rw [State.AtEnd, State.next] at hne
  rw [programFrom, if_neg hne]
  -- Either a declaration was read, or the parser skipped to the next statement.
  cases hdeclaration : declaration g s with
  | ok stmt s' =>
    obtain ⟨-, -, -, hstmt⟩ := (runs_declaration h s.rest).ok rfl hs hdeclaration
    exact ⟨s', .declared hne hdeclaration, rfl, fun hmore => hstmt.append hmore⟩
  | error e s₁ =>
    obtain ⟨rfl, -⟩ := on_of_error h hs hn hne hdeclaration
    obtain ⟨⟨⟩, s', hsync⟩ := Quiet.synchronize s₁
    simp only [hsync]
    exact ⟨s', .recovered hne hdeclaration hsync, rfl, id⟩

end Rounds

/-- A program ends by rounds at a mark of the end if it has as many rounds as there are tokens. -/
theorem programFrom_ends (h : g.Steady ts n) (fuel : Nat) {s : State} (hs : s.On ts)
    (hn : s.rest.length ≤ n) (hfuel : s.rest.length ≤ fuel) :
    Relation.ReflTransGen (Round g) s (programFrom g fuel s).2 ∧
      (programFrom g fuel s).2.On ts ∧ (programFrom g fuel s).2.AtEnd ∧
      Called ts (Stmt.nodesOf everywhere (programFrom g fuel s).1) := by
  -- A round takes a token, so the rounds that are left still suffice for the tokens behind it.
  induction fuel generalizing s with
  | zero => exact absurd (List.length_eq_zero_iff.1 (Nat.le_zero.1 hfuel)) hs.rest_ne_nil
  | succ fuel ih =>
    by_cases hend : s.AtEnd
    · rw [State.AtEnd, State.next] at hend
      rw [programFrom, if_pos hend]
      exact ⟨.refl, hs, hend, .nil⟩
    · obtain ⟨s', hround, heq, hcalled⟩ := programFrom_succ h hs hn hend fuel
      obtain ⟨hs', hlt⟩ := hround.on h hs hn
      obtain ⟨hrounds, hon, hended, hmore⟩ := ih hs' (by omega) (by omega)
      rw [heq]
      exact ⟨.head hround hrounds, hon, hended, hcalled hmore⟩

/-- Rounds lead from a token to tokens. -/
theorem rounds_on (h : g.Steady ts n) {s s' : State} (hs : s.On ts) (hn : s.rest.length ≤ n)
    (hrounds : Relation.ReflTransGen (Round g) s s') : s'.On ts ∧ s'.rest.length ≤ n := by
  induction hrounds with
  | refl => exact ⟨hs, hn⟩
  | tail _ hround ih =>
    obtain ⟨hs', hlt⟩ := hround.on h ih.1 ih.2
    exact ⟨hs', Nat.le_of_lt (Nat.lt_of_lt_of_le hlt ih.2)⟩

/-! ### Sources -/

/-- The loops of the grammar, with whatever is nested in them. -/
structure LoopsProgress (ts : List Token) (g : Nested) : Prop where
  /-- The superclasses of a class. -/
  superclasses : superclasses = (rowLoop superclassRound).run ∧
    (rowLoop superclassRound).Progresses ts
  /-- The methods of a class. -/
  methods : methods g = (bracesLoop (methodRound g)).run ∧
    (bracesLoop (methodRound g)).Progresses ts
  /-- The statements of a block. -/
  declarations : declarations g = (bracesLoop (statementRound g)).run ∧
    (bracesLoop (statementRound g)).Progresses ts
  /-- The parameters of a function. -/
  parameters : parameters g = (rowLoop (parameterRound g)).run ∧
    (rowLoop (parameterRound g)).Progresses ts
  /-- The arguments of a call. -/
  arguments : arguments g = (rowLoop (argumentRound g)).run ∧
    (rowLoop (argumentRound g)).Progresses ts
  /-- The elements of a list. -/
  elements : elements g = (rowLoop (elementRound g)).run ∧
    (rowLoop (elementRound g)).Progresses ts

/-- All loops of the grammar progress. -/
theorem loops_progress (h : g.Steady ts n) : LoopsProgress ts g where
  superclasses := ⟨superclasses_eq, (superclassLoop_steady ts n).progresses⟩
  methods := ⟨methods_eq g, (bracesLoop_steady (runs_methodRound h)).progresses⟩
  declarations := ⟨declarations_eq g, (bracesLoop_steady (runs_statementRound h)).progresses⟩
  parameters := ⟨parameters_eq g, (rowLoop_steady (runs_parameterRound h)).progresses⟩
  arguments := ⟨arguments_eq g, (rowLoop_steady (runs_argumentRound h)).progresses⟩
  elements := ⟨elements_eq g, (rowLoop_steady (runs_elementRound h)).progresses⟩

/-- A parse of a source begins at its first token. -/
theorem on_start (src : List Glyph) (n : NodeId) :
    ({ rest := Token.scan src, nextId := n } : State).On (Token.scan src) :=
  ⟨(proper_scan src).ends, 0, List.length_pos_iff.2 (proper_scan src).ne_nil, rfl, nofun⟩

/-- A parse of any source, with errors or without them, makes rounds from its first token to the
mark of the end. Between them it stands at a token, it asks for no token beyond the tokens of the
source and for no previous one in front of the first, every declaration that is given up is caught,
and every round takes tokens; so does every round of the loops within declarations. -/
theorem parse_takes_all_tokens (src : List Glyph) (n : NodeId) :
    let ts := Token.scan src
    let g := nested (ts.length + 1)
    let start : State := { rest := ts, nextId := n }
    let run := programFrom g ts.length start
    tokens ts n = ⟨run.1, run.2.errors.reverse, run.2.nextId⟩ ∧
      Relation.ReflTransGen (Round g) start run.2 ∧
      (∃ last, run.2.rest = [last] ∧ last.kind = .eof ∧ ts.getLast? = some last) ∧
      (∀ s, Relation.ReflTransGen (Round g) start s → Safe ts g s) ∧
      ∀ levels, LoopsProgress ts (nested levels) := by
  intro ts g start run
  have hsteady : g.Steady ts (ts.length + 1) := nested_steady ts _
  have hstart : start.On ts := on_start src n
  obtain ⟨hrounds, hon, hended, -⟩ :=
    programFrom_ends hsteady ts.length hstart (Nat.le_succ _) (Nat.le_refl _)
  refine ⟨rfl, hrounds, ?_, fun s hreached => ?_, fun levels => ?_⟩
  · -- The scanner makes one mark of the end, so what is left at it is only that.
    obtain ⟨last, more, hrest⟩ := List.exists_cons_of_ne_nil hon.rest_ne_nil
    have heof : last.kind = .eof := by
      rw [State.AtEnd, State.next, hrest] at hended
      exact hended
    obtain ⟨before, hsplit⟩ := hon.suffix
    rw [hrest] at hsplit
    obtain ⟨rfl, -⟩ := scan_split hsplit.symm heof
    exact ⟨last, hrest, heof, by rw [← hsplit, List.getLast?_append_cons, List.getLast?_singleton]⟩
  · obtain ⟨hs, hle⟩ := rounds_on hsteady hstart (Nat.le_succ _) hreached
    exact safe_of_on hsteady hs hle
  · exact loops_progress (nested_steady ts levels)

end ClassScript.Parse
