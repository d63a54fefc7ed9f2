import ClassScript.Proofs.Parse.Progress.Basic

/-!
# Rounds of the grammar's loops

The arguments of a call, the parameters of a function, the elements of a list, the statements of a
block and the methods of a class are read round by round. Every round that does not give up takes a
token, so that the loops end by themselves: the number of tokens that are left bounds the rounds,
and no bound beyond it makes a difference.
-/

namespace ClassScript.Parse

/-- Steps in a row depend on the second one only where the first one ends. -/
theorem bind_congr_at {α β : Type} {x : Parser α} {f f' : α → Parser β} {s : State}
    (h : ∀ a s', x s = .ok a s' → f a s' = f' a s') : (x >>= f) s = (x >>= f') s := by
  simp only [Bind.bind, EStateM.bind]
  split
  · next a s' hx => exact h a s' hx
  · rfl

/-- A loop that goes on with what was read so far. -/
structure Loop (α : Type) where
  /-- Whether the loop ends in front of a round. -/
  ends : Parser Bool
  /-- One round. -/
  round : α → Parser α
  /-- Whether another round follows. -/
  again : Parser Bool

namespace Loop

variable {α : Type}

/-- Runs the rounds of a loop up to a number of them. -/
def run (l : Loop α) : Nat → α → Parser α
  | 0, a => return a
  | fuel + 1, a => do
    if ← l.ends then return a
    else
      let a ← l.round a
      if ← l.again then l.run fuel a else return a

/-- A function that unfolds as a loop does is the loop. -/
theorem eq_run {l : Loop α} {f : Nat → α → Parser α} (hzero : ∀ a, f 0 a = return a)
    (hsucc : ∀ fuel a, f (fuel + 1) a = do
      if ← l.ends then return a
      else
        let a ← l.round a
        if ← l.again then f fuel a else return a) : f = l.run := by
  funext fuel a
  induction fuel generalizing a with
  | zero => exact hzero a
  | succ fuel ih => simp only [hsucc, run, ih]

/-- The rounds of a loop advance from every state at a token, and the loop needs no more of them
than there are tokens left. -/
structure Progresses (ts : List Token) (l : Loop α) : Prop where
  /-- A round that does not give up increases the position. -/
  advances : ∀ {s s₁ s₂ s₃ : State} {a a' : α} {more : Bool}, s.On ts → l.ends s = .ok false s₁ →
    l.round a s₁ = .ok a' s₂ → l.again s₂ = .ok more s₃ → s.position ts < s₃.position ts
  /-- Nothing depends on the bound. -/
  unbounded : ∀ {s : State} {fuel : Nat} (a : α), s.On ts → s.rest.length ≤ fuel →
    l.run fuel a s = l.run s.rest.length a s

/-- What the parts of a loop do. The rounds keep what holds of the things read. -/
structure Steady (ts : List Token) (n : Nat) (l : Loop α) (P : α → Prop) : Prop where
  /-- The loop looks whether it ends. -/
  ends : ∀ rest, Runs ts False rest l.ends fun _ _ => True
  /-- A round takes a token. -/
  round : ∀ rest a, Runs ts (n ≤ rest.length) rest (l.round a) fun rest' a' =>
    rest'.length < rest.length ∧ (P a → P a')
  /-- The loop looks whether it goes on. -/
  again : ∀ rest, Runs ts False rest l.again fun _ _ => True

namespace Steady

variable {ts : List Token} {n : Nat} {l : Loop α} {P : α → Prop}

/-- A loop keeps what its rounds keep. -/
theorem runs (h : l.Steady ts n P) (fuel : Nat) (rest : List Token) (a : α) :
    Runs ts (n ≤ rest.length) rest (l.run fuel a) fun _ a' => P a → P a' := by
  -- On the fuel. A round starts no further in front than the loop did, so the same bound holds.
  induction fuel generalizing rest a with
  | zero => exact .pure id
  | succ fuel ih =>
    refine ((h.ends rest).weaken False.elim).bind fun rest₁ b h₁ _ => ?_
    split
    · exact .pure id
    · refine ((h.round rest₁ a).weaken fun hn => Nat.le_trans hn h₁).bind
        fun rest₂ a' h₂ hround => ?_
      refine ((h.again rest₂).weaken False.elim).bind fun rest₃ more h₃ _ => ?_
      split
      · refine ((ih rest₃ a').weaken fun hn => by omega).mono fun _ _ _ hkeeps hp => ?_
        exact hkeeps (hround.2 hp)
      · exact .pure hround.2

/-- A round takes a token and gives none back. -/
theorem lt_of_round (h : l.Steady ts n P) {s s₁ s₂ s₃ : State} {a a' : α} {more : Bool}
    (hs : s.On ts) (h₁ : l.ends s = .ok false s₁) (h₂ : l.round a s₁ = .ok a' s₂)
    (h₃ : l.again s₂ = .ok more s₃) : s₃.On ts ∧ s₃.rest.length < s.rest.length := by
  obtain ⟨hs₁, hle₁, -⟩ := (h.ends _).ok rfl hs h₁
  obtain ⟨hs₂, -, hlt, -⟩ := (h.round _ a).ok rfl hs₁ h₂
  obtain ⟨hs₃, hle₃, -⟩ := (h.again _).ok rfl hs₂ h₃
  exact ⟨hs₃, by omega⟩

/-- Two bounds that suffice make no difference. -/
theorem run_eq (h : l.Steady ts n P) {fuel fuel' : Nat} {s : State} (a : α) (hs : s.On ts)
    (hfuel : s.rest.length ≤ fuel) (hfuel' : s.rest.length ≤ fuel') :
    l.run fuel a s = l.run fuel' a s := by
  have hpos := List.length_pos_iff.2 hs.rest_ne_nil
  -- A round takes a token, so both bounds still suffice behind it.
  induction fuel generalizing fuel' s a with
  | zero => omega
  | succ fuel ih =>
    obtain ⟨fuel', rfl⟩ := Nat.exists_eq_add_one_of_ne_zero (n := fuel') (by omega)
    refine bind_congr_at fun stop s₁ h₁ => ?_
    cases stop with
    | true => rfl
    | false =>
      refine bind_congr_at fun a' s₂ h₂ => bind_congr_at fun more s₃ h₃ => ?_
      obtain ⟨hs₃, hlt⟩ := h.lt_of_round hs h₁ h₂ h₃
      cases more with
      | false => rfl
      | true =>
        exact ih a' hs₃ (by omega) (by omega) (List.length_pos_iff.2 hs₃.rest_ne_nil)

/-- A steady loop advances in every round and ends with the tokens. -/
theorem progresses (h : l.Steady ts n P) : l.Progresses ts where
  advances hs h₁ h₂ h₃ := by
    obtain ⟨-, hlt⟩ := h.lt_of_round hs h₁ h₂ h₃
    have hle := hs.suffix.length_le
    unfold State.position
    omega
  unbounded a hs hfuel := h.run_eq a hs hfuel (Nat.le_refl _)

end Steady

end Loop

/-! ### The loops of the grammar -/

/-- Commas go on with a row that has at least one part. -/
def rowLoop {α : Type} (round : α → Parser α) : Loop α := ⟨return false, round, accept .comma⟩

/-- A closing brace, or the end of the input, ends what stands in braces. -/
def bracesLoop {α : Type} (round : α → Parser α) : Loop α :=
  ⟨do return (← check .rightBrace) || (← atEnd), round, return true⟩

/-- One more argument of a call. -/
def argumentRound (g : Nested) (a : Arguments) : Parser Arguments := do
  if (← check .identifier) && (← peekNext).kind = .colon then
    return { a with named := a.named ++ [← namedArgument g a.named] }
  else
    let arg ← g.expression
    unless a.named.isEmpty do complain arg.token .positionalAfterNamed
    return { a with args := a.args ++ [arg] }

/-- One more parameter of a function. -/
def parameterRound (g : Nested) (params : List Param) : Parser (List Param) :=
  return params ++ [← parameter g params]

/-- One more element of a list. -/
def elementRound (g : Nested) (es : List Expr) : Parser (List Expr) := return es ++ [← g.expression]

/-- One more superclass of a class. -/
def superclassRound (supers : List NameUse) : Parser (List NameUse) := do
  let name ← expect .identifier .superclassName
  return supers ++ [⟨← fresh, name⟩]

/-- One more statement of a block. -/
def statementRound (g : Nested) (body : List Stmt) : Parser (List Stmt) :=
  return body ++ [← g.declaration]

/-- One more method of a class. -/
def methodRound (g : Nested) (ms : List Lambda) : Parser (List Lambda) := do
  let keyword ← peek
  let _ ← accept .funWord
  unless ← check .identifier do fail (← peek) .methodName
  let m ← function g keyword
  let _ ← accept .semicolon
  return ms ++ [m]

/-- The arguments of a call are read by a loop over commas. -/
theorem arguments_eq (g : Nested) : arguments g = (rowLoop (argumentRound g)).run := by
  refine Loop.eq_run (fun _ => rfl) fun fuel a => ?_
  simp only [arguments, rowLoop, argumentRound, pure_bind, bind_assoc]
  refine bind_congr fun named => bind_congr fun next => ?_
  split
  · simp only [pure_bind, bind_assoc]
  · simp only [bind_assoc]
    refine bind_congr fun arg => ?_
    split <;> simp only [pure_bind, bind_assoc]

/-- So are the parameters of a function. -/
theorem parameters_eq (g : Nested) : parameters g = (rowLoop (parameterRound g)).run := by
  refine Loop.eq_run (fun _ => rfl) fun fuel params => ?_
  simp only [parameters, rowLoop, parameterRound, pure_bind, bind_assoc]
  rfl

/-- So are the elements of a list. -/
theorem elements_eq (g : Nested) : elements g = (rowLoop (elementRound g)).run := by
  refine Loop.eq_run (fun _ => rfl) fun fuel es => ?_
  simp only [elements, rowLoop, elementRound, pure_bind, bind_assoc]
  rfl

/-- So are the superclasses of a class. -/
theorem superclasses_eq : superclasses = (rowLoop superclassRound).run := by
  refine Loop.eq_run (fun _ => rfl) fun fuel supers => ?_
  simp only [superclasses, rowLoop, superclassRound, pure_bind, bind_assoc]
  rfl

/-- The statements of a block are read by a loop up to a brace. -/
theorem declarations_eq (g : Nested) : declarations g = (bracesLoop (statementRound g)).run := by
  refine Loop.eq_run (fun _ => rfl) fun fuel body => ?_
  simp only [declarations, bracesLoop, statementRound, pure_bind, bind_assoc]
  rfl

/-- So are the methods of a class. -/
theorem methods_eq (g : Nested) : methods g = (bracesLoop (methodRound g)).run := by
  refine Loop.eq_run (fun _ => rfl) fun fuel ms => ?_
  simp only [methods, bracesLoop, methodRound, pure_bind, bind_assoc]
  refine bind_congr fun closed => bind_congr fun ended => ?_
  split
  · rfl
  · refine bind_congr fun keyword => bind_congr fun word => bind_congr fun named => ?_
    split <;> simp only [pure_bind, bind_assoc] <;> rfl

/-! ### What the loops need of their rounds -/

section Rounds

variable {α : Type} {ts : List Token} {n : Nat} {P : α → Prop} {round : α → Parser α}

/-- A loop over commas is steady if each of its parts takes a token. -/
theorem rowLoop_steady (h : ∀ rest a, Runs ts (n ≤ rest.length) rest (round a) fun rest' a' =>
    rest'.length < rest.length ∧ (P a → P a')) : (rowLoop round).Steady ts n P where
  ends _ := .pure trivial
  round := h
  again rest := by
    change Runs ts False rest (accept .comma) fun _ _ => True
    rw [← bind_pure (accept .comma)]
    exact .accept (by decide) (fun _ => .pure trivial) fun _ _ _ _ _ => .pure trivial

/-- So is a loop up to a brace. -/
theorem bracesLoop_steady (h : ∀ rest a, Runs ts (n ≤ rest.length) rest (round a) fun rest' a' =>
    rest'.length < rest.length ∧ (P a → P a')) : (bracesLoop round).Steady ts n P where
  ends _ := .check (.atEnd (.pure trivial))
  round := h
  again _ := .pure trivial

end Rounds

end ClassScript.Parse
