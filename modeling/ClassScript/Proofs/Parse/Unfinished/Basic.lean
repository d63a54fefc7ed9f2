import ClassScript.Proofs.Parse.Yields

/-!
# Two parses of one beginning

A step of a parse is compared on two inputs: a full one, and one that is cut off and ends early.
As long as both go on alike, they take the same tokens and lead to the same result (`Aligned`).
Where they part, the cut input is at its end, and there it can only end without an error or break
off with an error at the end (`Settles`). What comes behind a step is at the end, too, so this is a
property that steps in a row keep.

The only errors that a cut can bring about elsewhere are complaints about parameters and arguments
that are not finished. A step that may make one is `late`: it does not take a token at the end, and
what comes behind it has to.
-/

namespace ClassScript.Parse

namespace State

/-- The first token not taken yet. -/
def next (s : State) : Token := s.rest.headD .absent

/-- The last token marks the end of the input. -/
def Ended (s : State) : Prop := ∃ last, s.rest.getLast? = some last ∧ last.kind = .eof

/-- All tokens are taken. -/
def AtEnd (s : State) : Prop := s.next.kind = .eof

/-- The mark of the end is still there, so at least one token is left. -/
theorem Ended.length_pos {s : State} (h : s.Ended) : 0 < s.rest.length := by
  obtain ⟨last, hlast, -⟩ := h
  exact List.length_pos_iff.2 fun hnil => by simp [hnil] at hlast

/-- A token that does not mark the end has tokens behind it. -/
theorem Ended.tail {s s' : State} {t : Token} {rest : List Token} (h : s.Ended)
    (hs : s.rest = t :: rest) (ht : t.kind ≠ .eof) (hs' : s'.rest = rest) : s'.Ended := by
  obtain ⟨last, hlast, hkind⟩ := h
  rw [hs, List.getLast?_cons] at hlast
  cases hr : rest.getLast? with
  | none =>
    rw [hr] at hlast
    cases hlast
    contradiction
  | some u =>
    rw [hr] at hlast
    exact ⟨last, by rw [hs', hr, ← hlast, Option.getD_some], hkind⟩

end State

open State

/-! ### One parse -/

/-- What a step does to a state: it takes tokens, at least a given number of them and not the mark
of the end, and it keeps all errors. -/
structure Took (k : Nat) (s s' : State) : Prop where
  /-- The mark of the end is not taken. -/
  ended : s'.Ended
  /-- Tokens are taken. -/
  count : s'.rest.length + k ≤ s.rest.length
  /-- Errors are kept. -/
  errors : s.errors <:+ s'.errors

namespace Took

variable {k k' : Nat} {s s' s'' : State}

/-- A step that does nothing takes no tokens. -/
theorem refl (h : s.Ended) : Took 0 s s := ⟨h, Nat.le_refl _, List.suffix_refl _⟩

/-- Two steps in a row take the tokens of both. -/
theorem trans (h : Took k s s') (h' : Took k' s' s'') : Took (k + k') s s'' where
  ended := h'.ended
  count := by
    have := h.count
    have := h'.count
    omega
  errors := h.errors.trans h'.errors

/-- Who takes so many tokens takes fewer as well. -/
theorem mono (h : Took k s s') (hk : k' ≤ k) : Took k' s s' where
  ended := h.ended
  count := by
    have := h.count
    omega
  errors := h.errors

/-- Without errors in the end there was none before. -/
theorem no_errors (h : Took k s s') (hs' : s'.errors = []) : s.errors = [] := by
  have herrors := h.errors
  rw [hs'] at herrors
  exact List.suffix_nil.1 herrors

end Took

/-- A step on an input of limited length, if the next token is of a certain sort. It takes tokens as
`Took` says; if it gives up, then with an error, and never for want of levels. -/
structure Moves {α : Type} (P : Token → Prop) (N k : Nat) (x : Parser α) : Prop where
  /-- The step ends with a result. -/
  ok : ∀ {s s' : State} {a : α}, s.Ended → s.rest.length ≤ N → P s.next → x s = .ok a s' →
    Took k s s'
  /-- The step gives up. -/
  error : ∀ {s s' : State} {e : Stop}, s.Ended → s.rest.length ≤ N → P s.next →
    x s = .error e s' → e = .bailout ∧ Took 0 s s' ∧ s'.errors ≠ []

/-! ### A parse at its end -/

/-- A result at the end of the input: no errors, or an error at the end. A late step may have made
complaints. -/
def Settles {α : Type} (late : Prop) : EStateM.Result Stop State α → Prop
  | .ok _ s' => s'.AtEnd ∧ (s'.errors = [] ∨ late)
  | .error e s' => e = .bailout ∧ ∃ error ∈ s'.errors, error.atEnd = true

/-- A result that was found without taking a token, or an error at the end. -/
def Halts {α : Type} (late : Prop) (s : State) : EStateM.Result Stop State α → Prop
  | .ok _ s' => s'.rest = s.rest ∧ (s'.errors = s.errors ∨ late)
  | .error e s' => e = .bailout ∧ ∃ error ∈ s'.errors, error.atEnd = true

/-- At the end of the input a step ends without taking a token, or breaks off with an error. -/
def Ends {α : Type} (late : Prop) (P : Token → Prop) (n : Nat) (x : Parser α) : Prop :=
  ∀ s : State, s.Ended → s.rest.length ≤ n → s.AtEnd → P s.next → Halts late s (x s)

/-! ### Two parses -/

/-- Two parses that went alike so far, on inputs of which the second one is cut off. -/
structure Aligned (s c : State) : Prop where
  /-- The second input begins like the first one and then ends. -/
  common : ∃ pre more last, more ≠ [] ∧ last.kind = .eof ∧ s.rest = pre ++ more ∧
    c.rest = pre ++ [last]
  /-- The same token was taken last. -/
  previous : c.previous = s.previous
  /-- The same identity is the next one. -/
  nextId : c.nextId = s.nextId
  /-- Nothing was wrong with the first input. -/
  full : s.errors = []
  /-- Nothing was wrong with the second input. -/
  part : c.errors = []

namespace Aligned

variable {s c : State}

/-- The cut input is not longer. -/
theorem length_le (h : Aligned s c) : c.rest.length ≤ s.rest.length := by
  obtain ⟨pre, more, last, hmore, -, hs, hc⟩ := h.common
  have := List.length_pos_iff.2 hmore
  simp only [hs, hc, List.length_append, List.length_singleton]
  omega

/-- In front of its end the cut input goes on with the same token. -/
theorem next_eq (h : Aligned s c) (hc : ¬c.AtEnd) : c.next = s.next := by
  obtain ⟨pre, more, last, -, hlast, hs, hcut⟩ := h.common
  cases pre with
  | nil => exact absurd (by simpa [AtEnd, next, hcut] using hlast) hc
  | cons t pre => simp [next, hs, hcut]

/-- Both inputs take the same token. -/
theorem advance (h : Aligned s c) (hc : ¬c.AtEnd) :
    ∃ t s' c', t.kind ≠ .eof ∧ Parse.advance s = .ok t s' ∧ Parse.advance c = .ok t c' ∧
      Aligned s' c' := by
  obtain ⟨pre, more, last, hmore, hlast, hs, hcut⟩ := h.common
  cases pre with
  | nil => exact absurd (by simpa [AtEnd, next, hcut] using hlast) hc
  | cons t pre =>
    have ht : t.kind ≠ .eof := by simpa [AtEnd, next, hcut] using hc
    exact ⟨t, _, _, ht, advance_cons hs ht, advance_cons hcut ht,
      ⟨pre, more, last, hmore, hlast, rfl, rfl⟩, rfl, h.nextId, h.full, h.part⟩

end Aligned

/-- An input that is cut off behind a single token, without errors so far. -/
structure State.Single (c : State) (t last : Token) : Prop where
  /-- The token is followed by the mark of the end. -/
  rest : c.rest = [t, last]
  /-- The mark of the end. -/
  mark : last.kind = .eof
  /-- The token is not that mark itself. -/
  kind : t.kind ≠ .eof
  /-- Nothing was wrong so far. -/
  errors : c.errors = []

namespace State.Single

variable {c : State} {t last : Token}

/-- The single token comes next. -/
theorem next_eq (h : c.Single t last) : c.next = t := by rw [next, h.rest, List.headD_cons]

/-- Behind it the mark of the end is left. -/
theorem not_atEnd (h : c.Single t last) : ¬c.AtEnd := by
  rw [AtEnd, h.next_eq]
  exact h.kind

/-- The last token of the cut input marks its end. -/
theorem ended (h : c.Single t last) : c.Ended := ⟨last, by simp [h.rest], h.mark⟩

/-- Taking the token leads to the end. -/
theorem advance (h : c.Single t last) :
    ∃ c', Parse.advance c = .ok t c' ∧ c'.Ended ∧ c'.AtEnd ∧ c'.errors = [] ∧
      c'.rest.length ≤ c.rest.length - 1 :=
  ⟨_, advance_cons h.rest h.kind, ⟨last, rfl, h.mark⟩, h.mark, h.errors, by simp [h.rest]⟩

end State.Single

/-- A step on a full input and on one that is cut off. The bounds are on the lengths of the two
inputs; on both the step takes at least `k` tokens. -/
structure Continues {α : Type} (late : Prop) (P : Token → Prop) (N n k : Nat) (x y : Parser α) :
    Prop where
  /-- On the full input tokens are taken. -/
  full : Moves P N k x
  /-- On the cut input, too. -/
  part : Moves P n k y
  /-- At its end the cut input leads no further. -/
  ends : Ends late P n y
  /-- If the full input leads to a result without errors, then the cut one leads to the same result,
  or it comes to its end. -/
  cut : ∀ {s c s' : State} {a : α}, Aligned s c → s.Ended → c.Ended → s.rest.length ≤ N →
    c.rest.length ≤ n → P c.next → ¬c.AtEnd → x s = .ok a s' → s'.errors = [] →
    (∃ c', y c = .ok a c' ∧ Aligned s' c') ∨ Settles late (y c)

/-! ### Steps in a row -/

section

variable {α β : Type} {x y : Parser α} {f h : α → Parser β} {s s' : State}

/-- A step goes on with the value of the one in front of it. -/
theorem bind_of_ok {a : α} (hx : x s = .ok a s') : (x >>= f) s = f a s' := by
  simp only [Bind.bind, EStateM.bind, hx]

/-- A step that gives up takes the rest with it. -/
theorem bind_of_error {e : Stop} (hx : x s = .error e s') : (x >>= f) s = .error e s' := by
  simp only [Bind.bind, EStateM.bind, hx]

/-- Two steps in a row succeed only if both do. -/
theorem bind_eq_ok {b : β} (hb : (x >>= f) s = .ok b s') :
    ∃ a s₁, x s = .ok a s₁ ∧ f a s₁ = .ok b s' := by
  cases hx : x s with
  | ok a s₁ =>
    rw [bind_of_ok hx] at hb
    exact ⟨a, s₁, rfl, hb⟩
  | error e s₁ =>
    rw [bind_of_error hx] at hb
    cases hb

/-- Two steps in a row give up where one of them does. -/
theorem bind_eq_error {e : Stop} (hb : (x >>= f) s = .error e s') :
    x s = .error e s' ∨ ∃ a s₁, x s = .ok a s₁ ∧ f a s₁ = .error e s' := by
  cases hx : x s with
  | ok a s₁ =>
    rw [bind_of_ok hx] at hb
    exact .inr ⟨a, s₁, rfl, hb⟩
  | error e s₁ =>
    rw [bind_of_error hx] at hb
    cases hb
    exact .inl rfl

variable {P : Token → Prop} {N n k k' : Nat} {late late₁ : Prop}

/-- A failure adds its error and gives up. -/
theorem fail_apply (token : Token) (what : Expected) :
    (fail token what : Parser α) s =
      .error .bailout { s with errors := ⟨token, .expected what⟩ :: s.errors } := rfl

/-- A check looks at the kind of the next token and changes nothing. -/
theorem check_apply (kind : Token.Kind) : check kind s = .ok (decide (s.next.kind = kind)) s := rfl

/-- A token of another kind is not taken. -/
theorem accept?_of_notMem {kinds : List Token.Kind} (h : s.next.kind ∉ kinds) :
    accept? kinds s = .ok none s := by
  have hpeek : peek s = .ok s.next s := rfl
  rw [accept?, bind_of_ok hpeek, if_neg (by simpa using h)]
  rfl

/-- This also holds for a single kind. -/
theorem accept_of_ne {kind : Token.Kind} (h : s.next.kind ≠ kind) :
    accept kind s = .ok false s := by
  rw [accept, bind_of_ok (accept?_of_notMem (by simpa using h))]
  rfl

/-- A token that was expected is taken. -/
theorem expect_of_eq {kind : Token.Kind} (what : Expected) (h : s.next.kind = kind) :
    expect kind what s = advance s := by
  rw [Yields.expect_apply]
  exact if_pos h

/-- At the end no token is taken. -/
theorem advance_atEnd (hs : s.AtEnd) : advance s = .ok s.previous s := by
  cases hr : s.rest with
  | nil => exact advance_nil hr
  | cons t rest => exact advance_eof hr (by simpa [AtEnd, next, hr] using hs)

namespace Moves

/-- Less may be said of a step: about fewer tokens, shorter inputs and fewer tokens taken. -/
theorem mono (hx : Moves P N k x) {P' : Token → Prop} {N' k' : Nat} (hP : ∀ t, P' t → P t)
    (hN : N' ≤ N) (hk : k' ≤ k) : Moves P' N' k' x where
  ok he hl hp h := (hx.ok he (Nat.le_trans hl hN) (hP _ hp) h).mono hk
  error he hl hp h := hx.error he (Nat.le_trans hl hN) (hP _ hp) h

/-- Without room for the mark of the end there is nothing to show. -/
theorem zero : Moves P 0 k x where
  ok he hl := absurd he.length_pos (by omega)
  error he hl := absurd he.length_pos (by omega)

/-- Behind a first step the input is shorter, and a second one takes its tokens from there. -/
theorem bind (hx : Moves P N k x) (hf : ∀ a, Moves (fun _ => True) (N - k) k' (f a)) :
    Moves P N (k + k') (x >>= f) where
  -- The first step may take tokens, so the second one is bound by what is left.
  ok he hl hp h := by
    obtain ⟨a, s₁, h₁, h₂⟩ := bind_eq_ok h
    have hfirst := hx.ok he hl hp h₁
    have hcount := hfirst.count
    exact hfirst.trans ((hf a).ok hfirst.ended (by omega) trivial h₂)
  error he hl hp h := by
    obtain h₁ | ⟨a, s₁, h₁, h₂⟩ := bind_eq_error h
    · exact hx.error he hl hp h₁
    · have hfirst := hx.ok he hl hp h₁
      have hcount := hfirst.count
      obtain ⟨rfl, hsecond, herrors⟩ := (hf a).error hfirst.ended (by omega) trivial h₂
      exact ⟨rfl, (hfirst.trans hsecond).mono (Nat.zero_le _), herrors⟩

/-- A step that only looks at the state, and what comes behind it. -/
theorem read_bind {v : State → α} {R : α → Token → Prop} (hx : ∀ s, x s = .ok (v s) s)
    (hR : ∀ s, R (v s) s.next) (hf : ∀ a, Moves (fun t => P t ∧ R a t) N k (f a)) :
    Moves P N k (x >>= f) where
  ok he hl hp h := (hf _).ok he hl ⟨hp, hR _⟩ ((bind_of_ok (hx _)).symm.trans h)
  error he hl hp h := (hf _).error he hl ⟨hp, hR _⟩ ((bind_of_ok (hx _)).symm.trans h)

/-- A token is taken if there is one in front of the end. -/
theorem advance (hP : ∀ t, P t → t.kind ≠ .eof) : Moves P N 1 Parse.advance where
  ok := by
    intro s s' a he hl hp h
    cases hs : s.rest with
    | nil =>
      have := he.length_pos
      simp [hs] at this
    | cons t rest =>
      have ht : t.kind ≠ .eof := hP t (by simpa [next, hs] using hp)
      rw [advance_cons hs ht] at h
      cases h
      exact ⟨he.tail hs ht rfl, by simp [hs], List.suffix_refl _⟩
  error _ _ _ h := by cases h

/-- The mark of the end is not taken. -/
theorem advance_any : Moves P N 0 Parse.advance where
  ok := by
    intro s s' a he hl hp h
    by_cases hs : s.AtEnd
    · rw [advance_atEnd hs] at h
      cases h
      exact .refl he
    · have hP : Moves (fun t => t.kind ≠ .eof) N 1 Parse.advance := .advance fun _ => id
      exact (hP.ok he hl hs h).mono (Nat.zero_le _)
  error _ _ _ h := by cases h

/-- A complaint leaves the tokens alone. -/
theorem complain (token : Token) (complaint : Complaint) :
    Moves P N 0 (Parse.complain token complaint) where
  ok := by
    rintro s _ _ he - - ⟨⟩
    exact ⟨he, Nat.le_refl _, List.suffix_cons _ _⟩
  error _ _ _ h := by cases h

/-- A failure gives up with an error. -/
theorem fail (token : Token) (what : Expected) :
    Moves P N k (Parse.fail token what : Parser α) where
  ok _ _ _ h := by
    rw [fail_apply] at h
    cases h
  error := by
    intro s s' e he _ _ h
    rw [fail_apply] at h
    cases h
    exact ⟨rfl, ⟨he, Nat.le_refl _, List.suffix_cons _ _⟩, List.cons_ne_nil _ _⟩

/-- A new number for a node leaves the tokens alone. -/
theorem fresh : Moves P N 0 Parse.fresh where
  ok := by
    rintro s _ _ he - - ⟨⟩
    exact ⟨he, Nat.le_refl _, List.suffix_refl _⟩
  error _ _ _ h := by cases h

end Moves

/-- An end without a token taken, and without errors, is an end of the input. -/
theorem Halts.settles {r : EStateM.Result Stop State α} (hr : Halts late s r) (hs : s.AtEnd)
    (herrors : s.errors = []) : Settles late r := by
  cases r with
  | ok a s' =>
    refine ⟨?_, hr.2.imp_left (·.trans herrors)⟩
    simpa only [AtEnd, next, hr.1] using hs
  | error e s' => exact hr

/-- A result may be called late if it is none. -/
theorem Halts.mono {late' : Prop} {r : EStateM.Result Stop State α} (hr : Halts late s r)
    (h : late → late') : Halts late' s r := by
  cases r with
  | ok a s' => exact ⟨hr.1, hr.2.imp_right h⟩
  | error e s' => exact hr

/-- Errors behind the end may be allowed where there are none. -/
theorem Settles.mono {late' : Prop} {r : EStateM.Result Stop State α} (hr : Settles late r)
    (h : late → late') : Settles late' r := by
  cases r with
  | ok a s' => exact ⟨hr.1, hr.2.imp_right h⟩
  | error e s' => exact hr

/-- At the end a step in a row with another one goes on where that one stopped. -/
theorem Ends.bind (hx : Ends late₁ P n x) (hmoves : Moves P n k x)
    (hf : ∀ a, Ends late (fun _ => True) (n - k) (f a))
    (hnext : ∀ a, Moves (fun _ => True) (n - k) k' (f a))
    (hlate : late₁ → late ∨ 0 < k') : Ends late P n (x >>= f) := by
  intro s he hl hs hp
  have hends := hx s he hl hs hp
  cases h₁ : x s with
  | error e s₁ =>
    rw [h₁] at hends
    rw [bind_of_error h₁]
    exact hends
  | ok a s₁ =>
    rw [h₁] at hends
    rw [bind_of_ok h₁]
    have hfirst := hmoves.ok he hl hp h₁
    have hcount := hfirst.count
    have hs₁ : s₁.AtEnd := by simpa only [AtEnd, next, hends.1] using hs
    have hsecond := hf a s₁ hfirst.ended (by omega) hs₁ trivial
    cases h₂ : f a s₁ with
    | error e s₂ =>
      rw [h₂] at hsecond
      exact hsecond
    | ok b s₂ =>
      rw [h₂] at hsecond
      refine ⟨hsecond.1.trans hends.1, ?_⟩
      -- If the second step has to take a token, it does not end here.
      have htook := ((hnext a).ok hfirst.ended (by omega) trivial h₂).count
      rw [hsecond.1] at htook
      rcases hsecond.2 with herrors | hl
      · rcases hends.2 with herrors' | hl
        · exact .inl (herrors.trans herrors')
        · exact .inr ((hlate hl).resolve_right (by omega))
      · exact .inr hl

/-- A step behind one that came to the end of the input. -/
theorem Settles.bind (hx : Settles late₁ (x s)) (hmoves : Moves P n k x) (he : s.Ended)
    (hl : s.rest.length ≤ n) (hp : P s.next) (hf : ∀ a, Ends late (fun _ => True) (n - k) (f a))
    (hnext : ∀ a, Moves (fun _ => True) (n - k) k' (f a)) (hlate : late₁ → late ∨ 0 < k') :
    Settles late ((x >>= f) s) := by
  cases h₁ : x s with
  | error e s₁ =>
    rw [h₁] at hx
    rw [bind_of_error h₁]
    exact hx
  | ok a s₁ =>
    rw [h₁] at hx
    rw [bind_of_ok h₁]
    have hfirst := hmoves.ok he hl hp h₁
    have hcount := hfirst.count
    have hends := hf a s₁ hfirst.ended (by omega) hx.1 trivial
    -- The first step came to the end, so the second can take no token there.
    cases h₂ : f a s₁ with
    | error e s₂ =>
      rw [h₂] at hends
      exact hends
    | ok b s₂ =>
      rw [h₂] at hends
      have htook := ((hnext a).ok hfirst.ended (by omega) trivial h₂).count
      rw [hends.1] at htook
      refine ⟨by simpa only [AtEnd, next, hends.1] using hx.1, ?_⟩
      -- Either neither has complained, or one has and was late.
      rcases hends.2 with hsame | hl
      · rcases hx.2 with hnone | hl
        · exact .inl (hsame.trans hnone)
        · exact .inr ((hlate hl).resolve_right (by omega))
      · exact .inr hl

namespace Continues

/-- Two inputs that go on alike, maybe up to the end of the cut one. -/
theorem outcome (hx : Continues late P N n k x y) {s c s' : State} {a : α} (ha : Aligned s c)
    (hs : s.Ended) (hc : c.Ended) (hN : s.rest.length ≤ N) (hn : c.rest.length ≤ n)
    (hp : P c.next) (h : x s = .ok a s') (herrors : s'.errors = []) :
    (∃ c', y c = .ok a c' ∧ Aligned s' c') ∨ Settles late (y c) := by
  by_cases hend : c.AtEnd
  · exact .inr ((hx.ends c hc hn hend hp).settles hend ha.part)
  · exact hx.cut ha hs hc hN hn hp hend h herrors

/-- What comes behind a step at which the cut input came to its end. -/
theorem settles (hx : Continues late₁ P N n k x y)
    (hf : ∀ a, Continues late (fun _ => True) (N - k) (n - k) k' (f a) (h a)) {c : State}
    (hc : c.Ended) (hn : c.rest.length ≤ n) (hp : P c.next) (hy : Settles late₁ (y c))
    (hlate : late₁ → late ∨ 0 < k') : Settles late ((y >>= h) c) :=
  hy.bind hx.part hc hn hp (fun a => (hf a).ends) (fun a => (hf a).part) hlate

/-- Steps in a row. What a late step may have said does not matter if a token has to follow. -/
theorem bind (hx : Continues late₁ P N n k x y)
    (hf : ∀ a, Continues late (fun _ => True) (N - k) (n - k) k' (f a) (h a))
    (hlate : late₁ → late ∨ 0 < k') : Continues late P N n (k + k') (x >>= f) (y >>= h) where
  full := hx.full.bind fun a => (hf a).full
  part := hx.part.bind fun a => (hf a).part
  ends := hx.ends.bind hx.part (fun a => (hf a).ends) (fun a => (hf a).part) hlate
  cut := by
    intro s c s' b ha hs hc hN hn hp hend hb herrors
    obtain ⟨a, s₁, h₁, h₂⟩ := bind_eq_ok hb
    have hfirst := hx.full.ok hs hN (ha.next_eq hend ▸ hp) h₁
    have hcount := hfirst.count
    have hsecond := (hf a).full.ok hfirst.ended (by omega) trivial h₂
    -- The inputs go on alike behind the first step, or it came to the end of the cut one.
    obtain ⟨c₁, hc₁, ha₁⟩ | hsettles :=
      hx.cut ha hs hc hN hn hp hend h₁ (hsecond.no_errors herrors)
    · have hpart := hx.part.ok hc hn hp hc₁
      have hcount' := hpart.count
      rw [bind_of_ok hc₁]
      exact (hf a).outcome ha₁ hfirst.ended hpart.ended (by omega) (by omega) trivial h₂ herrors
    · exact .inr (hx.settles hf hc hn hp hsettles hlate)

/-- Two parses that go alike do so from fewer tokens and on shorter inputs too. -/
theorem mono (hx : Continues late P N n k x y) {late' : Prop} {P' : Token → Prop}
    {N' n' k' : Nat} (hlate : late → late') (hP : ∀ t, P' t → P t) (hN : N' ≤ N) (hn : n' ≤ n)
    (hk : k' ≤ k) : Continues late' P' N' n' k' x y where
  full := hx.full.mono hP hN hk
  part := hx.part.mono hP hn hk
  ends s he hl hs hp := (hx.ends s he (Nat.le_trans hl hn) hs (hP _ hp)).mono hlate
  cut ha hs hc hN' hn' hp hend h herrors :=
    (hx.cut ha hs hc (Nat.le_trans hN' hN) (Nat.le_trans hn' hn) (hP _ hp) hend h herrors).imp_right
      (·.mono hlate)

/-- Smaller bounds. -/
theorem within (hx : Continues late P N n k x y) {N' n' : Nat} (hN : N' ≤ N) (hn : n' ≤ n) :
    Continues late P N' n' k x y := hx.mono id (fun _ => id) hN hn (Nat.le_refl k)

/-- Fewer tokens are taken at least. -/
theorem taking (hx : Continues late P N n k x y) {k' : Nat} (hk : k' ≤ k) :
    Continues late P N n k' x y := hx.mono id (fun _ => id) (Nat.le_refl N) (Nat.le_refl n) hk

/-- Any next token. -/
theorem any (hx : Continues late (fun _ => True) N n k x y) : Continues late P N n k x y :=
  hx.mono id (fun _ _ => trivial) (Nat.le_refl N) (Nat.le_refl n) (Nat.le_refl k)

/-- A step counts as late if it is not. -/
theorem relax (hx : Continues False P N n k x y) : Continues late P N n k x y :=
  hx.mono False.elim (fun _ => id) (Nat.le_refl N) (Nat.le_refl n) (Nat.le_refl k)

/-- Without room for the mark of the end in either input there is nothing to show. -/
theorem zero : Continues late P 0 0 k x y where
  full := .zero
  part := .zero
  ends s he hl := absurd he.length_pos (by omega)
  cut _ hs _ hN := absurd hs.length_pos (by omega)

/-- Without room for the mark of the end in the cut input only the full one matters. -/
theorem of_full (hx : Moves P N k x) : Continues late P N 0 k x y where
  full := hx
  part := .zero
  ends s he hl := absurd he.length_pos (by omega)
  cut _ _ hc _ hn := absurd hc.length_pos (by omega)

/-! ### Single steps -/

/-- A value is the same on both inputs. -/
theorem pure (a : α) : Continues late P N n 0 (Pure.pure a : Parser α) (Pure.pure a) where
  full := { ok := by rintro s _ _ he - - ⟨⟩; exact .refl he, error := fun _ _ _ h => by cases h }
  part := { ok := by rintro s _ _ he - - ⟨⟩; exact .refl he, error := fun _ _ _ h => by cases h }
  ends s _ _ _ _ := ⟨rfl, .inl rfl⟩
  cut := by
    rintro s c _ _ ha - - - - - - ⟨⟩ -
    exact .inl ⟨c, rfl, ha⟩

/-- A result that is known in front of the next step. -/
theorem known {a b : α} (hf : Continues late P N n k (f a) (h b)) :
    Continues late P N n k (Pure.pure a >>= f) (Pure.pure b >>= h) :=
  ⟨⟨hf.full.ok, hf.full.error⟩, ⟨hf.part.ok, hf.part.error⟩, hf.ends, hf.cut⟩

/-- What comes behind a step that takes tokens need not take any. -/
theorem seq (hx : Continues late P N n k x y)
    (hf : ∀ a, Continues late (fun _ => True) (N - k) (n - k) 0 (f a) (h a)) :
    Continues late P N n k (x >>= f) (y >>= h) := hx.bind hf .inl

/-- A late step with a token behind it that has to follow. -/
theorem close (hx : Continues True P N n k x y)
    (hf : ∀ a, Continues late (fun _ => True) (N - k) (n - k) 1 (f a) (h a)) :
    Continues late P N n k (x >>= f) (y >>= h) :=
  (hx.bind hf fun _ => .inr Nat.one_pos).mono id (fun _ => id) (Nat.le_refl N) (Nat.le_refl n)
    (Nat.le_add_right k 1)

/-- What is made of a value is the same on both inputs. -/
theorem map {f : α → β} (hx : Continues late P N n k x y) :
    Continues late P N n k (f <$> x) (f <$> y) := hx.seq fun a => pure (f a)

/-- A step that only looks at the state, and what comes behind it. -/
theorem read_bind {v : State → α} {R : α → Token → Prop} (hx : ∀ s, x s = .ok (v s) s)
    (hv : ∀ s c, Aligned s c → ¬c.AtEnd → v c = v s) (hR : ∀ s, R (v s) s.next)
    (hf : ∀ a, Continues late (fun t => P t ∧ R a t) N n k (f a) (h a)) :
    Continues late P N n k (x >>= f) (x >>= h) where
  full := .read_bind hx hR fun a => (hf a).full
  part := .read_bind hx hR fun a => (hf a).part
  ends s he hl hs hp := by
    rw [bind_of_ok (hx s)]
    exact (hf _).ends s he hl hs ⟨hp, hR s⟩
  cut := by
    intro s c s' a ha hs hc hN hn hp hend hr herrors
    rw [bind_of_ok (hx s), ← hv s c ha hend] at hr
    rw [bind_of_ok (hx c)]
    exact (hf _).cut ha hs hc hN hn ⟨hp, hR c⟩ hend hr herrors

/-- Both inputs show the same next token, and the steps may use what it is. -/
theorem peek_bind {f h : Token → Parser β}
    (hf : ∀ t, Continues late (fun t' => P t' ∧ t' = t) N n k (f t) (h t)) :
    Continues late P N n k (peek >>= f) (peek >>= h) :=
  read_bind (v := next) (R := fun t t' => t' = t) (fun _ => rfl) (fun _ _ ha hc => ha.next_eq hc)
    (fun _ => rfl) hf

/-- Both inputs show the same token behind. -/
theorem previous_bind {f h : Token → Parser β} (hf : ∀ t, Continues late P N n k (f t) (h t)) :
    Continues late P N n k (previous >>= f) (previous >>= h) :=
  read_bind (v := State.previous) (R := fun _ _ => True) (fun _ => rfl)
    (fun _ _ ha _ => ha.previous) (fun _ => trivial) fun t =>
      (hf t).mono id (fun _ => And.left) (Nat.le_refl N) (Nat.le_refl n) (Nat.le_refl k)

/-- Both inputs give a check the same answer, and the steps may use it. -/
theorem check_bind {f h : Bool → Parser β} (kind : Token.Kind)
    (htrue : Continues late (fun t => P t ∧ t.kind = kind) N n k (f true) (h true))
    (hfalse : Continues late (fun t => P t ∧ t.kind ≠ kind) N n k (f false) (h false)) :
    Continues late P N n k (check kind >>= f) (check kind >>= h) := by
  refine read_bind (v := fun s => decide (s.next.kind = kind))
    (R := fun b t => b = decide (t.kind = kind)) (fun _ => rfl)
    (fun _ _ ha hc => by rw [ha.next_eq hc]) (fun _ => rfl) fun b => ?_
  cases b with
  | true =>
    refine htrue.mono id (fun t ht => ⟨ht.1, ?_⟩) (Nat.le_refl N) (Nat.le_refl n) (Nat.le_refl k)
    simpa using ht.2.symm
  | false =>
    refine hfalse.mono id (fun t ht => ⟨ht.1, ?_⟩) (Nat.le_refl N) (Nat.le_refl n) (Nat.le_refl k)
    simpa using ht.2.symm

/-- The numbers of tokens left differ, and the one of the cut input is not greater. -/
theorem remaining_bind {f h : Nat → Parser β} (hbound : n ≤ N)
    (hf : ∀ r r', r' ≤ r → r ≤ N → r' ≤ n → Continues late P r r' k (f r) (h r')) :
    Continues late P N n k (remaining >>= f) (remaining >>= h) where
  full :=
    -- One input alone runs as if the other were empty.
    { ok := fun {s} _ _ he hl hp hr =>
        (hf s.rest.length 0 (Nat.zero_le _) hl (Nat.zero_le _)).full.ok he (Nat.le_refl _) hp hr
      error := fun {s} _ _ he hl hp hr =>
        (hf s.rest.length 0 (Nat.zero_le _) hl (Nat.zero_le _)).full.error he (Nat.le_refl _) hp
          hr }
  part :=
    { ok := fun {s} _ _ he hl hp hr =>
        (hf _ s.rest.length (Nat.le_refl _) (Nat.le_trans hl hbound) hl).part.ok he (Nat.le_refl _)
          hp hr
      error := fun {s} _ _ he hl hp hr =>
        (hf _ s.rest.length (Nat.le_refl _) (Nat.le_trans hl hbound) hl).part.error he
          (Nat.le_refl _) hp hr }
  ends s he hl hs hp :=
    (hf _ s.rest.length (Nat.le_refl _) (Nat.le_trans hl hbound) hl).ends s he (Nat.le_refl _) hs hp
  cut {s c _ _} ha hs hc hN hn hp hend hr herrors :=
    (hf s.rest.length c.rest.length ha.length_le hN hn).cut ha hs hc (Nat.le_refl _)
      (Nat.le_refl _) hp hend hr herrors

/-- A check alone goes alike. -/
theorem check (kind : Token.Kind) : Continues late P N n 0 (check kind) (check kind) :=
  check_bind kind (pure true) (pure false)

/-- New numbers for nodes go alike. -/
theorem fresh : Continues late P N n 0 fresh fresh where
  full := .fresh
  part := .fresh
  ends s _ _ _ _ := ⟨rfl, .inl rfl⟩
  cut := by
    rintro s c _ _ ha - - - - - - ⟨⟩ -
    exact .inl ⟨_, congrArg (EStateM.Result.ok · _) ha.nextId,
      ⟨ha.common, ha.previous, congrArg (· + 1) ha.nextId, ha.full, ha.part⟩⟩

/-- A token that is not the mark of the end is taken from both inputs. -/
theorem advance (hP : ∀ t, P t → t.kind ≠ .eof) :
    Continues late P N n 1 Parse.advance Parse.advance where
  full := .advance hP
  part := .advance hP
  ends s _ _ hs hp := absurd hs (hP _ hp)
  cut := by
    intro s c s' a ha _ _ _ _ _ hend h _
    obtain ⟨t, s₁, c₁, -, hs, hc, ha'⟩ := ha.advance hend
    rw [hs] at h
    cases h
    exact .inl ⟨c₁, hc, ha'⟩

/-- At its end the cut input does not move. -/
theorem advance_any : Continues late P N n 0 Parse.advance Parse.advance where
  full := .advance_any
  part := .advance_any
  ends s _ _ hs _ := by
    rw [advance_atEnd hs]
    exact ⟨rfl, .inl rfl⟩
  cut ha hs hc hN hn _ hend :=
    (advance (P := fun t => t.kind ≠ .eof) fun _ => id).cut ha hs hc hN hn hend hend

/-- Where the full input fails at the next token, so does the cut one. -/
theorem fail (token : Token) (what : Expected) (hP : ∀ t, P t → t = token) :
    Continues late P N n k (Parse.fail token what : Parser α) (Parse.fail token what) where
  full := .fail token what
  part := .fail token what
  ends s _ _ hs hp := by
    have hkind : token.kind = .eof := hP _ hp ▸ hs
    rw [fail_apply]
    exact ⟨rfl, _, List.mem_cons_self, by simpa [Error.atEnd] using hkind⟩
  cut _ _ _ _ _ _ _ h _ := by
    rw [fail_apply] at h
    cases h

/-- A token of a kind is taken from both inputs, or missed at the end of the cut one. -/
theorem expect {kind : Token.Kind} (hkind : kind ≠ .eof) (what : Expected) :
    Continues late P N n 1 (expect kind what) (expect kind what) :=
  check_bind kind (advance fun _ ht => ht.2 ▸ hkind)
    (peek_bind fun t => fail t what fun _ ht => ht.2)

/-- A complaint, which the cut input may make even if the full one does not. -/
theorem complain (token : Token) (complaint : Complaint) :
    Continues True P N n 0 (Parse.complain token complaint) (Parse.complain token complaint) where
  full := .complain token complaint
  part := .complain token complaint
  ends s _ _ _ _ := ⟨rfl, .inr trivial⟩
  cut := by
    rintro s c _ _ - - - - - - - ⟨⟩ h
    cases h

/-- One of two steps, whichever it is on both inputs. -/
theorem ite {c : Prop} [Decidable c] {x' y' : Parser α} (hx : Continues late P N n k x y)
    (hx' : Continues late P N n k x' y') :
    Continues late P N n k (if c then x else x') (if c then y else y') := by
  split
  · exact hx
  · exact hx'

/-- A token of one of some kinds is taken, or none. -/
theorem accept?_bind {kinds : List Token.Kind} {f h : Option Token → Parser β}
    (hkinds : .eof ∉ kinds) (hk : k ≤ 1)
    (hsome : ∀ t, Continues late (fun _ => True) (N - 1) (n - 1) 0 (f (some t)) (h (some t)))
    (hnone : Continues late P N n k (f none) (h none)) :
    Continues late P N n k (accept? kinds >>= f) (accept? kinds >>= h) := by
  -- To accept is to look first and then to take or not, which the rules know.
  have hsplit {f : Option Token → Parser β} : (accept? kinds >>= f) = (do
      let next ← peek
      if kinds.contains next.kind then f (some (← Parse.advance)) else f none) := by
    simp only [accept?, bind_assoc]
    congr 1
    funext t
    split <;> simp only [bind_assoc, pure_bind]
  rw [hsplit, hsplit]
  refine peek_bind fun next => ?_
  by_cases ht : kinds.contains next.kind = true
  · rw [if_pos ht, if_pos ht]
    refine Continues.taking (k := 1) (seq (advance ?_) hsome) hk
    rintro _ ⟨-, rfl⟩ heof
    exact hkinds (heof ▸ by simpa using ht)
  · rw [if_neg ht, if_neg ht]
    exact hnone.mono id (fun _ => And.left) (Nat.le_refl N) (Nat.le_refl n) (Nat.le_refl k)

/-- A token of a kind is taken, or none. -/
theorem accept_bind {kind : Token.Kind} {f h : Bool → Parser β} (hkind : kind ≠ .eof)
    (hk : k ≤ 1)
    (htrue : Continues late (fun _ => True) (N - 1) (n - 1) 0 (f true) (h true))
    (hfalse : Continues late P N n k (f false) (h false)) :
    Continues late P N n k (accept kind >>= f) (accept kind >>= h) := by
  have hsplit {f : Bool → Parser β} : (accept kind >>= f) =
      (accept? [kind] >>= fun t => f t.isSome) := by
    simp only [accept, bind_assoc, pure_bind]
  rw [hsplit, hsplit]
  exact accept?_bind (by simpa using hkind.symm) hk (fun _ => htrue) hfalse

/-- A look at the token behind the next one. The inputs can part here if the next token is the last
one in front of the end. -/
theorem peekNext_bind {f h : Token → Parser β} (hf : ∀ t, Continues late P N n k (f t) (h t))
    (hlast : ∀ {s c s' : State} {t u last : Token} {b : β}, Aligned s c → s.Ended →
      s.rest.length ≤ N → c.rest.length ≤ n → c.Single t last → P t → f u s = .ok b s' →
      s'.errors = [] → (∃ c', h last c = .ok b c' ∧ Aligned s' c') ∨ Settles late (h last c)) :
    Continues late P N n k (peekNext >>= f) (peekNext >>= h) := by
  have hpeek (s : State) : peekNext s = .ok (s.rest.tail.headD s.next) s := by
    obtain ⟨_ | ⟨t, _ | ⟨u, rest⟩⟩, previous, errors, nextId⟩ := s <;> rfl
  refine ⟨.read_bind (R := fun _ _ => True) hpeek (fun _ => trivial) fun t => ?_,
    .read_bind (R := fun _ _ => True) hpeek (fun _ => trivial) fun t => ?_, ?_, ?_⟩
  · exact (hf t).full.mono (fun _ => And.left) (Nat.le_refl N) (Nat.le_refl k)
  · exact (hf t).part.mono (fun _ => And.left) (Nat.le_refl n) (Nat.le_refl k)
  · intro s he hl hs hp
    rw [bind_of_ok (hpeek s)]
    exact (hf _).ends s he hl hs hp
  · intro s c s' b ha hs hc hN hn hp hend hr herrors
    rw [bind_of_ok (hpeek s)] at hr
    rw [bind_of_ok (hpeek c)]
    obtain ⟨pre, more, last, -, hkind, hrest, hcut⟩ := ha.common
    match pre with
    | [] => exact absurd (by simpa [AtEnd, next, hcut] using hkind) hend
    -- Where the full input has a further token, the cut one has the mark of its end.
    | [t] =>
      have hlook : c.rest.tail.headD c.next = last := by simp [hcut]
      have hnext : c.next = t := by simp [next, hcut]
      rw [hlook]
      exact hlast ha hs hN hn ⟨hcut, hkind, hnext ▸ hend, ha.part⟩ (hnext ▸ hp) hr herrors
    | t :: u :: pre =>
      have hlook : c.rest.tail.headD c.next = s.rest.tail.headD s.next := by simp [hcut, hrest]
      rw [hlook]
      exact (hf _).cut ha hs hc hN hn hp hend hr herrors

/-! ### Loops -/

/-- A step that is repeated up to a number of times, which is enough for either input, and that
takes a token before it is repeated. -/
theorem loop {ι : Type} {M m : Nat} {x y : Nat → ι → Parser α}
    (step : ∀ {fuel fuel' N n : Nat}, n ≤ N → N ≤ M → n ≤ m →
      (∀ i, Continues late (fun _ => True) (N - 1) (n - 1) k (x fuel i) (y fuel' i)) →
      ∀ i, Continues late (fun _ => True) N n k (x (fuel + 1) i) (y (fuel' + 1) i))
    {fuel fuel' N n : Nat} (hbound : n ≤ N) (hM : N ≤ M) (hm : n ≤ m) (hN : N ≤ fuel)
    (hn : n ≤ fuel') (i : ι) :
    Continues late (fun _ => True) N n k (x fuel i) (y fuel' i) := by
  induction fuel generalizing fuel' N n i with
  | zero =>
    obtain rfl : N = 0 := by omega
    obtain rfl : n = 0 := by omega
    exact zero
  | succ fuel ih =>
    cases fuel' with
    | zero =>
      obtain rfl : n = 0 := by omega
      -- The cut input has no room for its mark, so any bound on the repetitions serves.
      have hnext : ∀ i, Continues late (fun _ => True) (N - 1) (0 - 1) k (x fuel i) (y 0 i) :=
        ih (by omega) (by omega) (by omega) (by omega) (by omega)
      exact of_full (step hbound hM hm hnext i).full
    | succ fuel' =>
      exact step hbound hM hm
        (fun i => ih (by omega) (by omega) (by omega) (by omega) (by omega) i) i

/-- What a step that takes a token says at the end does not matter. -/
theorem doomed (hx : Continues True P N n k x y) (hk : 0 < k)
    (herrors : ∀ s s' a, x s = .ok a s' → s'.errors ≠ []) : Continues late P N n k x y where
  full := hx.full
  part := hx.part
  ends s he hl hs hp := by
    have hends := hx.ends s he hl hs hp
    cases hr : y s with
    | ok a s' =>
      rw [hr] at hends
      have htook := (hx.part.ok he hl hp hr).count
      -- At the end there is no token to take.
      rw [hends.1] at htook
      omega
    | error e s' =>
      rw [hr] at hends
      exact hends
  cut _ _ _ _ _ _ _ h hnone := absurd hnone (herrors _ _ _ h)

end Continues

end

end ClassScript.Parse
