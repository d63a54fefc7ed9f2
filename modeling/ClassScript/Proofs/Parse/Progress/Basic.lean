import ClassScript.Proofs.Parse.Reads

/-!
# Where a parse stands

The tokens of a source stand in a row that ends with the mark of the end, and a state of a parse
stands at one of them. `InBounds` says of a step that it asks only for tokens of the row: for the
next one where there is one, and for the previous one where a token was taken. `Runs` has one rule
for every way of building a parser. It joins the bounds with what carries them: a step leaves its
state at a token, which is never one in front of the token that it started at.
-/

namespace ClassScript.Parse

/-! ### Places -/

namespace State

/-- A state stands at a place in a row of tokens: those in front of the place are taken, and the
last of them is the previous one. -/
structure At (ts : List Token) (i : Nat) (s : State) : Prop where
  /-- The tokens from the place on are not taken yet. -/
  rest : s.rest = ts.drop i
  /-- The token in front of the place was taken last. -/
  previous : ∀ j, i = j + 1 → ts[j]? = some s.previous

/-- A state stands at one of the tokens of a row. -/
def Stands (ts : List Token) (s : State) : Prop := ∃ i, i < ts.length ∧ s.At ts i

/-- A state stands at one of the tokens of a row, the last of which marks the end. -/
structure On (ts : List Token) (s : State) : Prop where
  /-- The last token marks the end. -/
  ends : ∃ last, ts.getLast? = some last ∧ last.kind = .eof
  /-- There is a token at the place of the state. -/
  place : s.Stands ts

/-- The number of tokens of a row that are taken. -/
def position (ts : List Token) (s : State) : Nat := ts.length - s.rest.length

variable {ts rest : List Token} {s s' : State} {t : Token}

namespace On

/-- The number of tokens that are taken is the place where a state stands. -/
theorem at_position (h : s.On ts) : s.position ts < ts.length ∧ s.At ts (s.position ts) := by
  obtain ⟨i, hi, hat⟩ := h.place
  have hlength := congrArg List.length hat.rest
  rw [List.length_drop] at hlength
  have hposition : s.position ts = i := by
    unfold position
    omega
  rw [hposition]
  exact ⟨hi, hat⟩

/-- The tokens that are left are the last ones of the row. -/
theorem suffix (h : s.On ts) : s.rest <:+ ts := by
  rw [h.at_position.2.rest]
  exact List.drop_suffix _ _

/-- The mark of the end is never taken. -/
theorem rest_ne_nil (h : s.On ts) : s.rest ≠ [] := by
  rw [h.at_position.2.rest]
  exact List.ne_nil_of_length_pos (by
    rw [List.length_drop]
    have hlt := h.at_position.1
    omega)

/-- A state with the same tokens stands at the same place. -/
theorem congr (h : s.On ts) (hrest : s'.rest = s.rest) (hprevious : s'.previous = s.previous) :
    s'.On ts := by
  obtain ⟨i, hi, hat⟩ := h.place
  exact ⟨h.ends, i, hi, hrest.trans hat.rest, fun j hj => hprevious ▸ hat.previous j hj⟩

/-- Behind a token that does not mark the end there is another one. -/
theorem take (h : s.On ts) (hs : s.rest = t :: rest) (ht : t.kind ≠ .eof) :
    ({ s with rest, previous := t } : State).On ts := by
  obtain ⟨i, hi, hat⟩ := h.place
  have hdrop : ts.drop i = t :: rest := hat.rest.symm.trans hs
  -- Were nothing left, the token would be the last one, which marks the end.
  have hne : rest ≠ [] := by
    rintro rfl
    obtain ⟨last, hlast, heof⟩ := h.ends
    rw [← List.take_append_drop i ts, hdrop, List.getLast?_append_cons] at hlast
    cases hlast
    exact ht heof
  have hrest : rest = ts.drop (i + 1) := by
    rw [← List.drop_drop, hdrop, List.drop_one, List.tail_cons]
  refine ⟨h.ends, i + 1, ?_, hrest, fun j hj => ?_⟩
  · exact Nat.lt_of_not_le fun hle => hne (hrest.trans (List.drop_eq_nil_of_le hle))
  · cases hj
    rw [← Nat.add_zero i, ← List.getElem?_drop, hdrop]
    rfl

end On

end State

/-! ### Bounds -/

/-- From a state, a step asks for tokens of a row only where there are some. Whatever it does, it
does at a token of the row: there it may look at that token, and at the one behind it or else at the
last one of the row. The previous token, which taking a token answers too if the next one marks the
end, is there only behind the first token. -/
inductive InBounds (ts : List Token) : {α : Type} → Parser α → State → Prop where
  | pure {α : Type} (a : α) {s : State} (h : s.Stands ts) : InBounds ts (Pure.pure a) s
  | stop {α : Type} (e : Stop) {s : State} (h : s.Stands ts) : InBounds ts (throw e : Parser α) s
  | complain (token : Token) (complaint : Complaint) {s : State} (h : s.Stands ts) :
      InBounds ts (Parse.complain token complaint) s
  | fresh {s : State} (h : s.Stands ts) : InBounds ts Parse.fresh s
  | remaining {s : State} (h : s.Stands ts) : InBounds ts Parse.remaining s
  | peek {s : State} (h : s.Stands ts) : InBounds ts Parse.peek s
  | peekNext {s : State} (h : s.Stands ts) : InBounds ts Parse.peekNext s
  | previous {s : State} {i : Nat} (hlt : i < ts.length) (hat : s.At ts i) (hi : 0 < i) :
      InBounds ts Parse.previous s
  | advance {s : State} {i : Nat} (hlt : i < ts.length) (hat : s.At ts i)
      (hend : (s.rest.headD .absent).kind = .eof → 0 < i) : InBounds ts Parse.advance s
  | bind {α β : Type} {x : Parser α} {f : α → Parser β} {s : State} (hx : InBounds ts x s)
      (hf : ∀ a s', x s = .ok a s' → InBounds ts (f a) s') : InBounds ts (x >>= f) s

namespace InBounds

variable {α : Type} {ts : List Token} {x : Parser α} {s s' : State} {t : Token}

/-- Behind the last token of a row nothing can be asked for. -/
theorem stands (h : InBounds ts x s) : s.Stands ts := by
  induction h with
  | previous hlt hat _ | advance hlt hat _ => exact ⟨_, hlt, hat⟩
  | bind _ _ ih _ => exact ih
  | _ => assumption

/-- Another token is taken for the one in front of the first one. -/
def Fronted (ts : List Token) (t : Token) (s s' : State) : Prop :=
  s' = s ∨ s.rest = ts ∧ s' = { s with previous := t }

/-- One result, with other tokens in front of the first one. -/
def Alike (ts : List Token) (t : Token) : (r r' : EStateM.Result Stop State α) → Prop
  | .ok a s, .ok a' s' => a' = a ∧ Fronted ts t s s'
  | .error e s, .error e' s' => e' = e ∧ Fronted ts t s s'
  | _, _ => False

/-- The tokens that are left do not depend on the one in front of the first. -/
theorem Fronted.rest (h : Fronted ts t s s') : s'.rest = s.rest := by
  rcases h with rfl | ⟨-, rfl⟩ <;> rfl

/-- Behind the first token nothing is left of what is in front of it. -/
theorem Fronted.eq_of_pos (h : Fronted ts t s s') {i : Nat} (hlt : i < ts.length)
    (hat : s.At ts i) (hi : 0 < i) : s' = s := by
  refine h.resolve_right fun ⟨hrest, _⟩ => ?_
  have hlength := congrArg List.length (hat.rest.symm.trans hrest)
  rw [List.length_drop] at hlength
  omega

/-- Steps in a row, of which the first one ends in one result. -/
theorem Alike.bind {β : Type} {f : α → Parser β} (hx : Alike ts t (x s) (x s'))
    (hf : ∀ a s₁ s₂, x s = .ok a s₁ → Fronted ts t s₁ s₂ → Alike ts t (f a s₁) (f a s₂)) :
    Alike ts t ((x >>= f) s) ((x >>= f) s') := by
  simp only [Bind.bind, EStateM.bind]
  cases h₁ : x s <;> cases h₂ : x s' <;> rw [h₁, h₂] at hx
  case ok.ok a s₁ a' s₂ =>
    obtain ⟨rfl, hs₁⟩ := hx
    exact hf _ s₁ s₂ h₁ hs₁
  case error.error => exact hx
  all_goals exact hx.elim

/-- In front of the first token nothing can be asked for, so it does not matter what is there. -/
theorem front (h : InBounds ts x s) (hs : Fronted ts t s s') : Alike ts t (x s) (x s') := by
  induction h generalizing s' with
  | pure a _ | stop e _ => exact ⟨rfl, hs⟩
  | complain token complaint _ =>
    rcases hs with rfl | ⟨hrest, rfl⟩
    · exact ⟨rfl, .inl rfl⟩
    · exact ⟨rfl, .inr ⟨hrest, rfl⟩⟩
  | fresh _ =>
    rcases hs with rfl | ⟨hrest, rfl⟩
    · exact ⟨rfl, .inl rfl⟩
    · exact ⟨rfl, .inr ⟨hrest, rfl⟩⟩
  | remaining _ | peek _ =>
    have hrest := hs.rest
    exact ⟨by rw [hrest], hs⟩
  | peekNext _ =>
    rw [peekNext_apply, peekNext_apply, hs.rest]
    exact ⟨rfl, hs⟩
  | previous hlt hat hi =>
    rw [hs.eq_of_pos hlt hat hi]
    exact ⟨rfl, .inl rfl⟩
  | @advance s i hlt hat hend =>
    by_cases hhead : (s.rest.headD .absent).kind = .eof
    · -- The mark of the end is not taken, and the previous token is answered.
      rw [hs.eq_of_pos hlt hat (hend hhead)]
      cases hrun : Parse.advance s with
      | ok a s₁ => exact ⟨rfl, .inl rfl⟩
      | error e s₁ => exact ⟨rfl, .inl rfl⟩
    · obtain ⟨u, rest, hrest⟩ : ∃ u rest, s.rest = u :: rest := by
        refine List.exists_cons_of_ne_nil fun hnil => ?_
        rw [hnil] at hhead
        exact hhead rfl
      have hu : u.kind ≠ .eof := by rwa [hrest] at hhead
      rw [advance_cons hrest hu, advance_cons (hs.rest.trans hrest) hu]
      refine ⟨rfl, .inl ?_⟩
      rcases hs with rfl | ⟨-, rfl⟩ <;> rfl
  | bind _ _ ihx ihf => exact (ihx hs).bind fun a s₁ s₂ h₁ hs₁ => ihf a s₁ h₁ hs₁

/-- The previous token is out of bounds in front of the first one. -/
theorem not_previous (hs : s.rest = ts) : ¬InBounds ts Parse.previous s := by
  intro h
  have halike := h.front (t := { s.previous with line := s.previous.line + 1 }) (.inr ⟨hs, rfl⟩)
  have hline := congrArg Token.line halike.1
  exact Nat.succ_ne_self _ hline

end InBounds

/-- A step from given tokens of a row on. It stays within the bounds, leaves its state at a token
that is none in front of them, and what it promises is about the tokens it leaves and its result.
It uses up the bound on nesting only where the given proposition holds. -/
structure Runs {α : Type} (ts : List Token) (deep : Prop) (rest : List Token) (x : Parser α)
    (Q : List Token → α → Prop) : Prop where
  /-- The step asks only for tokens that are there. -/
  bounds : ∀ {s : State}, s.rest = rest → s.On ts → InBounds ts x s
  /-- The step ends with a result. -/
  ok : ∀ {s s' : State} {a : α}, s.rest = rest → s.On ts → x s = .ok a s' →
    s'.On ts ∧ s'.rest.length ≤ rest.length ∧ Q s'.rest a
  /-- The step gives up. -/
  error : ∀ {s s' : State} {e : Stop}, s.rest = rest → s.On ts → x s = .error e s' →
    s'.On ts ∧ s'.rest.length ≤ rest.length ∧ (e = .exhausted → deep)

namespace Runs

variable {α β : Type} {ts rest : List Token} {deep deep' : Prop} {t : Token}
  {P Q : List Token → α → Prop} {R : List Token → β → Prop}

/-- A value needs no tokens. -/
theorem pure {a : α} (h : Q rest a) : Runs ts deep rest (Pure.pure a) Q where
  bounds _ hon := .pure _ hon.place
  ok := by
    rintro s _ _ rfl hs ⟨⟩
    exact ⟨hs, Nat.le_refl _, h⟩
  error := by
    rintro s _ _ - - ⟨⟩

/-- Steps in a row: what holds behind the first holds in front of the second. -/
theorem bind {x : Parser α} {f : α → Parser β} (hx : Runs ts deep rest x P)
    (hf : ∀ rest' a, rest'.length ≤ rest.length → P rest' a → Runs ts deep rest' (f a) R) :
    Runs ts deep rest (x >>= f) R where
  bounds hs hon := .bind (hx.bounds hs hon) fun a s' h => by
    obtain ⟨hon', hle, hp⟩ := hx.ok hs hon h
    exact (hf s'.rest a hle hp).bounds rfl hon'
  ok := by
    intro s s' b hs hon h
    simp only [Bind.bind, EStateM.bind] at h
    -- The bound of the second step is counted from what the first one left.
    split at h
    · next a s₁ h₁ =>
      obtain ⟨hon₁, hle₁, hp⟩ := hx.ok hs hon h₁
      obtain ⟨hon', hle, hr⟩ := (hf s₁.rest a hle₁ hp).ok rfl hon₁ h
      exact ⟨hon', Nat.le_trans hle hle₁, hr⟩
    · cases h
  error := by
    intro s s' e hs hon h
    simp only [Bind.bind, EStateM.bind] at h
    split at h
    · next a s₁ h₁ =>
      obtain ⟨hon₁, hle₁, hp⟩ := hx.ok hs hon h₁
      obtain ⟨hon', hle, hdeep⟩ := (hf s₁.rest a hle₁ hp).error rfl hon₁ h
      exact ⟨hon', Nat.le_trans hle hle₁, hdeep⟩
    · next h₁ =>
      cases h
      exact hx.error hs hon h₁

/-- A result that is known in front of the next step. -/
theorem known {a : α} {f : α → Parser β} (h : Runs ts deep rest (f a) R) :
    Runs ts deep rest (Pure.pure a >>= f) R := by rwa [pure_bind]

/-- A step may use up the bound on nesting more often than it does. -/
theorem weaken {x : Parser α} (hx : Runs ts deep rest x Q) (h : deep → deep') :
    Runs ts deep' rest x Q where
  bounds := hx.bounds
  ok := hx.ok
  error hs hon hrun := by
    obtain ⟨hon', hle, hdeep⟩ := hx.error hs hon hrun
    exact ⟨hon', hle, fun he => h (hdeep he)⟩

/-- A step promises whatever follows from its promise. -/
theorem mono {x : Parser α} (hx : Runs ts deep rest x P)
    (h : ∀ rest' a, rest'.length ≤ rest.length → P rest' a → Q rest' a) :
    Runs ts deep rest x Q where
  bounds := hx.bounds
  ok hs hon hrun := by
    obtain ⟨hon', hle, hp⟩ := hx.ok hs hon hrun
    exact ⟨hon', hle, h _ _ hle hp⟩
  error := hx.error

/-- What is made of a result keeps what follows from the promise. -/
theorem map {x : Parser α} {f : α → β} (hx : Runs ts deep rest x P)
    (h : ∀ rest' a, P rest' a → R rest' (f a)) : Runs ts deep rest (f <$> x) R :=
  bind hx fun rest' a _ hp => pure (h rest' a hp)

/-- What is known of the tokens may be used: there is one, and they are the last ones of the row. -/
theorem on {x : Parser α} (h : rest ≠ [] → rest <:+ ts → Runs ts deep rest x Q) :
    Runs ts deep rest x Q where
  bounds := by
    rintro s rfl hon
    exact (h hon.rest_ne_nil hon.suffix).bounds rfl hon
  ok := by
    rintro s s' a rfl hon
    exact (h hon.rest_ne_nil hon.suffix).ok rfl hon
  error := by
    rintro s s' e rfl hon
    exact (h hon.rest_ne_nil hon.suffix).error rfl hon

/-- The bound on nesting is used up. -/
theorem exhausted (h : deep) : Runs ts deep rest (throw .exhausted : Parser α) Q where
  bounds _ hon := .stop _ hon.place
  ok := by
    rintro s _ _ - - ⟨⟩
  error := by
    rintro s _ _ rfl hon ⟨⟩
    exact ⟨hon, Nat.le_refl _, fun _ => h⟩

/-! ### Tokens -/

/-- A step that only looks. -/
theorem looking {x : Parser α} {f : α → Parser β} (P : α → Prop)
    (hbounds : ∀ s : State, s.rest = rest → s.On ts → InBounds ts x s)
    (hx : ∀ s : State, s.rest = rest → s.On ts → ∃ a s', x s = .ok a s' ∧ s'.rest = s.rest ∧
      s'.previous = s.previous ∧ P a)
    (h : ∀ a, P a → Runs ts deep rest (f a) R) : Runs ts deep rest (x >>= f) R := by
  have hlook : Runs ts deep rest x fun rest' a => rest' = rest ∧ P a := by
    refine ⟨fun hs hon => hbounds _ hs hon, fun {s s₁ _} hs hon hrun => ?_,
      fun {s _ _} hs hon hrun => ?_⟩
    · obtain ⟨a, s', hok, hrest, hprevious, hp⟩ := hx s hs hon
      rw [hok] at hrun
      cases hrun
      exact ⟨hon.congr hrest hprevious, Nat.le_of_eq (by rw [hrest, hs]), hrest.trans hs, hp⟩
    · obtain ⟨a, s', hok, -⟩ := hx s hs hon
      rw [hok] at hrun
      cases hrun
  exact hlook.bind fun rest' a _ hp => hp.1 ▸ h a hp.2

/-- A node may get any new number. -/
theorem fresh {f : NodeId → Parser α} (h : ∀ id, Runs ts deep rest (f id) Q) :
    Runs ts deep rest (Parse.fresh >>= f) Q :=
  looking (fun _ => True) (fun _ _ hon => .fresh hon.place)
    (fun _ _ _ => ⟨_, _, rfl, rfl, rfl, trivial⟩) fun id _ => h id

/-- Counting the tokens that are left takes none. -/
theorem remaining {f : Nat → Parser α} (h : Runs ts deep rest (f rest.length) Q) :
    Runs ts deep rest (Parse.remaining >>= f) Q :=
  looking (· = rest.length) (fun _ _ hon => .remaining hon.place)
    (fun s hs _ => ⟨_, s, rfl, rfl, rfl, hs ▸ rfl⟩) fun _ hn => hn ▸ h

/-- A complaint takes no tokens. -/
theorem complain (token : Token) (complaint : Complaint) {f : Unit → Parser α}
    (h : Runs ts deep rest (f ()) Q) : Runs ts deep rest (Parse.complain token complaint >>= f) Q :=
  looking (fun _ => True) (fun _ _ hon => .complain token complaint hon.place)
    (fun _ _ _ => ⟨_, _, rfl, rfl, rfl, trivial⟩) fun _ _ => h

/-- The next token is there, since the state stands at one. -/
theorem peek {f : Token → Parser α} (h : Runs ts deep rest (f (rest.headD .absent)) Q) :
    Runs ts deep rest (Parse.peek >>= f) Q :=
  looking (· = rest.headD .absent) (fun _ _ hon => .peek hon.place)
    (fun s hs _ => ⟨_, s, rfl, rfl, rfl, hs ▸ rfl⟩) fun _ ht => ht ▸ h

/-- The token behind the next one is there, or else the next one is the last. -/
theorem peekNext {f : Token → Parser α} (h : Runs ts deep rest (f (behind rest)) Q) :
    Runs ts deep rest (Parse.peekNext >>= f) Q :=
  looking (· = behind rest)
    (fun _ _ hon => .peekNext hon.place)
    (fun s hs _ => ⟨_, s, peekNext_apply s, rfl, rfl, by rw [hs]⟩) fun _ ht => ht ▸ h

/-- The previous token stands in front of the next one. -/
theorem previous {f : Token → Parser α} (hlt : rest.length < ts.length)
    (h : ∀ t, t :: rest <:+ ts → Runs ts deep rest (f t) Q) :
    Runs ts deep rest (Parse.previous >>= f) Q := by
  -- In front of the rest is at least one token, so the previous one can be looked at.
  have hpositive : ∀ s : State, s.rest = rest → ∃ j, s.position ts = j + 1 := by
    rintro s rfl
    exact Nat.exists_eq_add_one_of_ne_zero (by unfold State.position; omega)
  refine looking (fun t => t :: rest <:+ ts) (fun s hs hon => ?_) (fun s hs hon => ?_) h
  · obtain ⟨j, hj⟩ := hpositive s hs
    exact .previous hon.at_position.1 hon.at_position.2 (hj ▸ Nat.succ_pos j)
  · obtain ⟨j, hj⟩ := hpositive s hs
    obtain ⟨-, hat⟩ := hon.at_position
    refine ⟨s.previous, s, rfl, rfl, rfl, ts.take j, ?_⟩
    have hdrop : ts.drop j = s.previous :: rest := by
      obtain ⟨hlt', hget⟩ := List.getElem?_eq_some_iff.1 (hat.previous j hj)
      rw [List.drop_eq_getElem_cons hlt', hget, ← hj, ← hat.rest, hs]
    rw [← hdrop, List.take_append_drop]

/-- A check looks at the next token. -/
theorem check {kind : Token.Kind} {f : Bool → Parser α}
    (h : Runs ts deep rest (f (decide ((rest.headD .absent).kind = kind))) Q) :
    Runs ts deep rest (Parse.check kind >>= f) Q := by
  rw [Parse.check, bind_assoc]
  exact peek (known h)

/-- So does the question for the end. -/
theorem atEnd {f : Bool → Parser α}
    (h : Runs ts deep rest (f (decide ((rest.headD .absent).kind = .eof))) Q) :
    Runs ts deep rest (Parse.atEnd >>= f) Q := check h

/-- A token that does not mark the end is taken. -/
theorem advance {f : Token → Parser α} (ht : t.kind ≠ .eof) (h : Runs ts deep rest (f t) Q) :
    Runs ts deep (t :: rest) (Parse.advance >>= f) Q := by
  have htake : Runs ts deep (t :: rest) Parse.advance fun rest' a => rest' = rest ∧ a = t := by
    refine ⟨fun hs hon => ?_, fun hs hon hrun => ?_, fun hs hon hrun => ?_⟩
    · obtain ⟨hlt, hat⟩ := hon.at_position
      refine .advance hlt hat fun hend => ?_
      rw [hs] at hend
      exact absurd hend ht
    · rw [advance_cons hs ht] at hrun
      cases hrun
      exact ⟨hon.take hs ht, Nat.le_succ _, rfl, rfl⟩
    · rw [advance_cons hs ht] at hrun
      cases hrun
  exact htake.bind fun rest' a _ ⟨hrest, ha⟩ => hrest ▸ ha ▸ h

/-- A token is taken because of its kind. -/
theorem advance_of_head {kind : Token.Kind} {f : Token → Parser α}
    (hhead : (rest.headD .absent).kind = kind) (hkind : kind ≠ .eof)
    (h : ∀ t rest', rest = t :: rest' → rest'.length < rest.length → t.kind = kind →
      Runs ts deep rest' (f t) Q) :
    Runs ts deep rest (Parse.advance >>= f) Q := by
  obtain ⟨t, rest', rfl⟩ := Reads.exists_cons_of_head hhead hkind
  have ht : t.kind = kind := hhead
  exact advance (ht ▸ hkind) (h t rest' rfl (Nat.lt_succ_self _) ht)

/-- The mark of the end is not taken, and behind the first token the previous one is there. -/
theorem advanceUnlessEnd {f : Token → Parser α}
    (hend : (rest.headD .absent).kind = .eof → rest.length < ts.length)
    (h : ∀ t rest', rest'.length ≤ rest.length → rest'.length < ts.length →
      ((rest.headD .absent).kind ≠ .eof → rest'.length < rest.length) →
      Runs ts deep rest' (f t) Q) :
    Runs ts deep rest (Parse.advance >>= f) Q := by
  refine .on fun hne hsuffix => ?_
  obtain ⟨t, rest', rfl⟩ := List.exists_cons_of_ne_nil hne
  -- At the mark of the end nothing is taken, and anywhere else the row gets shorter.
  by_cases ht : t.kind = .eof
  · refine looking (fun _ => True) (fun s hs hon => ?_) (fun s hs _ => ?_) fun t' _ => ?_
    · obtain ⟨hlt, hat⟩ := hon.at_position
      have hbehind := hend ht
      exact .advance hlt hat fun _ => by unfold State.position; rw [hs]; omega
    · exact ⟨s.previous, s, advance_eof hs ht, rfl, rfl, trivial⟩
    · exact h t' _ (Nat.le_refl _) (hend ht) fun hne => absurd ht hne
  · have hlt := hsuffix.length_le
    rw [List.length_cons] at hlt
    exact advance ht (h t rest' (Nat.le_succ _) hlt fun _ => Nat.lt_succ_self _)

/-- A step that gives up with a complaint. -/
theorem fail (token : Token) (what : Expected) :
    Runs ts deep rest (Parse.fail token what : Parser α) Q := by
  refine complain token (.expected what) ⟨fun _ hon => .stop _ hon.place, ?_, ?_⟩
  · rintro s _ _ - - ⟨⟩
  · rintro s _ _ rfl hon ⟨⟩
    exact ⟨hon, Nat.le_refl _, fun he => by cases he⟩

/-- Nothing follows a step that gives up. -/
theorem fail_bind (token : Token) (what : Expected) {f : α → Parser β} :
    Runs ts deep rest (Parse.fail token what >>= f) R :=
  bind (fail token what (Q := fun _ _ => False)) fun _ _ _ hnever => hnever.elim

/-- A token that is expected is taken, and fewer are left. -/
theorem expect {kind : Token.Kind} {what : Expected} {f : Token → Parser α} (hkind : kind ≠ .eof)
    (h : ∀ t rest', rest = t :: rest' → rest'.length < rest.length → t.kind = kind →
      Runs ts deep rest' (f t) Q) :
    Runs ts deep rest (Parse.expect kind what >>= f) Q := by
  rw [Parse.expect, bind_assoc]
  refine check ?_
  split
  · next hhead => exact advance_of_head (of_decide_eq_true hhead) hkind h
  · rw [bind_assoc]
    exact peek (fail_bind _ _)

/-- A token of one of the kinds is taken, or none is. -/
theorem accept? {kinds : List Token.Kind} {f : Option Token → Parser α} (hkinds : .eof ∉ kinds)
    (hnone : (rest.headD .absent).kind ∉ kinds → Runs ts deep rest (f none) Q)
    (hsome : ∀ t rest', rest = t :: rest' → rest'.length < rest.length → t.kind ∈ kinds →
      Runs ts deep rest' (f (some t)) Q) :
    Runs ts deep rest (Parse.accept? kinds >>= f) Q := by
  rw [Parse.accept?, bind_assoc]
  refine peek ?_
  split
  · next hhead =>
    have hmem := List.contains_iff_mem.1 hhead
    rw [bind_assoc]
    refine advance_of_head rfl (fun he => hkinds (he ▸ hmem)) fun t rest' hrest hlt ht => ?_
    exact known (hsome t rest' hrest hlt (ht ▸ hmem))
  · next hhead => exact known (hnone fun hmem => hhead (List.contains_iff_mem.2 hmem))

/-- A token of the kind is taken, or none is. -/
theorem accept {kind : Token.Kind} {f : Bool → Parser α} (hkind : kind ≠ .eof)
    (hfalse : (rest.headD .absent).kind ≠ kind → Runs ts deep rest (f false) Q)
    (htrue : ∀ t rest', rest = t :: rest' → rest'.length < rest.length → t.kind = kind →
      Runs ts deep rest' (f true) Q) :
    Runs ts deep rest (Parse.accept kind >>= f) Q := by
  rw [Parse.accept, bind_assoc]
  refine accept? (fun he => hkind (List.mem_singleton.1 he).symm) (fun hne => ?_)
    fun t rest' hrest hlt ht => known (htrue t rest' hrest hlt (List.mem_singleton.1 ht))
  exact known (hfalse fun he => hne (List.mem_singleton.2 he))

/-! ### Complaints -/

/-- A complaint that may be made on the way. -/
theorem complainIf (c : Prop) [Decidable c] (token : Token) (complaint : Complaint) {x : Parser α}
    (hx : Runs ts deep rest x Q) :
    Runs ts deep rest (do
      if c then Parse.complain token complaint
      x) Q := by
  split
  · exact complain token complaint hx
  · exact hx

/-- A complaint for some of the things that came before. -/
theorem complaints {γ : Type} (xs : List γ) (c : γ → Prop) [DecidablePred c] (token : Token)
    (complaint : Complaint) {x : Parser α} (hx : Runs ts deep rest x Q) :
    Runs ts deep rest (do
      for a in xs do
        if c a then Parse.complain token complaint
      x) Q := by
  induction xs with
  | nil => exact hx
  | cons a more ih =>
    rw [List.forIn_cons, bind_assoc]
    split
    · rw [bind_assoc]
      exact complain token complaint (known ih)
    · exact known ih

end Runs

end ClassScript.Parse
