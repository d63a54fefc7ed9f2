import Mathlib.Data.List.Forall2
import ClassScript.Proofs.Parse.Spelling
import ClassScript.Proofs.Token.Lexemes

/-!
# Steps that read

A step that ends without a complaint has taken tokens from the front of the input, and what it
promises is about these tokens: `Reads` has one rule for every way of building a parser. `Written`
compares the tokens that were taken with those that a tree spells, up to the semicolons that may be
left out.
-/

namespace ClassScript

/-! ### Texts -/

/-- What a token says: its kind and its lexeme. -/
def Token.view (t : Token) : Token.Kind × String := (t.kind, t.lexeme)

/-- A token of a source and the token of a tree that is written for it: the tree keeps the token, or
the token has the only lexeme of its kind. -/
def Token.Kept (t u : Token) : Prop := u = t ∨ (t.kind.varies = false ∧ u = .mark t.kind)

/-- Tokens are those of a text in which a semicolon may stand wherever a statement or a method ends.
Without semicolons they are the tokens of the text, and with them they leave out nothing but
semicolons. -/
structure Written (taken : List Token) (text : Endings → List Token) : Prop where
  /-- Without semicolons, the tokens are those of the text without endings. -/
  bare : (taken.filter (·.kind ≠ .semicolon)).map Token.view = (text .omitted).map Token.view
  /-- Every semicolon is an ending. -/
  ended : (taken.map Token.view).Sublist ((text .full).map Token.view)
  /-- What the text keeps are the very tokens, with their places. -/
  kept : List.Forall₂ Token.Kept (taken.filter (·.kind ≠ .semicolon)) (text .omitted)

namespace Written

variable {t : Token} {taken taken₁ taken₂ : List Token} {text text₁ text₂ : Endings → List Token}

/-- No tokens are those of an empty text. -/
theorem nil : Written [] fun _ => [] := ⟨rfl, .slnil, .nil⟩

/-- Two texts in a row are written by their tokens in a row. -/
theorem append (h₁ : Written taken₁ text₁) (h₂ : Written taken₂ text₂) :
    Written (taken₁ ++ taken₂) fun ending => text₁ ending ++ text₂ ending where
  bare := by rw [List.filter_append, List.map_append, List.map_append, h₁.bare, h₂.bare]
  ended := by
    rw [List.map_append, List.map_append]
    exact h₁.ended.append h₂.ended
  kept := by
    rw [List.filter_append]
    exact List.rel_append h₁.kept h₂.kept

/-- A token that the tree keeps. -/
theorem token (h : t.kind ≠ .semicolon) : Written [t] fun _ => [t] where
  bare := by simp [h]
  ended := .refl _
  kept := by simp [h, Token.Kept]

/-- A token that the tree does not keep, of a kind with only one lexeme. -/
theorem mark {kind : Token.Kind} (ht : t.Regular) (h : t.kind = kind)
    (hvaries : kind.varies = false) (hne : kind ≠ .semicolon) :
    Written [t] fun _ => [.mark kind] := by
  have hview : t.view = (Token.mark kind).view := by
    rw [Token.view, ht.lexeme (h ▸ hvaries), h]
    rfl
  have hkept := token (t := t) (h ▸ hne)
  exact ⟨by rw [hkept.bare, List.map_singleton, hview, List.map_singleton],
    by rw [List.map_singleton, hview]; exact .refl _, by simp [h, hne, hvaries, Token.Kept]⟩

/-- A semicolon behind a statement or method. -/
theorem semicolon (ht : t.Regular) (h : t.kind = .semicolon) (hbare : text .omitted = [])
    (hfull : text .full = [.mark .semicolon]) : Written [t] text := by
  have hview : t.view = (Token.mark .semicolon).view := by
    rw [Token.view, ht.lexeme (h ▸ rfl), h]
    rfl
  exact ⟨by simp [h, hbare], by rw [hfull, List.map_singleton, hview]; exact .refl _,
    by simp [h, hbare]⟩

/-- A statement or method without a semicolon. -/
theorem omitted (hbare : text .omitted = []) : Written [] text :=
  ⟨by rw [hbare]; rfl, List.nil_sublist _, by rw [hbare]; exact .nil⟩

/-- The same text may be said in another way. -/
theorem congr (h : Written taken text) (htext : ∀ ending, text ending = text₁ ending) :
    Written taken text₁ := by
  rwa [← funext htext]

/-- A text that is not empty has tokens. -/
theorem ne_nil (h : Written taken text) (hne : text .omitted ≠ []) : taken ≠ [] := by
  rintro rfl
  exact hne (List.map_eq_nil_iff.1 h.bare.symm)

end Written

namespace Parse

/-! ### Steps that read -/

/-- Tokens as a source has them: regular ones, with the mark of the end behind them. -/
structure Proper (ts : List Token) : Prop where
  /-- Every token is regular. -/
  regular : ∀ t ∈ ts, t.Regular
  /-- The last token marks the end. -/
  ends : ∃ last, ts.getLast? = some last ∧ last.kind = .eof

/-- The tokens of a source end with a mark, so there is at least one. -/
theorem Proper.ne_nil {ts : List Token} (h : Proper ts) : ts ≠ [] := by
  rintro rfl
  obtain ⟨_, hlast, -⟩ := h.ends
  cases hlast

/-- Behind a token that does not mark the end there are further ones. -/
theorem Proper.tail {t : Token} {rest : List Token} (h : Proper (t :: rest)) (ht : t.kind ≠ .eof) :
    Proper rest := by
  refine ⟨fun u hu => h.regular u (List.mem_cons_of_mem _ hu), ?_⟩
  obtain ⟨last, hlast, heof⟩ := h.ends
  cases rest with
  | nil =>
    cases hlast
    exact absurd heof ht
  | cons u rest => exact ⟨last, by rwa [List.getLast?_cons_cons] at hlast, heof⟩

/-- A step in front of given tokens. Unless there was a complaint before, a precondition holds. If
the step ends with a result, it has taken some of the tokens, and unless there was a complaint, a
postcondition holds of the tokens taken and the result. The step does not give up without a
complaint. -/
structure Reads {α : Type} (C : Prop) (ts : List Token) (x : Parser α)
    (Q : List Token → α → Prop) : Prop where
  /-- The step ends with a result. -/
  ok : ∀ {s s' : State} {a : α}, s.rest = ts → Proper ts → (s.errors = [] → C) →
    x s = .ok a s' → (s'.errors = [] → s.errors = []) ∧ Proper s'.rest ∧
      ∃ taken, ts = taken ++ s'.rest ∧ (s'.errors = [] → Q taken a)
  /-- The step gives up. -/
  error : ∀ {s s' : State} {e : Stop}, s.rest = ts → Proper ts → (s.errors = [] → C) →
    x s = .error e s' → s'.errors ≠ [] ∧ Proper s'.rest ∧ s'.rest <:+ ts

/-- The token behind the next one; behind the last one there is no other. -/
def behind : List Token → Token
  | _ :: next :: _ => next
  | [last] => last
  | [] => .absent

/-- Looking at the token behind the next one changes nothing. -/
theorem peekNext_apply (s : State) : peekNext s = .ok (behind s.rest) s := by
  obtain ⟨rest, previous, errors, nextId⟩ := s
  rcases rest with _ | ⟨t, _ | ⟨u, rest⟩⟩ <;> rfl

namespace Reads

variable {α β : Type} {C : Prop} {ts rest : List Token} {t : Token}
  {Q : List Token → α → Prop} {R : List Token → β → Prop}

/-- A value is read from no tokens. -/
theorem pure {a : α} (h : C → Q [] a) : Reads C ts (Pure.pure a) Q where
  ok := by
    rintro s _ _ rfl hp hC ⟨⟩
    exact ⟨id, hp, [], rfl, fun he => h (hC he)⟩
  error := by
    rintro s _ _ rfl - hC ⟨⟩

/-- Steps in a row: what holds behind the first holds in front of the second. -/
theorem bind {x : Parser α} {f : α → Parser β} (hx : Reads C ts x Q)
    (hf : ∀ taken rest a, ts = taken ++ rest →
      Reads (Q taken a) rest (f a) fun taken' b => R (taken ++ taken') b) :
    Reads C ts (x >>= f) R where
  ok := by
    intro s s' b hs hp hC h
    simp only [Bind.bind, EStateM.bind] at h
    split at h
    · -- What the two steps took is the tokens of the whole, one after the other.
      next a s₁ h₁ =>
      obtain ⟨hback₁, hp₁, taken, hts, hq⟩ := hx.ok hs hp hC h₁
      obtain ⟨hback, hp', taken', hrest, hr⟩ := (hf taken s₁.rest a hts).ok rfl hp₁ hq h
      exact ⟨fun he => hback₁ (hback he), hp', taken ++ taken',
        by rw [hts, hrest, List.append_assoc], hr⟩
    · cases h
  error := by
    intro s s' e hs hp hC h
    simp only [Bind.bind, EStateM.bind] at h
    split at h
    · next a s₁ h₁ =>
      obtain ⟨-, hp₁, taken, hts, hq⟩ := hx.ok hs hp hC h₁
      obtain ⟨hne, hp', hsuffix⟩ := (hf taken s₁.rest a hts).error rfl hp₁ hq h
      exact ⟨hne, hp', hsuffix.trans ⟨taken, hts.symm⟩⟩
    · next h₁ =>
      cases h
      exact hx.error hs hp hC h₁

/-- A result that is known in front of the next step. -/
theorem known {a : α} {f : α → Parser β} (h : Reads C ts (f a) R) :
    Reads C ts (Pure.pure a >>= f) R := ⟨h.ok, h.error⟩

/-- A precondition still holds behind a step, next to what the step promises. -/
theorem frame {x : Parser α} {D : Prop} {P : List Token → α → Prop} (hx : Reads D ts x Q)
    (hD : C → D) (h : ∀ taken a, C → Q taken a → P taken a) : Reads C ts x P where
  ok := by
    intro s s' a hs hp hC hrun
    obtain ⟨hback, hp', taken, hts, hq⟩ := hx.ok hs hp (fun he => hD (hC he)) hrun
    exact ⟨hback, hp', taken, hts, fun he => h taken a (hC (hback he)) (hq he)⟩
  error hs hp hC hrun := hx.error hs hp (fun he => hD (hC he)) hrun

/-- More may be asked for in front of a step. -/
theorem weaken {x : Parser α} {D : Prop} (hx : Reads D ts x Q) (hD : C → D) : Reads C ts x Q :=
  hx.frame hD fun _ _ _ hq => hq

/-- A step promises whatever follows from its promise. -/
theorem mono {x : Parser α} {P : List Token → α → Prop} (hx : Reads C ts x Q)
    (h : ∀ taken a, Q taken a → P taken a) : Reads C ts x P :=
  hx.frame id fun taken a _ hq => h taken a hq

/-- What is made of a result keeps what follows from the promise. -/
theorem map {x : Parser α} {f : α → β} (hx : Reads C ts x Q)
    (h : ∀ taken a, Q taken a → R taken (f a)) : Reads C ts (f <$> x) R :=
  hx.bind fun taken _ a _ => .pure fun hq => by
    rw [List.append_nil]
    exact h taken a hq

/-- What is known of the tokens may be used. -/
theorem proper {x : Parser α} (h : Proper ts → Reads C ts x Q) : Reads C ts x Q :=
  ⟨fun hs hp => (h hp).ok hs hp, fun hs hp => (h hp).error hs hp⟩

/-! ### Tokens -/

/-- A step that only looks. -/
theorem looking {x : Parser α} {f : α → Parser β} (P : α → Prop)
    (hx : ∀ s : State, s.rest = ts → ∃ a s', x s = .ok a s' ∧ s'.rest = s.rest ∧
      s'.errors = s.errors ∧ P a)
    (h : ∀ a, P a → Reads C ts (f a) R) : Reads C ts (x >>= f) R where
  ok := by
    intro s s' b hs hr hC hrun
    obtain ⟨a, s₁, hx, hrest, herrors, ha⟩ := hx s hs
    simp only [Bind.bind, EStateM.bind, hx] at hrun
    rw [← herrors]
    exact (h a ha).ok (hrest.trans hs) hr (herrors ▸ hC) hrun
  error := by
    intro s s' e hs hr hC hrun
    obtain ⟨a, s₁, hx, hrest, herrors, ha⟩ := hx s hs
    simp only [Bind.bind, EStateM.bind, hx] at hrun
    exact (h a ha).error (hrest.trans hs) hr (herrors ▸ hC) hrun

/-- A step that takes the next token. -/
theorem taking {x : Parser α} {a : α} {f : α → Parser β} (ht : t.kind ≠ .eof)
    (hx : ∀ s : State, s.rest = t :: rest → x s = .ok a { s with rest, previous := t })
    (h : Reads C rest (f a) fun taken b => R (t :: taken) b) :
    Reads C (t :: rest) (x >>= f) R where
  ok := by
    intro s s' b hs hp hC hrun
    simp only [Bind.bind, EStateM.bind, hx s hs] at hrun
    obtain ⟨hback, hp', taken, hrest, hq⟩ :=
      h.ok (s := { s with rest, previous := t }) rfl (hp.tail ht) hC hrun
    exact ⟨hback, hp', t :: taken, by rw [hrest]; rfl, hq⟩
  error := by
    intro s s' e hs hp hC hrun
    simp only [Bind.bind, EStateM.bind, hx s hs] at hrun
    obtain ⟨hne, hp', hsuffix⟩ :=
      h.error (s := { s with rest, previous := t }) rfl (hp.tail ht) hC hrun
    exact ⟨hne, hp', hsuffix.trans (List.suffix_cons t rest)⟩

/-- A node may get any new number. -/
theorem fresh {f : NodeId → Parser α} (h : ∀ id, Reads C ts (f id) Q) :
    Reads C ts (Parse.fresh >>= f) Q :=
  looking (fun _ => True) (fun _ _ => ⟨_, _, rfl, rfl, rfl, trivial⟩) fun id _ => h id

/-- Counting the tokens that are left takes none. -/
theorem remaining {f : Nat → Parser α} (h : Reads C ts (f ts.length) Q) :
    Reads C ts (Parse.remaining >>= f) Q :=
  looking (· = ts.length) (fun s hs => ⟨_, s, rfl, rfl, rfl, hs ▸ rfl⟩) fun _ hn => hn ▸ h

/-- Looking at the token behind takes none. -/
theorem previous {f : Token → Parser α} (h : ∀ t, Reads C ts (f t) Q) :
    Reads C ts (Parse.previous >>= f) Q :=
  looking (fun _ => True) (fun s _ => ⟨_, s, rfl, rfl, rfl, trivial⟩) fun t _ => h t

/-- Looking at the next token takes none. -/
theorem peek {f : Token → Parser α} (h : Reads C ts (f (ts.headD .absent)) Q) :
    Reads C ts (Parse.peek >>= f) Q :=
  looking (· = ts.headD .absent) (fun s hs => ⟨_, s, rfl, rfl, rfl, hs ▸ rfl⟩) fun _ ht => ht ▸ h

/-- A check takes none. -/
theorem check {kind : Token.Kind} {f : Bool → Parser α}
    (h : Reads C ts (f (decide ((ts.headD .absent).kind = kind))) Q) :
    Reads C ts (Parse.check kind >>= f) Q :=
  looking (· = decide ((ts.headD .absent).kind = kind))
    (fun s hs => ⟨_, s, rfl, rfl, rfl, hs ▸ rfl⟩) fun _ hb => hb ▸ h

/-- The question for the end takes none. -/
theorem atEnd {f : Bool → Parser α}
    (h : Reads C ts (f (decide ((ts.headD .absent).kind = .eof))) Q) :
    Reads C ts (Parse.atEnd >>= f) Q := check h

/-- Looking at the token behind the next one takes none. -/
theorem peekNext {f : Token → Parser α} (h : Reads C ts (f (behind ts)) Q) :
    Reads C ts (Parse.peekNext >>= f) Q :=
  looking (· = behind ts) (fun s hs => ⟨_, s, peekNext_apply s, rfl, rfl, by rw [hs]⟩)
    fun _ hu => hu ▸ h

/-- A next token that does not mark the end is there. -/
theorem exists_cons_of_head {kind : Token.Kind} (h : (ts.headD .absent).kind = kind)
    (hkind : kind ≠ .eof) : ∃ t rest, ts = t :: rest := by
  cases ts with
  | nil => exact absurd h.symm hkind
  | cons t rest => exact ⟨t, rest, rfl⟩

/-- A token is taken and put in front of those that the rest takes. -/
theorem advance {f : Token → Parser α} (ht : t.kind ≠ .eof)
    (h : Reads C rest (f t) fun taken a => Q (t :: taken) a) :
    Reads C (t :: rest) (Parse.advance >>= f) Q := by
  refine taking ht (fun s hs => ?_) h
  exact advance_cons hs ht

/-- The mark of the end is not taken. -/
theorem advanceUnlessEnd {f : Token → Parser α} (hend : ∀ t, Reads C ts (f t) Q)
    (htaken : ∀ t rest, ts = t :: rest → Reads C rest (f t) fun taken a => Q (t :: taken) a) :
    Reads C ts (Parse.advance >>= f) Q := by
  refine .proper fun hp => ?_
  obtain ⟨t, rest, rfl⟩ := List.exists_cons_of_ne_nil hp.ne_nil
  by_cases ht : t.kind = .eof
  · refine looking (fun _ => True) (fun s hs => ⟨s.previous, s, ?_, rfl, rfl, trivial⟩)
      fun t _ => hend t
    exact advance_eof hs ht
  · exact advance ht (htaken t rest rfl)

/-- The next token is taken because of its kind. -/
theorem advance_of_head {kind : Token.Kind} {f : Token → Parser α}
    (hhead : (ts.headD .absent).kind = kind) (hkind : kind ≠ .eof) (hne : kind ≠ .semicolon)
    (h : ∀ t rest, ts = t :: rest → t.kind = kind → (Written [t] fun _ => [t]) →
      Reads C rest (f t) fun taken a => Q (t :: taken) a) :
    Reads C ts (Parse.advance >>= f) Q := by
  obtain ⟨t, rest, rfl⟩ := exists_cons_of_head hhead hkind
  have ht : t.kind = kind := hhead
  exact advance (ht ▸ hkind) (h t rest rfl ht (.token (ht ▸ hne)))

/-- A step that gives up with a complaint. -/
theorem fail (token : Token) (what : Expected) {f : β → Parser α} :
    Reads C ts (Parse.fail token what >>= f) Q where
  ok := by
    rintro s _ _ - - - ⟨⟩
  error := by
    rintro s _ _ rfl hp - ⟨⟩
    exact ⟨List.cons_ne_nil _ _, hp, List.suffix_refl _⟩

/-- A step that gives up promises anything. -/
theorem fail_last (token : Token) (what : Expected) :
    Reads C ts (Parse.fail token what : Parser α) Q where
  ok := by
    rintro s _ _ - - - ⟨⟩
  error := by
    rintro s _ _ rfl hp - ⟨⟩
    exact ⟨List.cons_ne_nil _ _, hp, List.suffix_refl _⟩

/-- A token that is expected is read, or the step gives up. -/
theorem expect {kind : Token.Kind} {what : Expected} {f : Token → Parser α} (hkind : kind ≠ .eof)
    (h : ∀ t rest, ts = t :: rest → t.kind = kind →
      Reads C rest (f t) fun taken a => Q (t :: taken) a) :
    Reads C ts (Parse.expect kind what >>= f) Q := by
  rw [Parse.expect, bind_assoc]
  refine check ?_
  split
  · next hhead =>
    obtain ⟨t, rest, rfl⟩ := exists_cons_of_head (of_decide_eq_true hhead) hkind
    have ht : t.kind = kind := of_decide_eq_true hhead
    exact advance (ht ▸ hkind) (h t rest rfl ht)
  · rw [bind_assoc]
    exact peek (fail _ _)

/-- A token that the tree keeps. -/
theorem expectKept {kind : Token.Kind} {what : Expected} {f : Token → Parser α}
    (hkind : kind ≠ .eof) (hne : kind ≠ .semicolon)
    (h : ∀ t rest, ts = t :: rest → t.kind = kind → (Written [t] fun _ => [t]) →
      Reads C rest (f t) fun taken a => Q (t :: taken) a) :
    Reads C ts (Parse.expect kind what >>= f) Q :=
  expect hkind fun t rest hts ht => h t rest hts ht (.token (ht ▸ hne))

/-- A token of one of the kinds is read, or none is. -/
theorem accept? {kinds : List Token.Kind} {f : Option Token → Parser α}
    (hkinds : .eof ∉ kinds) (hnone : Reads C ts (f none) Q)
    (hsome : ∀ t rest, ts = t :: rest → t.kind ∈ kinds →
      Reads C rest (f (some t)) fun taken a => Q (t :: taken) a) :
    Reads C ts (Parse.accept? kinds >>= f) Q := by
  rw [Parse.accept?, bind_assoc]
  refine peek ?_
  split
  · next hhead =>
    have hmem := List.contains_iff_mem.1 hhead
    obtain ⟨t, rest, rfl⟩ := exists_cons_of_head rfl fun he => hkinds (he ▸ hmem)
    rw [bind_assoc]
    exact advance (fun he => hkinds (he ▸ hmem)) (hsome t rest rfl hmem)
  · exact hnone

/-- A token of the kind is read, or none is. -/
theorem accept {kind : Token.Kind} {f : Bool → Parser α} (hkind : kind ≠ .eof)
    (hfalse : Reads C ts (f false) Q)
    (htrue : ∀ t rest, ts = t :: rest → t.kind = kind →
      Reads C rest (f true) fun taken a => Q (t :: taken) a) :
    Reads C ts (Parse.accept kind >>= f) Q := by
  rw [Parse.accept, bind_assoc]
  exact accept? (fun he => hkind (List.mem_singleton.1 he).symm) hfalse
    fun t rest hts ht => htrue t rest hts (List.mem_singleton.1 ht)

/-- A token that the tree does not keep. -/
theorem expectMark {kind : Token.Kind} {what : Expected} {f : Token → Parser α}
    (hvaries : kind.varies = false) (hne : kind ≠ .semicolon)
    (h : ∀ t rest, ts = t :: rest → (Written [t] fun _ => [.mark kind]) →
      Reads C rest (f t) fun taken a => Q (t :: taken) a) :
    Reads C ts (Parse.expect kind what >>= f) Q := by
  have hkind : kind ≠ .eof := by
    rintro rfl
    cases hvaries
  refine .proper fun hp => expect hkind fun t rest hts ht => h t rest hts ?_
  exact .mark (hp.regular t (hts ▸ List.mem_cons_self)) ht hvaries hne

/-- A token that the tree does not keep and that may be left out. -/
theorem acceptMark {kind : Token.Kind} {f : Bool → Parser α} (hvaries : kind.varies = false)
    (hne : kind ≠ .semicolon) (hfalse : Reads C ts (f false) Q)
    (htrue : ∀ t rest, ts = t :: rest → (Written [t] fun _ => [.mark kind]) →
      Reads C rest (f true) fun taken a => Q (t :: taken) a) :
    Reads C ts (Parse.accept kind >>= f) Q := by
  have hkind : kind ≠ .eof := by
    rintro rfl
    cases hvaries
  refine .proper fun hp => accept hkind hfalse fun t rest hts ht => htrue t rest hts ?_
  exact .mark (hp.regular t (hts ▸ List.mem_cons_self)) ht hvaries hne

/-- The semicolon that may end a statement or method. -/
theorem acceptEnding (text : Endings → List Token) {f : Bool → Parser α}
    (hbare : text .omitted = []) (hfull : text .full = [.mark .semicolon])
    (h : ∀ b taken rest, ts = taken ++ rest → Written taken text →
      Reads C rest (f b) fun taken' a => Q (taken ++ taken') a) :
    Reads C ts (Parse.accept .semicolon >>= f) Q := by
  refine .proper fun hp => accept (by decide) (h false [] ts rfl (.omitted hbare)) ?_
  rintro t rest rfl ht
  exact h true [t] rest rfl (.semicolon (hp.regular t List.mem_cons_self) ht hbare hfull)

/-! ### Complaints -/

/-- Behind a complaint everything may be assumed. -/
theorem complain (token : Token) (complaint : Complaint) {f : Unit → Parser α}
    (h : Reads False ts (f ()) Q) : Reads C ts (Parse.complain token complaint >>= f) Q := by
  let complained (s : State) : State := { s with errors := ⟨token, complaint⟩ :: s.errors }
  refine ⟨fun {s _ _} hs hr _ hrun => ?_, fun {s _ _} hs hr _ hrun => ?_⟩
  · obtain ⟨hback, hp, taken, hts, -⟩ := h.ok (s := complained s) hs hr nofun hrun
    exact ⟨fun he => absurd (hback he) (List.cons_ne_nil _ _), hp, taken, hts,
      fun he => absurd (hback he) (List.cons_ne_nil _ _)⟩
  · exact h.error (s := complained s) hs hr nofun hrun

/-- A complaint that may be made on the way. -/
theorem complainIf (c : Prop) [Decidable c] (token : Token) (complaint : Complaint) {x : Parser α}
    (hx : Reads (C ∧ ¬c) ts x Q) :
    Reads C ts (do
      if c then Parse.complain token complaint
      x) Q := by
  by_cases hc : c
  · simp only [if_pos hc]
    exact complain token complaint (hx.weaken nofun)
  · simp only [if_neg hc]
    exact hx.weaken fun hC => ⟨hC, hc⟩

/-- A complaint for some of the things that came before. -/
theorem complaints {γ : Type} (xs : List γ) (c : γ → Prop) [DecidablePred c] (token : Token)
    (complaint : Complaint) {x : Parser α} (hx : Reads (C ∧ ∀ a ∈ xs, ¬c a) ts x Q) :
    Reads C ts (do
      for a in xs do
        if c a then Parse.complain token complaint
      x) Q := by
  -- On the things that came before; the first that is complained of leaves an error.
  induction xs generalizing C with
  | nil => exact hx.weaken fun hC => ⟨hC, nofun⟩
  | cons a rest ih =>
    have hrest : Reads (C ∧ ¬c a) ts (do
        for a in rest do
          if c a then Parse.complain token complaint
        x) Q :=
      ih (hx.weaken fun h => ⟨h.1.1, List.forall_mem_cons.2 ⟨h.1.2, h.2⟩⟩)
    rw [List.forIn_cons, bind_assoc]
    -- Behind an error nothing is asked of what is read.
    by_cases hc : c a
    · simp only [if_pos hc, bind_assoc]
      exact complain token complaint (hrest.weaken nofun)
    · simp only [if_neg hc]
      exact hrest.weaken fun hC => ⟨hC, hc⟩

end Reads

end Parse

end ClassScript
