import ClassScript.Proofs.Token.Lexemes

/-!
# The tokens of a source stand in order

A place is in front of another one if its line is, or its column on the same line. Every glyph
leads to a later place and every token takes a glyph, so the tokens of a source stand one behind
the other.
-/

namespace ClassScript.Token

/-- A place in front of another one. -/
def Position.Before (p q : Position) : Prop :=
  p.line < q.line ∨ (p.line = q.line ∧ p.column < q.column)

/-- Where a token stands. -/
def position (t : Token) : Position := ⟨t.line, t.column⟩

/-- A token stands in front of another one. -/
def Before (t u : Token) : Prop := t.position.Before u.position

namespace Position

variable {p q r : Position}

/-- A place in front of one that is in front of another is in front of that one. -/
theorem Before.trans (h : p.Before q) (h' : q.Before r) : p.Before r := by
  unfold Before at *
  omega

/-- A glyph leads to a later place. -/
theorem before_next (p : Position) (g : Glyph) : p.Before (p.next g) := by
  unfold next
  split
  · exact .inl (Nat.lt_succ_self _)
  · exact .inr ⟨rfl, Nat.lt_succ_self _⟩

/-- A place that is another one, or behind it. -/
def AtOrBehind (q p : Position) : Prop := p = q ∨ p.Before q

/-- What is in front of a place is in front of all that is at the place or behind it. -/
theorem Before.trans_atOrBehind (h : p.Before q) (h' : r.AtOrBehind q) : p.Before r := by
  rcases h' with rfl | h'
  · exact h
  · exact h.trans h'

/-- What is at a place or behind it comes behind all that is in front of the place. -/
theorem AtOrBehind.trans_before (h : q.AtOrBehind p) (h' : q.Before r) : p.Before r := by
  rcases h with rfl | h
  · exact h'
  · exact h.trans h'

/-- What is at or behind the next place is behind this one. -/
theorem AtOrBehind.of_next {g : Glyph} (h : q.AtOrBehind (p.next g)) : q.AtOrBehind p :=
  .inr ((p.before_next g).trans_atOrBehind h)

/-- Glyphs do not lead back. -/
theorem atOrBehind_after (p : Position) (gs : List Glyph) : (p.after gs).AtOrBehind p := by
  induction gs generalizing p with
  | nil => exact .inl rfl
  | cons g rest ih => exact (ih (p.next g)).of_next

/-- Behind at least one glyph is a later place. -/
theorem before_after (p : Position) {gs : List Glyph} (h : gs ≠ []) : p.Before (p.after gs) := by
  obtain ⟨g, rest, rfl⟩ := List.exists_cons_of_ne_nil h
  exact (p.before_next g).trans_atOrBehind (atOrBehind_after _ rest)

end Position

/-- Neither do blanks and comments. -/
theorem atOrBehind_skip (comment : Bool) (p : Position) (src : List Glyph) :
    (skip comment p src).1.AtOrBehind p := by
  -- On the source, in a comment and outside.
  induction src generalizing comment p with
  | nil => cases comment <;> exact .inl rfl
  | cons g rest ih =>
    cases comment with
    | true => exact (ih _ (p.next g)).of_next
    | false =>
      simp only [skip]
      split
      · exact (ih _ (p.next g)).of_next
      · split
        · exact (ih _ (p.next g)).of_next
        · exact .inl rfl

/-- The tokens of what is left of a source stand in order, and none in front of its start. -/
theorem inOrder_scanFrom (p : Position) (src : List Glyph) :
    (∀ t ∈ scanFrom p src, t.position.AtOrBehind p) ∧ (scanFrom p src).Pairwise Before := by
  fun_induction scanFrom p src with
  | case1 p src q h =>
    have hq := atOrBehind_skip false p src
    rw [h] at hq
    exact ⟨List.forall_mem_singleton.2 hq, List.pairwise_singleton _ _⟩
  | case2 p src q g rest h c ih =>
    have hq := atOrBehind_skip false p src
    rw [h] at hq
    -- A cut takes at least one glyph, so the next token stands strictly behind.
    have hlater : ∀ t ∈ scanFrom (q.after c.taken) c.rest, q.Before t.position := fun t ht =>
      (q.before_after (cuts_cut g rest).taken_ne_nil).trans_atOrBehind (ih.1 t ht)
    refine ⟨List.forall_mem_cons.2 ⟨hq, fun t ht => ?_⟩, List.pairwise_cons.2 ⟨hlater, ih.2⟩⟩
    exact .inr (hq.trans_before (hlater t ht))

/-- The tokens of a source stand one behind the other. -/
theorem inOrder_scan (src : List Glyph) : (scan src).Pairwise Before :=
  (inOrder_scanFrom .start _).2

end ClassScript.Token
