import ClassScript.Token.Scan

/-!
# The tokens of a source

Every token of a source stands on a line of it, a token of a kind with only one spelling has that
spelling, and the token that marks the end of the input stands at the end and nowhere else.
-/

namespace ClassScript.Token

/-- Whether the tokens of a kind can have different lexemes. -/
def Kind.varies : Kind → Bool
  | eof | illegal | identifier | integer | float | string => true
  | _ => false

/-- The kind of a sign: all its tokens have one lexeme, and this is no word. -/
structure Kind.IsSign (kind : Kind) : Prop where
  /-- There is only one lexeme. -/
  varies : kind.varies = false
  /-- The lexeme is no reserved word. -/
  keyword : kind ∉ Kind.keywords

namespace Kind.IsSign

variable {kind : Kind}

/-- A sign is not the mark of the end. -/
theorem ne_eof (h : kind.IsSign) : kind ≠ .eof := by
  rintro rfl
  cases h.varies

/-- A sign is legal. -/
theorem ne_illegal (h : kind.IsSign) : kind ≠ .illegal := by
  rintro rfl
  cases h.varies

/-- A sign is no identifier. -/
theorem ne_identifier (h : kind.IsSign) : kind ≠ .identifier := by
  rintro rfl
  cases h.varies

end Kind.IsSign

/-- Punctuation is a sign. -/
theorem isSign_of_punctuation {c : Char} {kind : Kind} (h : punctuation? c = some kind) :
    kind.IsSign := by
  unfold punctuation? at h
  split at h <;> cases h <;> exact ⟨rfl, by decide⟩

/-- Operators are signs, with an equals sign or without. -/
theorem isSign_of_comparison {c : Char} {alone doubled : Kind}
    (h : comparison? c = some (alone, doubled)) : alone.IsSign ∧ doubled.IsSign := by
  unfold comparison? at h
  split at h <;> cases h <;> exact ⟨⟨rfl, by decide⟩, ⟨rfl, by decide⟩⟩

/-- A token as the sources have them: it has a place, and the lexeme of its kind if there is only
one. -/
structure Regular (t : Token) : Prop where
  /-- The token stands on a line of the source. -/
  line : t.line ≠ 0
  /-- The lexeme is the only one of its kind. -/
  lexeme : t.kind.varies = false → t.lexeme = t.kind.name

/-! ### Places -/

/-- A glyph leads to the same line or a later one. -/
theorem Position.line_le_next (p : Position) (g : Glyph) : p.line ≤ (p.next g).line := by
  unfold next
  split
  · exact Nat.le_succ _
  · exact Nat.le_refl _

/-- So do several glyphs. -/
theorem Position.line_le_after (p : Position) (gs : List Glyph) : p.line ≤ (p.after gs).line := by
  induction gs generalizing p with
  | nil => exact Nat.le_refl _
  | cons g rest ih => exact Nat.le_trans (p.line_le_next g) (ih _)

/-- So do blanks and comments. -/
theorem line_le_skip (comment : Bool) (p : Position) (src : List Glyph) :
    p.line ≤ (skip comment p src).1.line := by
  -- On the source. Inside of a comment, everything is skipped up to the line feed.
  induction src generalizing comment p with
  | nil => cases comment <;> exact Nat.le_refl _
  | cons g rest ih =>
    cases comment with
    | true => exact Nat.le_trans (p.line_le_next g) (ih _ _)
    | false =>
      simp only [skip]
      split
      · exact Nat.le_trans (p.line_le_next g) (ih _ _)
      · split
        · exact Nat.le_trans (p.line_le_next g) (ih _ _)
        · exact Nat.le_refl _

/-! ### Cuts -/

/-- A cut that does not mark the end, with the lexeme of its kind if there is only one. -/
structure Cut.Regular (c : Cut) : Prop where
  /-- The cut is no mark of the end. -/
  kind : c.kind ≠ .eof
  /-- The lexeme is the only one of its kind. -/
  lexeme : c.kind.varies = false → Glyph.text c.spelling = c.kind.name

/-- Punctuation is cut with its lexeme. -/
theorem regular_punctuation {g : Glyph} {k : Kind} (h : punctuation? g.toChar = some k)
    (rest : List Glyph) : (Cut.plain k [g] rest).Regular := by
  have hlexeme : ∀ c, punctuation? c = some k → String.ofList [c] = k.name := by
    intro c hc
    unfold punctuation? at hc
    split at hc <;> cases hc <;> rfl
  exact ⟨(isSign_of_punctuation h).ne_eof, fun _ => hlexeme _ h⟩

/-- So are operators, with an equals sign or without. -/
theorem regular_comparison {g : Glyph} {alone doubled : Kind}
    (h : comparison? g.toChar = some (alone, doubled)) (rest : List Glyph) :
    (Cut.plain alone [g] rest).Regular ∧ (Cut.plain doubled [g, .char '='] rest).Regular := by
  have hlexeme : ∀ c, comparison? c = some (alone, doubled) →
      String.ofList [c] = alone.name ∧ String.ofList [c, '='] = doubled.name := by
    intro c hc
    unfold comparison? at hc
    split at hc <;> cases hc <;> exact ⟨rfl, rfl⟩
  obtain ⟨halone, hdoubled⟩ := isSign_of_comparison h
  exact ⟨⟨halone.ne_eof, fun _ => (hlexeme _ h).1⟩, ⟨hdoubled.ne_eof, fun _ => (hlexeme _ h).2⟩⟩

/-- A cut of a kind with many lexemes. -/
theorem Cut.regular_of_varies {c : Cut} (hk : c.kind ≠ .eof) (h : c.kind.varies = true) :
    c.Regular := ⟨hk, fun hf => absurd (h.symm.trans hf) (by decide)⟩

/-- A word is reserved only if it is the name of its kind. -/
theorem regular_cutWord (src : List Glyph) : (cutWord src).Regular := by
  unfold cutWord Kind.ofWord
  dsimp only
  cases hfind : Kind.keywords.find? fun k => k.name = Glyph.text (src.takeWhile isWordPart) with
  | none => exact Cut.regular_of_varies nofun rfl
  | some k =>
    have hkeyword : ∀ k ∈ Kind.keywords, k ≠ .eof := by decide
    have hname := List.find?_some hfind
    rw [decide_eq_true_eq] at hname
    exact ⟨hkeyword k (List.mem_of_find?_eq_some hfind), fun _ => hname.symm⟩

/-- Every cut is regular. -/
theorem Cuts.regular {g : Glyph} {rest : List Glyph} {c : Cut} (h : Cuts g rest c) :
    c.Regular := by
  cases h with
  | punctuation hkind => exact regular_punctuation hkind _
  | alone hkinds => exact (regular_comparison hkinds _).1
  | doubled hkinds => exact (regular_comparison hkinds _).2
  | dot | ellipsis => exact ⟨nofun, fun _ => rfl⟩
  | word => exact regular_cutWord _
  | string | unterminated | integer | outOfRange | float | infinite | unexpected =>
    exact Cut.regular_of_varies nofun rfl

/-! ### Sources -/

/-- The mark of the end stands behind all other tokens of a source. -/
theorem scanFrom_eq_append (p : Position) (src : List Glyph) :
    ∃ body last, scanFrom p src = body ++ [last] ∧ last.kind = .eof ∧
      ∀ t ∈ body, t.kind ≠ .eof := by
  fun_induction scanFrom p src with
  | case1 p src q h => exact ⟨[], endToken q, rfl, rfl, List.forall_mem_nil _⟩
  | case2 p src q g rest h c ih =>
    obtain ⟨body, last, heq, hlast, hbody⟩ := ih
    refine ⟨c.token q :: body, last, by rw [heq]; rfl, hlast, ?_⟩
    intro t ht
    rcases List.mem_cons.1 ht with rfl | ht
    · exact (cuts_cut g rest).regular.kind
    · exact hbody t ht

/-- Every token of a source is regular. -/
theorem regular_scanFrom {p : Position} (hp : p.line ≠ 0) (src : List Glyph) :
    ∀ t ∈ scanFrom p src, t.Regular := by
  -- Along the scan; lines are only counted upwards, so none is the zeroth.
  fun_induction scanFrom p src with
  | case1 p src q h =>
    have hq := line_le_skip false p src
    rw [h] at hq
    intro t ht
    rw [List.mem_singleton.1 ht]
    exact ⟨fun hz => hp (Nat.le_zero.1 (hz ▸ hq)), nofun⟩
  | case2 p src q g rest h c ih =>
    have hq := line_le_skip false p src
    rw [h] at hq
    have hq0 : q.line ≠ 0 := fun hz => hp (Nat.le_zero.1 (hz ▸ hq))
    intro t ht
    rcases List.mem_cons.1 ht with rfl | ht
    · exact ⟨hq0, (cuts_cut g rest).regular.lexeme⟩
    · exact ih (fun hz => hq0 (Nat.le_zero.1 (hz ▸ q.line_le_after c.taken))) t ht

end ClassScript.Token
