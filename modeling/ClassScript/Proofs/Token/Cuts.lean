import Mathlib.Data.List.TakeWhile
import ClassScript.Proofs.Token.Layout
import ClassScript.Text.Characters

/-!
# Where tokens begin and end

Every token but the mark of the end is cut from the source at its place. Between a token and the
glyphs around it there is a boundary that can be seen without the scanner: if no token is illegal,
words only touch glyphs that look like no part of a word, except for the digits in front of a word.
-/

namespace ClassScript.Token

open Glyph

/-! ### Glyphs -/

/-- Whether a glyph looks like a part of a word, digits of every script included. -/
def isWordLike (g : Glyph) : Bool := isWordStart g || Text.isDecimalDigit g.toChar

/-- A part of a word looks like one. -/
theorem isWordLike_of_isWordPart {g : Glyph} (h : isWordPart g = true) : isWordLike g = true := by
  rcases Bool.or_eq_true_iff.1 h with h | h
  · rw [isWordLike, h, Bool.true_or]
  · have hsmall : g.toChar.toNat < 128 := by
      have hle := (Bool.and_eq_true_iff.1 h).2
      have hle' : g.toChar.toNat ≤ 57 := by simpa [UInt32.le_iff_toNat_le] using hle
      omega
    rw [isWordLike, Text.isDecimalDigit, if_pos hsmall, show g.toChar.isDigit = true from h,
      Bool.or_true]

/-- Punctuation does not look like a part of a word. -/
theorem not_isWordLike_of_punctuation {g : Glyph} {kind : Kind}
    (h : punctuation? g.toChar = some kind) : isWordLike g = false := by
  unfold isWordLike isWordStart
  unfold punctuation? at h
  split at h
  case h_15 => cases h
  all_goals
    rename_i hc
    rw [hc]
    decide +kernel

/-- Neither does an operator that may be followed by an equals sign. -/
theorem not_isWordLike_of_comparison {g : Glyph} {kinds : Kind × Kind}
    (h : comparison? g.toChar = some kinds) : isWordLike g = false := by
  unfold isWordLike isWordStart
  unfold comparison? at h
  split at h
  case h_5 => cases h
  all_goals
    rename_i hc
    rw [hc]
    decide +kernel

/-- What looks like a part of a word and is none starts no token. -/
theorem illegal_of_isWordLike {g : Glyph} (hlike : isWordLike g = true)
    (hpart : isWordPart g = false) (rest : List Glyph) : (cut g rest).kind = .illegal := by
  obtain ⟨hstart, hdigit⟩ := Bool.or_eq_false_iff.1 hpart
  have hpunctuation : punctuation? g.toChar = none := by
    refine Option.eq_none_iff_forall_ne_some.2 fun kind h => ?_
    rw [not_isWordLike_of_punctuation h] at hlike
    cases hlike
  have hcomparison : comparison? g.toChar = none := by
    refine Option.eq_none_iff_forall_ne_some.2 fun kinds h => ?_
    rw [not_isWordLike_of_comparison h] at hlike
    cases hlike
  have hdot : g ≠ .char '.' := by
    rintro rfl
    revert hlike
    decide +kernel
  have hquote : g ≠ .char '"' := by
    rintro rfl
    revert hlike
    decide +kernel
  -- None of the earlier cases applies, so the glyph is unexpected.
  simp only [cut, hpunctuation, hcomparison, if_neg hdot, if_neg hquote, hdigit, hstart]
  rfl

/-! ### The last glyph of a token -/

/-- A string ends with its closing quote. -/
theorem getLast?_stringTail? {src : List Glyph} {t : StringTail} (h : stringTail? src = some t) :
    t.taken.getLast? = some (.char '"') := by
  -- Along the tail: it ends at the quote, or goes on behind a glyph or an escape.
  fun_induction stringTail? src generalizing t with
  | case1 => cases h
  | case2 =>
    cases h
    rfl
  | case3 => cases h
  | case4 =>
    cases h
    rfl
  | case5 k rest _ ih =>
    obtain ⟨u, hu, rfl⟩ := Option.map_eq_some_iff.1 h
    rw [StringTail.prepend, List.getLast?_append, ih hu]
    rfl
  | case6 g k rest _ _ ih =>
    obtain ⟨u, hu, rfl⟩ := Option.map_eq_some_iff.1 h
    rw [StringTail.prepend, List.getLast?_append, ih hu]
    rfl

/-- If a legal cut ends with a glyph that looks like a part of a word, then this is a digit, or what
is left goes on with something else. -/
def Cut.Closed (c : Cut) : Prop :=
  c.kind ≠ .illegal → ∀ x, c.taken.getLast? = some x → isWordLike x = true →
    isDigit x = true ∨ ∀ y, c.rest.head? = some y → isWordPart y = false

/-- A cut whose last glyph does not look like a part of a word is closed. -/
theorem Cut.closed_of_last {c : Cut} {x : Glyph} (hlast : c.taken.getLast? = some x)
    (hx : isWordLike x = false) : c.Closed := by
  intro _ y hy hlike
  rw [hlast] at hy
  cases hy
  rw [hx] at hlike
  cases hlike

/-- So is one whose last glyph is a digit. -/
theorem Cut.closed_of_digit {c : Cut} {x : Glyph} (hlast : c.taken.getLast? = some x)
    (hx : isDigit x = true) : c.Closed := by
  intro _ y hy _
  rw [hlast] at hy
  cases hy
  exact .inl hx

/-- A run of digits ends with a digit. -/
theorem IsRun.exists_getLast? {digits : List Glyph} (h : IsRun digits) :
    ∃ x, digits.getLast? = some x ∧ Token.isDigit x = true :=
  ⟨digits.getLast h.ne_nil, List.getLast?_eq_some_getLast h.ne_nil,
    h.isDigit _ (List.getLast_mem h.ne_nil)⟩

/-- A word ends where no part of a word follows. -/
theorem closed_cutWord (src : List Glyph) : (cutWord src).Closed := by
  intro _ _ _ _
  refine .inr fun y hy => ?_
  have hnot := List.head?_dropWhile_not isWordPart src
  change (src.dropWhile isWordPart).head? = some y at hy
  rwa [hy] at hnot

/-- Every cut is closed. -/
theorem Cuts.closed {g : Glyph} {rest : List Glyph} {c : Cut} (h : Cuts g rest c) :
    c.Closed := by
  cases h with
  | punctuation hkind => exact Cut.closed_of_last rfl (not_isWordLike_of_punctuation hkind)
  | alone hkinds => exact Cut.closed_of_last rfl (not_isWordLike_of_comparison hkinds)
  | doubled => exact Cut.closed_of_last (x := .char '=') rfl (by decide +kernel)
  | dot | ellipsis => exact Cut.closed_of_last (x := .char '.') rfl (by decide +kernel)
  | @string rest t htail =>
    -- What is taken of a string ends with its closing quote.
    have hlast : (.char '"' :: t.taken).getLast? = some (.char '"') := by
      rw [List.getLast?_cons, getLast?_stringTail? htail]
      rfl
    exact Cut.closed_of_last hlast (by decide +kernel)
  | integer hdigits =>
    obtain ⟨x, hlast, hx⟩ := hdigits.exists_getLast?
    exact Cut.closed_of_digit hlast hx
  | @float _ _ whole fraction _ _ hwhole hfraction =>
    obtain ⟨x, hlast, hx⟩ := hfraction.exists_getLast?
    -- What is taken of a float ends with the last digit of its fraction.
    have htaken : (whole ++ .char '.' :: fraction).getLast? = some x := by
      rw [List.getLast?_append, List.getLast?_cons, hlast]
      rfl
    exact Cut.closed_of_digit htaken hx
  | word => exact closed_cutWord _
  | unterminated | outOfRange | infinite | unexpected => exact fun h => absurd rfl h

/-! ### Words -/

/-- A kind of tokens that are words: names and reserved words. -/
def Kind.IsWord (kind : Kind) : Prop := kind = .identifier ∨ kind ∈ Kind.keywords

instance (kind : Kind) : Decidable kind.IsWord := inferInstanceAs (Decidable (_ ∨ _))

/-- The kinds of literals and of illegal tokens are not those of words. -/
theorem Kind.not_isWord :
    ∀ kind ∈ [illegal, integer, float, string, dot, ellipsis], ¬ kind.IsWord := by
  decide

/-- A sign is no word. -/
theorem Kind.IsSign.not_isWord {kind : Kind} (h : kind.IsSign) : ¬ kind.IsWord :=
  fun hword => hword.elim h.ne_identifier h.keyword

/-- Only words are cut as words. -/
theorem Cuts.eq_cutWord {g : Glyph} {rest : List Glyph} {c : Cut} (h : Cuts g rest c)
    (hword : c.kind.IsWord) : isWordStart g = true ∧ c = cutWord (g :: rest) := by
  -- The other cuts have kinds that are not those of words.
  cases h with
  | punctuation hkind => exact absurd hword (isSign_of_punctuation hkind).not_isWord
  | alone hkinds => exact absurd hword (isSign_of_comparison hkinds).1.not_isWord
  | doubled hkinds => exact absurd hword (isSign_of_comparison hkinds).2.not_isWord
  | word hstart => exact ⟨hstart, rfl⟩
  | dot => exact absurd hword (Kind.not_isWord .dot (by decide))
  | ellipsis => exact absurd hword (Kind.not_isWord .ellipsis (by decide))
  | string => exact absurd hword (Kind.not_isWord .string (by decide))
  | integer => exact absurd hword (Kind.not_isWord .integer (by decide))
  | float => exact absurd hword (Kind.not_isWord .float (by decide))
  | unterminated | outOfRange | infinite | unexpected =>
    exact absurd hword (Kind.not_isWord .illegal (by decide))

/-! ### Complaints -/

/-- What a cut says is hardly longer than what it takes. -/
def Cut.Brief (c : Cut) : Prop := c.spelling.length ≤ c.taken.length + 22

/-- A cut that says what it takes is brief. -/
theorem Cut.brief_plain (kind : Kind) (taken rest : List Glyph) : (plain kind taken rest).Brief :=
  Nat.le_add_right _ _

/-- A complaint that repeats what it is about. -/
theorem Cut.brief_illegal {front : String} (h : front.length ≤ 22) (taken rest : List Glyph) :
    (illegal (front ++ Glyph.text taken) taken rest).Brief := by
  have hlength : (illegal (front ++ Glyph.text taken) taken rest).spelling.length =
      front.length + taken.length := by
    simp [illegal, ofString, Glyph.text, String.length_toList]
  rw [Brief, hlength, Nat.add_comm]
  exact Nat.add_le_add_left h _

/-- Every cut is brief. -/
theorem Cuts.brief {g : Glyph} {rest : List Glyph} {c : Cut} (h : Cuts g rest c) : c.Brief := by
  cases h with
  | punctuation | alone | doubled | dot | ellipsis | word => exact Cut.brief_plain _ _ _
  | string => exact Cut.brief_plain .string _ []
  | integer => exact Cut.brief_plain .integer _ []
  | float => exact Cut.brief_plain .float _ []
  | unterminated =>
    have hshort : (ofString "unterminated string").length ≤ 22 := by decide
    exact Nat.le_add_left_of_le hshort
  | outOfRange | infinite => exact Cut.brief_illegal (by decide) _ _
  | unexpected => exact Cut.brief_illegal (by decide) [g] rest

/-! ### Gaps -/

/-- Glyphs in front of a token, from within a comment on or not: they end with a blank, and a
comment does not end without one. -/
structure EndsBlank (comment : Bool) (gap : List Glyph) : Prop where
  ne_nil : comment = true → gap ≠ []
  isBlank_last : ∀ x, gap.getLast? = some x → isBlank x = true

/-- Outside of comments no glyphs at all are a gap. -/
theorem EndsBlank.nil : EndsBlank false [] where
  ne_nil h := by
    cases h
  isBlank_last x hx := by
    cases hx

/-- One more glyph in front, which is the last one where nothing follows. -/
theorem EndsBlank.cons {comment comment' : Bool} {g : Glyph} {gap : List Glyph}
    (h : EndsBlank comment' gap) (hblank : comment' = false → isBlank g = true) :
    EndsBlank comment (g :: gap) where
  ne_nil _ := List.cons_ne_nil _ _
  isBlank_last x hx := by
    -- The last glyph of the gap, or the new one if the gap is empty.
    rw [List.getLast?_cons] at hx
    cases hgap : gap.getLast? with
    | some y =>
      rw [hgap] at hx
      exact h.isBlank_last x (hgap.trans hx)
    | none =>
      have hnil : gap = [] := List.getLast?_eq_none_iff.1 hgap
      rw [hgap] at hx
      cases hx
      refine hblank ?_
      cases comment' with
      | false => rfl
      | true => exact absurd hnil (h.ne_nil rfl)

/-- Blanks and comments in front of a token end with a blank. -/
theorem exists_skip {comment : Bool} {p q : Position} {src rest : List Glyph}
    (h : skip comment p src = (q, rest)) :
    ∃ gap, src = gap ++ rest ∧ q = p.after gap ∧ (rest ≠ [] → EndsBlank comment gap) := by
  induction src generalizing comment p with
  | nil =>
    obtain ⟨rfl, rfl⟩ := Prod.mk.inj (h.symm.trans (by cases comment <;> rfl))
    exact ⟨[], rfl, rfl, fun hne => absurd rfl hne⟩
  | cons g src ih =>
    -- A glyph more in front leaves the end of the gap as it is.
    have hcons : ∀ {comment'}, skip comment' (p.next g) src = (q, rest) →
        (comment' = false → isBlank g = true) →
        ∃ gap, g :: src = gap ++ rest ∧ q = p.after gap ∧ (rest ≠ [] → EndsBlank comment gap) := by
      intro comment' hrest hblank
      obtain ⟨gap, hsrc, hq, hends⟩ := ih hrest
      exact ⟨g :: gap, by rw [hsrc, List.cons_append], hq, fun hne => (hends hne).cons hblank⟩
    cases comment with
    | true =>
      refine hcons h fun hends => ?_
      -- Only a newline ends a comment.
      have hg : g = .char '\n' := by simpa using hends
      rw [hg]
      rfl
    | false =>
      rw [skip] at h
      split at h
      · next hblank => exact hcons h fun _ => hblank
      · split at h
        · refine hcons h fun hends => ?_
          cases hends
        · cases h
          exact ⟨[], rfl, rfl, fun _ => .nil⟩

/-! ### All tokens -/

/-- Of two parts of a source, the second does not begin with a part of a word if the first ends with
something that looks like one, a digit apart. -/
def Apart (front back : List Glyph) : Prop :=
  ∀ x, front.getLast? = some x → isWordLike x = true →
    isDigit x = true ∨ ∀ y, back.head? = some y → isWordPart y = false

/-- A blank does not look like a part of a word. -/
theorem not_isWordLike_of_isBlank {g : Glyph} (h : isBlank g = true) : isWordLike g = false := by
  have hcases : ((g = .char ' ' ∨ g = .char '\t') ∨ g = .char '\n') ∨ g = .char '\r' := by
    simpa [isBlank] using h
  rcases hcases with ((rfl | rfl) | rfl) | rfl <;> decide +kernel

/-- Parts of a source stay apart if what moves to the first one ends with a blank. -/
theorem Apart.gap {front gap back : List Glyph} (h : Apart front (gap ++ back))
    (hgap : ∀ x, gap.getLast? = some x → isBlank x = true) : Apart (front ++ gap) back := by
  intro x hx hlike
  rw [List.getLast?_append] at hx
  -- The first part ends as it did, or with a blank, which is like no word.
  cases hlast : gap.getLast? with
  | none =>
    rw [List.getLast?_eq_none_iff.1 hlast] at h hx
    exact h x hx hlike
  | some y =>
    rw [hlast] at hx
    cases hx
    rw [not_isWordLike_of_isBlank (hgap x hlast)] at hlike
    cases hlike

/-- A legal token keeps what follows it apart. -/
theorem Apart.cut (front : List Glyph) {g : Glyph} {rest : List Glyph}
    (hlegal : (Token.cut g rest).kind ≠ .illegal) :
    Apart (front ++ (Token.cut g rest).taken) (Token.cut g rest).rest := by
  intro x hx
  rw [List.getLast?_append_of_ne_nil _ (cuts_cut g rest).taken_ne_nil] at hx
  exact (cuts_cut g rest).closed hlegal x hx

/-- Behind the gap the next token is cut, and the scanner goes on behind it. -/
theorem scanFrom_of_skip {p q : Position} {src : List Glyph} {g : Glyph} {rest : List Glyph}
    (h : skip false p src = (q, g :: rest)) :
    scanFrom p src = (Token.cut g rest).token q ::
      scanFrom (q.after (Token.cut g rest).taken) (Token.cut g rest).rest := by
  rw [scanFrom]
  split
  · next h' =>
    cases h.symm.trans h'
  · next h' =>
    cases h.symm.trans h'
    rfl

/-- If no token is illegal, a source that goes on with what looks like a part of a word goes on with
such a part. -/
theorem isWordPart_of_legal {p : Position} {src : List Glyph}
    (hlegal : ∀ u ∈ scanFrom p src, u.kind ≠ .illegal) :
    ∀ y, src.head? = some y → isWordLike y = true → isWordPart y = true := by
  intro y hy hlike
  obtain ⟨rest, rfl⟩ := List.head?_eq_some_iff.1 hy
  have hblank : isBlank y = false := by
    by_contra hne
    rw [not_isWordLike_of_isBlank (Bool.of_not_eq_false hne)] at hlike
    cases hlike
  have hcomment : y ≠ .char '#' := by
    rintro rfl
    revert hlike
    decide +kernel
  -- Nothing is skipped, so the glyph itself would start a token.
  have hskip : skip false p (y :: rest) = (p, y :: rest) := by
    rw [skip, hblank, if_neg Bool.false_ne_true, if_neg hcomment]
  by_contra hpart
  refine hlegal ((Token.cut y rest).token p) ?_
    (illegal_of_isWordLike hlike (Bool.of_not_eq_true hpart) rest)
  rw [scanFrom_of_skip hskip]
  exact List.mem_cons_self

/-- Every token of a source marks its end or is cut from it at the place of the token. If no token
is illegal and the source begins apart from what is in front of it, then so does each token, and
what follows it begins with a part of a word or with what does not look like one. -/
theorem exists_cut {p : Position} {done src : List Glyph} {t : Token}
    (hp : p = Position.start.after done) (ht : t ∈ scanFrom p src) :
    t = endToken (.after .start (done ++ src)) ∨
      ∃ front g rest, done ++ src = front ++ g :: rest ∧
        t = (cut g rest).token (.after .start front) ∧
        (Apart done src → (∀ u ∈ scanFrom p src, u.kind ≠ .illegal) →
          Apart front (g :: rest) ∧
            ∀ y, (cut g rest).rest.head? = some y → isWordLike y = true → isWordPart y = true) := by
  fun_induction scanFrom p src generalizing done with
  | case1 p src q h =>
    obtain ⟨gap, hsrc, hq, -⟩ := exists_skip h
    rw [List.append_nil] at hsrc
    rw [List.mem_singleton.1 ht, hq, hsrc, hp, after_append]
    exact .inl rfl
  | case2 p src q g rest h c =>
    rename_i ih
    obtain ⟨gap, hsrc, hq, hends⟩ := exists_skip h
    have hgap := (hends (List.cons_ne_nil _ _)).isBlank_last
    have hplace : q = Position.start.after (done ++ gap) := by rw [hq, hp, after_append]
    rcases List.mem_cons.1 ht with rfl | ht
    · refine .inr ⟨done ++ gap, g, rest, ?_, ?_, fun hapart hlegal => ⟨?_, ?_⟩⟩
      · rw [hsrc, List.append_assoc]
      · rw [hplace]
      · rw [hsrc] at hapart
        exact hapart.gap hgap
      · exact isWordPart_of_legal fun u hu => hlegal u (List.mem_cons_of_mem _ hu)
    · -- A token that is cut later has the gap and the first token in front of it as well.
      have htaken : q.after c.taken = Position.start.after (done ++ gap ++ c.taken) := by
        rw [hplace, after_append _ (done ++ gap)]
      have hall : done ++ src = done ++ gap ++ c.taken ++ c.rest := by
        rw [hsrc, ← cut_append g rest]
        simp only [List.append_assoc]
        rfl
      rw [hall]
      refine (ih htaken ht).imp id ?_
      rintro ⟨front, g', rest', heq, ht, hapart⟩
      refine ⟨front, g', rest', heq, ht, fun _ hlegal => hapart ?_ fun u hu => ?_⟩
      · exact Apart.cut _ (hlegal _ List.mem_cons_self)
      · exact hlegal u (List.mem_cons_of_mem _ hu)

end ClassScript.Token
