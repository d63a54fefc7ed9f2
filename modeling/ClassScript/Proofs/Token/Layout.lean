import ClassScript.Proofs.Text.Bytes
import ClassScript.Proofs.Token.Lexemes

/-!
# Where the tokens of a source stand

Scanning loses nothing of a source. Every token covers a piece of it, a `Span` of bytes; what is not
covered is blanks and comments, a token that is not illegal spells what it covers, and the line and
column of a token count the newlines in front of it and the glyphs behind the last of them.

`Layout` says this of the tokens of a source in terms of its bytes alone, and `layout_scan` proves
it for every source without a NUL byte. The proof follows `scanFrom` and carries the glyphs that
were read so far.
-/

namespace ClassScript.Token

open Glyph

/-! ### Pieces of a source -/

/-- The bytes of a source between two offsets. -/
def slice (source : List UInt8) (start stop : Nat) : List UInt8 := (source.take stop).drop start

/-- The bytes between two tokens: blanks, and comments up to the end of their line. Only at the end
of the source may a comment lack the end of its line. -/
inductive Separator : Bool → List UInt8 → Prop where
  /-- Nothing. -/
  | nil {last : Bool} : Separator last []
  /-- A blank in front. -/
  | blank {last : Bool} {c : Char} {rest : List UInt8} : c ∈ [' ', '\t', '\r', '\n'] →
      Separator last rest → Separator last (ascii c :: rest)
  /-- A comment in front, with the end of its line. -/
  | comment {last : Bool} {text rest : List UInt8} : ascii '\n' ∉ text →
      Separator last (ascii '\n' :: rest) →
      Separator last (ascii '#' :: (text ++ ascii '\n' :: rest))
  /-- A comment at the end of the source. -/
  | unended {text : List UInt8} : ascii '\n' ∉ text → Separator true (ascii '#' :: text)

/-- A token with the offsets of its first byte and of the byte behind it. -/
structure Span where
  /-- The token. -/
  token : Token
  /-- Where the token starts. -/
  start : Nat
  /-- Where the token stops. -/
  stop : Nat

/-- What an illegal token covers: one glyph, a string without its closing quote up to the end of the
source, or a number. -/
def Span.Faulty (source : List UInt8) (s : Span) : Prop :=
  (decode (slice source s.start s.stop)).length = 1 ∨
    (s.stop = source.length ∧ (slice source s.start s.stop).head? = some (ascii '"')) ∨
    ∀ g ∈ decode (slice source s.start s.stop), isDigit g ∨ g = .char '.'

/-- A span tells where its token stands in a source and what the token covers there. -/
structure Span.Exact (source : List UInt8) (s : Span) : Prop where
  /-- The span lies within the source. -/
  bounds : s.start ≤ s.stop ∧ s.stop ≤ source.length
  /-- A token that is not illegal spells the bytes that it covers. -/
  spelling : s.token.kind ≠ .illegal → encode s.token.spelling = slice source s.start s.stop
  /-- The lexeme is the spelling as a text. -/
  lexeme : s.token.lexeme = Glyph.text s.token.spelling
  /-- What an illegal token covers. -/
  illegal : s.token.kind = .illegal → s.Faulty source
  /-- The line counts the newlines in front of the token. -/
  line : s.token.line = 1 + (source.take s.start).count (ascii '\n')
  /-- The column counts the glyphs between the last newline and the token. -/
  column : s.token.column
    = 1 + (decode ((source.take s.start).rtakeWhile (· ≠ ascii '\n'))).length

/-- From an offset on, only separators stand in front of spans and between them. -/
def Gaps (source : List UInt8) : Nat → List Span → Prop
  | _, [] => True
  | start, s :: rest =>
    start ≤ s.start ∧ Separator rest.isEmpty (slice source start s.start) ∧ Gaps source s.stop rest

/-- The spans of all tokens of a source from an offset on. -/
structure Layout (source : List UInt8) (start : Nat) (spans : List Span) : Prop where
  /-- Every span is exact. -/
  exact : ∀ s ∈ spans, s.Exact source
  /-- The tokens start one behind the other. -/
  increasing : spans.Pairwise (·.start < ·.start)
  /-- The rest of the source is blanks and comments. -/
  gaps : Gaps source start spans
  /-- The last token marks the end of the source, and no other token does. -/
  ends : ∃ body last, spans = body ++ [last] ∧ last.token.kind = .eof ∧
    last.start = source.length ∧ last.stop = source.length ∧ ∀ s ∈ body, s.token.kind ≠ .eof

/-! ### Places -/

/-- The place behind two runs of glyphs is that behind the second one, from behind the first. -/
theorem after_append (p : Position) (gs hs : List Glyph) :
    p.after (gs ++ hs) = (p.after gs).after hs := List.foldl_append

/-- The place behind glyphs, counted from the start of a source. -/
theorem start_after (gs : List Glyph) :
    Position.start.after gs = ⟨1 + gs.count (.char '\n'),
      1 + (gs.rtakeWhile (· ≠ .char '\n')).length⟩ := by
  induction gs using List.reverseRecOn with
  | nil => rfl
  | append_singleton gs g ih =>
    have hlast : Position.start.after (gs ++ [g]) = (Position.start.after gs).next g :=
      after_append _ gs [g]
    rw [hlast, ih, Position.next, List.count_append, List.rtakeWhile_concat]
    by_cases hg : g = .char '\n'
    · subst hg
      simp [Nat.add_assoc]
    · simp [hg, Nat.add_assoc]

/-- A glyph has a line feed among its bytes exactly if it is one. -/
theorem count_bytes {g : Glyph} (hg : g.IsDecoded) :
    g.bytes.count (ascii '\n') = [g].count (.char '\n') := by
  by_cases h : g = .char '\n'
  · subst h
    rfl
  · have hnot : ascii '\n' ∉ g.bytes := fun hmem => h ((ascii_mem_bytes hg (by decide)).1 hmem)
    rw [List.count_eq_zero_of_not_mem hnot, List.count_singleton]
    simp [h]

/-- The bytes have as many newlines as the glyphs. -/
theorem count_encode {gs : List Glyph} (hgs : ∀ g ∈ gs, g.IsDecoded) :
    (encode gs).count (ascii '\n') = gs.count (.char '\n') := by
  induction gs with
  | nil => rfl
  | cons g gs ih =>
    obtain ⟨hg, hgs⟩ := List.forall_mem_cons.1 hgs
    rw [encode_cons, List.count_append, count_bytes hg, ih hgs, ← List.count_append]
    rfl

/-- What is taken from the back goes on in front of a part that is taken as a whole. -/
theorem rtakeWhile_append_of_forall {α : Type} {p : α → Bool} {xs ys : List α}
    (h : ∀ y ∈ ys, p y = true) : (xs ++ ys).rtakeWhile p = xs.rtakeWhile p ++ ys := by
  have hrev : ∀ y ∈ ys.reverse, p y = true := fun y hy => h y (List.mem_reverse.1 hy)
  rw [List.rtakeWhile, List.reverse_append, List.takeWhile_append_of_pos hrev,
    List.reverse_append, List.reverse_reverse]
  rfl

/-- The bytes behind the last newline are those of the glyphs behind it. -/
theorem rtakeWhile_encode {gs : List Glyph} (hgs : ∀ g ∈ gs, g.IsDecoded) :
    (encode gs).rtakeWhile (· ≠ ascii '\n') = encode (gs.rtakeWhile (· ≠ .char '\n')) := by
  induction gs using List.reverseRecOn with
  | nil => rfl
  | append_singleton gs g ih =>
    obtain ⟨hgs, hg⟩ := List.forall_mem_append.1 hgs
    rw [encode_append, List.rtakeWhile_concat]
    by_cases h : g = .char '\n'
    · subst h
      -- Both sides are cut right behind the newline.
      show (encode gs ++ [ascii '\n']).rtakeWhile _ = _
      rw [List.rtakeWhile_concat]
      simp
    · -- No byte of another glyph is a newline.
      have hbytes : ∀ b ∈ encode [g], decide (b ≠ ascii '\n') = true := by
        intro b hb
        rw [decide_eq_true_eq]
        rintro rfl
        rw [ascii_mem_encode hg (by decide)] at hb
        exact h (List.mem_singleton.1 hb).symm
      rw [rtakeWhile_append_of_forall hbytes, ih hgs]
      simp [h]

/-! ### Offsets -/

/-- Where the glyphs of a source are parted, its bytes are parted as well. -/
theorem eq_encode_append {source : List UInt8} {front back : List Glyph}
    (h : decode source = front ++ back) : source = encode front ++ encode back := by
  rw [← encode_append, ← h, encode_decode]

/-- The bytes of glyphs between others. -/
theorem slice_encode {source : List UInt8} {front piece back : List Glyph}
    (h : decode source = front ++ piece ++ back) :
    slice source (encode front).length (encode (front ++ piece)).length = encode piece := by
  rw [slice, eq_encode_append h, List.take_left, encode_append, List.drop_left]

/-- The place of a token with glyphs in front of it, counted in the bytes. -/
theorem place_eq {source : List UInt8} {front back : List Glyph}
    (h : decode source = front ++ back) :
    Position.start.after front =
      ⟨1 + (source.take (encode front).length).count (ascii '\n'),
        1 + (decode ((source.take (encode front).length).rtakeWhile (· ≠ ascii '\n'))).length⟩ := by
  have hfront : ∀ g ∈ front, g.IsDecoded := by
    intro g hg
    have hdecoded : g ∈ decode source → g.IsDecoded := isDecoded_of_mem_decode
    apply hdecoded
    rw [h]
    exact List.mem_append_left back hg
  have htake : source.take (encode front).length = encode front := by
    rw [eq_encode_append h, List.take_left]
  -- The glyphs behind the last newline are decoded again from their own bytes.
  have hline : decode (encode (front.rtakeWhile (· ≠ .char '\n')))
      = front.rtakeWhile (· ≠ .char '\n') := by
    have hwhole : decode source = front.rdropWhile (· ≠ .char '\n')
        ++ front.rtakeWhile (· ≠ .char '\n') ++ back := by
      rw [List.rdropWhile_append_rtakeWhile, h]
    exact decode_encode_of_infix hwhole
  rw [start_after, htake, count_encode hfront, rtakeWhile_encode hfront, hline]

/-- All spans lie behind the offset that the gaps start from. -/
theorem start_le_of_gaps {source : List UInt8} {start : Nat} {spans : List Span}
    (hspans : ∀ s ∈ spans, s.start ≤ s.stop) (h : Gaps source start spans) :
    ∀ s ∈ spans, start ≤ s.start := by
  induction spans generalizing start with
  | nil => exact List.forall_mem_nil _
  | cons s rest ih =>
    obtain ⟨hs, hrest⟩ := List.forall_mem_cons.1 hspans
    obtain ⟨hstart, -, hgaps⟩ := h
    intro t ht
    -- A later span starts behind the end of the first one.
    rcases List.mem_cons.1 ht with rfl | ht
    · exact hstart
    · calc start ≤ s.start := hstart
        _ ≤ s.stop := hs
        _ ≤ t.start := ih hrest hgaps t ht

/-! ### Blanks and comments -/

/-- The blanks are four characters. -/
theorem exists_of_isBlank {g : Glyph} (h : isBlank g = true) :
    ∃ c ∈ [' ', '\t', '\r', '\n'], g = .char c := by
  simp only [isBlank, Bool.or_eq_true, decide_eq_true_eq] at h
  rcases h with ((rfl | rfl) | rfl) | rfl
  · exact ⟨' ', by decide, rfl⟩
  · exact ⟨'\t', by decide, rfl⟩
  · exact ⟨'\n', by decide, rfl⟩
  · exact ⟨'\r', by decide, rfl⟩

/-- A comment goes on with everything but a newline. -/
theorem Separator.comment_append {last : Bool} {text rest : List UInt8}
    (htext : ascii '\n' ∉ text) (h : Separator last (ascii '#' :: rest)) :
    Separator last (ascii '#' :: (text ++ rest)) := by
  generalize hall : ascii '#' :: rest = all at h
  cases h with
  | nil => cases hall
  | blank hc hrest =>
    -- What begins with a comment does not begin with a blank.
    have hhash : ∀ c ∈ [' ', '\t', '\r', '\n'], ascii '#' ≠ ascii c := by
      simp [ascii]
    exact absurd (List.cons.inj hall).1 (hhash _ hc)
  | comment hmore hrest =>
    obtain rfl := (List.cons.inj hall).2
    rw [← List.append_assoc]
    exact .comment (List.not_mem_append htext hmore) hrest
  | unended hmore =>
    obtain rfl := (List.cons.inj hall).2
    exact .unended (List.not_mem_append htext hmore)

/-- What opens a comment, if one is open. -/
def opening (comment : Bool) : List UInt8 := if comment then [ascii '#'] else []

/-- What is skipped separates two tokens, with the sign that opens the comment in which the skipping
starts. -/
theorem skip_separates {comment : Bool} {p q : Position} {src rest : List Glyph}
    (hsrc : ∀ g ∈ src, g.IsDecoded) (h : skip comment p src = (q, rest)) :
    ∃ gap, src = gap ++ rest ∧ q = p.after gap ∧
      Separator rest.isEmpty (opening comment ++ encode gap) := by
  induction src generalizing comment p with
  | nil =>
    cases comment with
    | true =>
      cases h
      exact ⟨[], rfl, rfl, .unended List.not_mem_nil⟩
    | false =>
      cases h
      exact ⟨[], rfl, rfl, .nil⟩
  | cons g src ih =>
    obtain ⟨hg, hsrc⟩ := List.forall_mem_cons.1 hsrc
    cases comment with
    | true =>
      obtain ⟨gap, rfl, rfl, hgap⟩ := ih hsrc h
      refine ⟨g :: gap, rfl, rfl, ?_⟩
      by_cases hnewline : g = .char '\n'
      · -- The newline ends the comment and is itself a blank.
        subst hnewline
        have hnil : ascii '\n' ∉ ([] : List UInt8) := List.not_mem_nil
        exact .comment hnil (.blank (by decide) hgap)
      · -- The bytes of another character cannot end it.
        have hbytes : ascii '\n' ∉ g.bytes :=
          fun hmem => hnewline ((ascii_mem_bytes hg (by decide)).1 hmem)
        rw [decide_eq_true hnewline] at hgap
        show Separator rest.isEmpty (ascii '#' :: (g.bytes ++ encode gap))
        exact Separator.comment_append hbytes hgap
    | false =>
      simp only [skip] at h
      split at h
      · next hblank =>
        obtain ⟨gap, rfl, rfl, hgap⟩ := ih hsrc h
        obtain ⟨c, hc, rfl⟩ := exists_of_isBlank hblank
        refine ⟨.char c :: gap, rfl, rfl, ?_⟩
        have hascii : ∀ c ∈ [' ', '\t', '\r', '\n'], c.toNat < 0x80 := by
          simp
        show Separator rest.isEmpty ((Glyph.char c).bytes ++ encode gap)
        rw [bytes_char_of_ascii (hascii c hc)]
        exact .blank hc hgap
      · split at h
        · next hhash =>
          obtain ⟨gap, rfl, rfl, hgap⟩ := ih hsrc h
          subst hhash
          exact ⟨.char '#' :: gap, rfl, rfl, hgap⟩
        · cases h
          exact ⟨[], rfl, rfl, .nil⟩

/-! ### Tokens -/

/-- What an illegal cut takes, with what it leaves. -/
def Cut.Faulty (c : Cut) : Prop :=
  c.taken.length = 1 ∨ (c.rest = [] ∧ c.taken.head? = some (.char '"')) ∨
    ∀ g ∈ c.taken, isDigit g ∨ g = .char '.'

/-- A cut that is not illegal spells what it takes. -/
structure Cut.Exact (c : Cut) : Prop where
  /-- A legal cut. -/
  spelling : c.kind ≠ .illegal → c.spelling = c.taken
  /-- An illegal one. -/
  illegal : c.kind = .illegal → c.Faulty

/-- A cut that says what it takes is exact. -/
theorem Cut.exact_plain {kind : Kind} (hkind : kind ≠ .illegal) (taken rest : List Glyph) :
    (Cut.plain kind taken rest).Exact := ⟨fun _ => rfl, fun h => absurd h hkind⟩

/-- The kind of a word is never illegal. -/
theorem Kind.ofWord_ne_illegal (word : String) : Kind.ofWord word ≠ .illegal := by
  unfold Kind.ofWord
  cases hfind : Kind.keywords.find? fun k => k.name = word with
  | none => exact nofun
  | some k =>
    have hkeyword : ∀ k ∈ Kind.keywords, k ≠ .illegal := by decide
    exact hkeyword k (List.mem_of_find?_eq_some hfind)

/-- Every cut is exact. -/
theorem Cuts.exact {g : Glyph} {rest : List Glyph} {c : Cut} (h : Cuts g rest c) : c.Exact := by
  cases h with
  | punctuation hkind => exact Cut.exact_plain (isSign_of_punctuation hkind).ne_illegal _ _
  | alone hkinds => exact Cut.exact_plain (isSign_of_comparison hkinds).1.ne_illegal _ _
  | doubled hkinds => exact Cut.exact_plain (isSign_of_comparison hkinds).2.ne_illegal _ _
  | dot | ellipsis => exact Cut.exact_plain (by decide) _ _
  | word => exact Cut.exact_plain (Kind.ofWord_ne_illegal _) _ _
  | string | integer | float => exact ⟨fun _ => rfl, nofun⟩
  | unterminated => exact ⟨fun h => absurd rfl h, fun _ => .inr (.inl ⟨rfl, rfl⟩)⟩
  | outOfRange hdigits =>
    exact ⟨fun h => absurd rfl h, fun _ => .inr (.inr fun g hg => .inl (hdigits.isDigit g hg))⟩
  | infinite hwhole hfraction =>
    -- A number that is too large is illegal, and made of digits and a point.
    refine ⟨fun h => absurd rfl h, fun _ => .inr (.inr fun g hg => ?_)⟩
    rcases List.mem_append.1 hg with hg | hg
    · exact .inl (hwhole.isDigit g hg)
    · rcases List.mem_cons.1 hg with rfl | hg
      · exact .inr rfl
      · exact .inl (hfraction.isDigit g hg)
  | unexpected => exact ⟨fun h => absurd rfl h, fun _ => .inl rfl⟩

/-! ### Sources -/

/-- The span of the token cut behind some glyphs. -/
def Cut.span (c : Cut) (front : List Glyph) : Span :=
  { token := c.token (Position.start.after front)
    start := (encode front).length
    stop := (encode (front ++ c.taken)).length }

/-- The span of the mark of the end. -/
def endSpan (front : List Glyph) : Span :=
  { token := endToken (Position.start.after front)
    start := (encode front).length
    stop := (encode front).length }

/-- The glyphs in front have no more bytes than the source. -/
theorem length_le_of_decode {source : List UInt8} {front back : List Glyph}
    (h : decode source = front ++ back) : (encode front).length ≤ source.length := by
  rw [eq_encode_append h, List.length_append]
  exact Nat.le_add_right _ _

/-- The mark of the end covers nothing, at the end of the source. -/
theorem exact_endSpan {source : List UInt8} {front back : List Glyph}
    (h : decode source = front ++ back) : (endSpan front).Exact source where
  bounds := ⟨Nat.le_refl _, length_le_of_decode h⟩
  spelling := by
    intro _
    show [] = slice source (encode front).length (encode front).length
    rw [slice, List.drop_eq_nil_of_le]
    exact List.length_take_le _ _
  lexeme := rfl
  illegal := nofun
  line := congrArg Position.line (place_eq h)
  column := congrArg Position.column (place_eq h)

/-- The span of a token is exact. -/
theorem exact_span {source : List UInt8} {front : List Glyph} {g : Glyph} {rest : List Glyph}
    (h : decode source = front ++ g :: rest) : ((cut g rest).span front).Exact source := by
  have hcut := (cuts_cut g rest).exact
  have htaken : decode source = front ++ (cut g rest).taken ++ (cut g rest).rest := by
    rw [List.append_assoc, cut_append]
    exact h
  have hslice := slice_encode htaken
  have hdecode := decode_encode_of_infix htaken
  exact {
    bounds := by
      constructor
      · show (encode front).length ≤ (encode (front ++ (cut g rest).taken)).length
        rw [encode_append, List.length_append]
        exact Nat.le_add_right _ _
      · exact length_le_of_decode htaken
    spelling := by
      intro hkind
      show encode (cut g rest).spelling = _
      rw [hcut.spelling hkind]
      exact hslice.symm
    lexeme := rfl
    illegal := by
      intro hkind
      have hslice' : slice source ((cut g rest).span front).start ((cut g rest).span front).stop
          = encode (cut g rest).taken := hslice
      unfold Span.Faulty
      rw [hslice', hdecode]
      rcases hcut.illegal hkind with hone | ⟨hrest, hquote⟩ | hnumber
      · exact .inl hone
      · -- A string without its closing quote ends with the source.
        obtain ⟨tail, htail⟩ := List.head?_eq_some_iff.1 hquote
        refine .inr (.inl ⟨?_, ?_⟩)
        · rw [eq_encode_append htaken, hrest, encode_nil, List.append_nil]
          rfl
        · rw [htail]
          rfl
      · exact .inr (.inr hnumber)
    line := congrArg Position.line (place_eq h)
    column := congrArg Position.column (place_eq h) }

/-- More glyphs have no fewer bytes. -/
theorem length_encode_le (front piece : List Glyph) :
    (encode front).length ≤ (encode (front ++ piece)).length := by
  rw [encode_append, List.length_append]
  exact Nat.le_add_right _ _

/-- At the end of a source, nothing but blanks and comments is left. -/
theorem layout_end {source : List UInt8} {front gap : List Glyph}
    (h : decode source = front ++ gap) (hgap : Separator true (encode gap)) :
    Layout source (encode front).length [endSpan (front ++ gap)] := by
  have hend : decode source = front ++ gap ++ [] := by rwa [List.append_nil]
  -- The end of the source is behind everything that was cut.
  have hstop : (encode (front ++ gap)).length = source.length := by
    rw [← h, encode_decode]
  exact {
    exact := by
      intro s hs
      rw [List.mem_singleton.1 hs]
      exact exact_endSpan hend
    increasing := List.pairwise_singleton _ _
    gaps := by
      have hslice := slice_encode hend
      refine ⟨length_encode_le front gap, ?_, trivial⟩
      show Separator true (slice source (encode front).length (encode (front ++ gap)).length)
      rw [hslice]
      exact hgap
    ends := ⟨[], endSpan (front ++ gap), rfl, rfl, hstop, hstop, List.forall_mem_nil _⟩ }

/-- A token in front of others. -/
theorem Layout.cons {source : List UInt8} {front gap : List Glyph} {g : Glyph} {rest : List Glyph}
    {spans : List Span} (h : decode source = front ++ gap ++ g :: rest)
    (hgap : Separator false (encode gap))
    (hspans : Layout source (encode (front ++ gap ++ (cut g rest).taken)).length spans) :
    Layout source (encode front).length ((cut g rest).span (front ++ gap) :: spans) := by
  obtain ⟨body, last, rfl, hlast, hstart, hstop, hbody⟩ := hspans.ends
  have hlater := start_le_of_gaps (fun s hs => (hspans.exact s hs).bounds.1) hspans.gaps
  -- The token takes at least one glyph, and no glyph is without bytes.
  have hlonger : (encode (front ++ gap)).length
      < (encode (front ++ gap ++ (cut g rest).taken)).length := by
    obtain ⟨t, ts, htaken⟩ := List.exists_cons_of_ne_nil (cuts_cut g rest).taken_ne_nil
    have hpos := length_bytes_pos t
    rw [htaken, encode_append (front ++ gap), List.length_append, encode_cons, List.length_append]
    omega
  exact {
    exact := List.forall_mem_cons.2 ⟨exact_span h, hspans.exact⟩
    increasing := by
      apply List.Pairwise.cons
      · intro s hs
        exact Nat.lt_of_lt_of_le hlonger (hlater s hs)
      · exact hspans.increasing
    gaps := by
      refine ⟨length_encode_le front gap, ?_, hspans.gaps⟩
      show Separator (body ++ [last]).isEmpty
        (slice source (encode front).length (encode (front ++ gap)).length)
      have hmore : (body ++ [last]).isEmpty = false := by simp
      rw [slice_encode h, hmore]
      exact hgap
    ends := by
      refine ⟨(cut g rest).span (front ++ gap) :: body, last, rfl, hlast, hstart, hstop, ?_⟩
      exact List.forall_mem_cons.2 ⟨(cuts_cut g rest).regular.kind, hbody⟩ }

/-- The spans of what is left of a source, in the order of the scanning. -/
theorem layout_scanFrom {source : List UInt8} {front src : List Glyph} {p : Position}
    (hp : p = Position.start.after front) (h : decode source = front ++ src) :
    ∃ spans, spans.map (·.token) = scanFrom p src ∧ Layout source (encode front).length spans := by
  have hsrc : ∀ g ∈ src, g.IsDecoded := by
    intro g hg
    have hdecoded : g ∈ decode source → g.IsDecoded := isDecoded_of_mem_decode
    apply hdecoded
    rw [h]
    exact List.mem_append_right front hg
  fun_induction scanFrom p src generalizing front with
  | case1 p src q hskip =>
    obtain ⟨gap, rfl, rfl, hgap⟩ := skip_separates hsrc hskip
    rw [List.append_nil] at h
    refine ⟨[endSpan (front ++ gap)], ?_, layout_end h hgap⟩
    rw [hp, ← after_append]
    rfl
  | case2 p src q g rest hskip c =>
    rename_i ih
    obtain ⟨gap, rfl, rfl, hgap⟩ := skip_separates hsrc hskip
    rw [← List.append_assoc] at h
    -- The place of the token counts the gap.
    have hplace : p.after gap = Position.start.after (front ++ gap) := by
      rw [hp, after_append]
    have hrest : decode source = front ++ gap ++ (cut g rest).taken ++ (cut g rest).rest := by
      rw [List.append_assoc _ (cut g rest).taken, cut_append]
      exact h
    have hsrc' : ∀ k ∈ (cut g rest).rest, k.IsDecoded := by
      intro k hk
      apply hsrc k
      rw [← cut_append g rest]
      exact List.mem_append_right gap (List.mem_append_right _ hk)
    obtain ⟨spans, hspans, hlayout⟩ :=
      ih (by rw [after_append, hplace]) hrest hsrc'
    refine ⟨(cut g rest).span (front ++ gap) :: spans, ?_, hlayout.cons h hgap⟩
    show (cut g rest).token (Position.start.after (front ++ gap)) :: spans.map (·.token) = _
    rw [hspans, ← hplace]

/-- Scanning is lossless and places are exact: the tokens of a source without a NUL byte lie in it
in order, from its start to its end. -/
theorem layout_scan (source : List UInt8) (h : ascii '\x00' ∉ source) :
    ∃ spans, spans.map (·.token) = scan (decode source) ∧ Layout source 0 spans := by
  have hwhole : untilNul (decode source) = decode source := by
    apply List.takeWhile_eq_self_iff.2
    intro g hg
    rw [decide_eq_true_eq]
    rintro rfl
    apply h
    rw [← encode_decode source]
    exact (ascii_mem_encode (fun _ => isDecoded_of_mem_decode) (by decide)).2 hg
  unfold scan
  rw [hwhole]
  have hfront : decode source = [] ++ decode source := rfl
  exact layout_scanFrom rfl hfront

/-- A comment, a string over two lines and a stray byte: `# a`, `"b`, `"` and the byte 255. -/
theorem layout_scan_lines :
    ascii '\x00' ∉ ([35, 32, 97, 10, 34, 98, 10, 34, 255] : List UInt8) ∧
      ∃ spans, spans.map (·.token) = scan (decode [35, 32, 97, 10, 34, 98, 10, 34, 255]) ∧
        Layout [35, 32, 97, 10, 34, 98, 10, 34, 255] 0 spans :=
  ⟨by decide, layout_scan _ (by decide)⟩

end ClassScript.Token
