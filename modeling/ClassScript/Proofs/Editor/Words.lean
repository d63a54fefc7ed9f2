import ClassScript.Proofs.Editor.Lines

/-!
# The word at a place is the token there

An editor reads the word at a place from the characters around it, without the scanner. If no token
of the document is illegal, this is the name or reserved word that the scanner finds there. Only
digits can stand right in front of such a token and look like a part of it.
-/

namespace ClassScript.Editor

open Token (isWordPart isWordLike)

/-! ### Characters of words -/

/-- The editor takes the same glyphs for parts of words as the boundaries of tokens do. -/
theorem isWordChar_toChar (g : Glyph) : isWordChar g.toChar = isWordLike g := by
  unfold isWordChar isWordLike Token.isWordStart
  cases Text.isLetter g.toChar <;> cases Text.isDecimalDigit g.toChar <;>
    simp

/-- The character in front of a token in its line. -/
def charBefore? (text : String) (t : Token) : Option Char :=
  (documentLines text.toList)[t.line - 1]?.bind fun line => (line.take (t.column - 1)).getLast?

/-- A word of a document: no part of a word follows, and of what looks like such a part only digits
can stand in front. -/
structure WordAt (text : String) (t : Token) (front word back : List Char) : Prop where
  /-- The document. -/
  text : text.toList = front ++ (word ++ back)
  /-- The token stands behind the first part. -/
  position : t.position = placeBehind front
  /-- The token is the word. -/
  lexeme : t.lexeme.toList = word
  /-- The word consists of characters of words. -/
  inside : ∀ c ∈ word, isWordChar c = true
  /-- In front of it there is another character, or a digit. -/
  before : ∀ c, front.getLast? = some c → isWordChar c = true → c.isDigit = true
  /-- Behind it there is another character. -/
  behind : ∀ c, back.head? = some c → isWordChar c = false

/-- What is left of a source behind a word does not begin with what looks like a part of a word. -/
theorem head?_behind_word {src tail : List Glyph} {y : Glyph}
    (hlegal : ∀ y, (src.dropWhile isWordPart).head? = some y → isWordLike y = true →
      isWordPart y = true)
    (htail : ∀ y, tail.head? = some y → y = .char '\x00')
    (hy : (src.dropWhile isWordPart ++ tail).head? = some y) : isWordLike y = false := by
  rw [List.head?_append] at hy
  -- Either the source ends behind the word, or the next glyph is one that stopped it.
  cases hrest : (src.dropWhile isWordPart).head? with
  | none =>
    rw [hrest, Option.none_or] at hy
    rw [htail y hy]
    decide +kernel
  | some z =>
    rw [hrest] at hy
    obtain rfl : z = y := Option.some.inj hy
    have hpart : isWordPart z = false := by
      have hnot := List.head?_dropWhile_not isWordPart src
      rwa [hrest] at hnot
    by_contra hlike
    rw [hlegal z hrest (Bool.of_not_eq_false hlike)] at hpart
    cases hpart

/-- If no token is illegal, names and reserved words are words of the document. -/
theorem exists_wordAt {text : String} {t : Token}
    (hlegal : ∀ u ∈ Token.scanText text, u.kind ≠ .illegal) (ht : t ∈ Token.scanText text)
    (hkind : t.kind.IsWord) : ∃ front word back, WordAt text t front word back := by
  obtain ⟨tail, hsrc, hnul⟩ := exists_untilNul_append (Glyph.ofString text)
  rcases @Token.exists_cut _ [] _ _ rfl ht with rfl | ⟨front, g, rest, hsplit, rfl, hcut⟩
  · exact absurd hkind (show ¬ Token.Kind.IsWord .eof by decide)
  have hfront : Token.Apart [] (Token.untilNul (Glyph.ofString text)) := by
    intro x hx
    cases hx
  obtain ⟨hapart, hbehind⟩ := hcut hfront hlegal
  obtain ⟨hstart, hword⟩ := (Token.cuts_cut g rest).eq_cutWord hkind
  rw [hword] at hbehind
  -- the source, cut in three, and its characters
  rw [List.nil_append] at hsplit
  rw [hsplit, List.append_assoc,
    ← List.takeWhile_append_dropWhile (p := isWordPart) (l := g :: rest), List.append_assoc] at hsrc
  obtain ⟨front', others, htext, rfl, hothers⟩ := exists_split_ofString hsrc
  obtain ⟨word, back, rfl, htaken, hleft⟩ := List.map_eq_append_iff.1 hothers.symm
  refine ⟨front', word, back, htext, rfl, ?_, ?_, ?_, ?_⟩
  · rw [hword]
    change (Glyph.text ((g :: rest).takeWhile isWordPart)).toList = word
    rw [← htaken, toList_text_map]
  · intro c hc
    have hmem : Glyph.char c ∈ (g :: rest).takeWhile isWordPart :=
      htaken ▸ List.mem_map_of_mem hc
    rw [show c = (Glyph.char c).toChar from rfl, isWordChar_toChar]
    exact Token.isWordLike_of_isWordPart (List.mem_takeWhile_imp hmem)
  · intro c hc hlike
    have hlast : (front'.map Glyph.char).getLast? = some (.char c) := by
      rw [List.getLast?_map, hc]
      rfl
    rw [show c = (Glyph.char c).toChar from rfl, isWordChar_toChar] at hlike
    refine (hapart _ hlast hlike).resolve_right fun hnot => ?_
    have hg := hnot g rfl
    rw [isWordPart, hstart] at hg
    cases hg
  · intro c hc
    have hhead : ((g :: rest).dropWhile isWordPart ++ tail).head? = some (.char c) := by
      rw [← hleft, List.head?_map, hc]
      rfl
    rw [show c = (Glyph.char c).toChar from rfl, isWordChar_toChar]
    exact head?_behind_word hbehind hnul hhead

/-! ### Words and lines -/

/-- No word has a line feed. -/
theorem newline_notMem_of_isWordChar {word : List Char} (h : ∀ c ∈ word, isWordChar c = true) :
    '\n' ∉ word := by
  intro hmem
  have hword := h _ hmem
  revert hword
  decide +kernel

/-- The first character that is left of a line is the first one that is left of the document. -/
theorem head?_lineRest {back : List Char} {c : Char} (h : (lineRest back).head? = some c) :
    back.head? = some c := by
  obtain ⟨rest, hrest⟩ := List.head?_eq_some_iff.1 h
  obtain ⟨others, hothers⟩ := List.takeWhile_prefix (p := fun c => decide (c ≠ '\n')) (l := back)
  rw [← hothers, show back.takeWhile _ = c :: rest from hrest]
  rfl

/-- Where no part of a word comes next, nothing is taken. -/
theorem takeWhile_eq_nil {cs : List Char} (h : ∀ c, cs.head? = some c → isWordChar c = false) :
    cs.takeWhile isWordChar = [] := by
  cases cs with
  | nil => rfl
  | cons c rest => exact List.takeWhile_cons_of_neg (by rw [h c rfl]; exact Bool.false_ne_true)

/-- The word at a place within a word, or at one of its ends. -/
theorem word_of_line {line word rest : List Char} {k : Nat} (hk : k ≤ word.length)
    (hinside : ∀ c ∈ word, isWordChar c = true)
    (hbefore : ∀ c, line.getLast? = some c → isWordChar c = false)
    (hbehind : ∀ c, rest.head? = some c → isWordChar c = false) :
    CutLine.word { before := ((line ++ (word ++ rest)).take (line.length + k)).reverse
                   after := (line ++ (word ++ rest)).drop (line.length + k) } = word := by
  -- The place cuts the word in two, and the rest of the line adds nothing on either side.
  have htake : (line ++ (word ++ rest)).take (line.length + k) = line ++ word.take k := by
    rw [List.take_length_add_append, List.take_append_of_le_length hk]
  have hdrop : (line ++ (word ++ rest)).drop (line.length + k) = word.drop k ++ rest := by
    rw [List.drop_length_add_append, List.drop_append_of_le_length hk]
  have hline : line.reverse.takeWhile isWordChar = [] :=
    takeWhile_eq_nil fun c hc => hbefore c (List.head?_reverse ▸ hc)
  have hrest : rest.takeWhile isWordChar = [] := takeWhile_eq_nil hbehind
  have htaken : ∀ c ∈ (word.take k).reverse, isWordChar c = true := fun c hc =>
    hinside c (List.mem_of_mem_take (List.mem_reverse.1 hc))
  have hdropped : ∀ c ∈ word.drop k, isWordChar c = true := fun c hc =>
    hinside c (List.mem_of_mem_drop hc)
  rw [CutLine.word, CutLine.fragment, htake, hdrop, List.reverse_append,
    List.takeWhile_append_of_pos htaken, hline, List.takeWhile_append_of_pos hdropped, hrest,
    List.append_nil, List.append_nil, List.reverse_reverse, List.take_append_drop]

/-- The character in front of a token is the last one of what its line has there. -/
theorem charBefore?_eq_getLast? {text : String} {t : Token} {line rest : List Char}
    (hline : (documentLines text.toList)[t.line - 1]? = some (line ++ rest))
    (hcolumn : t.column = line.length + 1) : charBefore? text t = line.getLast? := by
  rw [charBefore?, hline, hcolumn, Nat.add_sub_cancel]
  change ((line ++ rest).take line.length).getLast? = line.getLast?
  rw [List.take_left]

/-- If no token is illegal, then the word at a place within a name or reserved word, or at one of
its ends, is that token, unless a digit stands in front of it. -/
theorem wordAt_eq_lexeme {text : String} {t : Token} {p : Position}
    (hlegal : ∀ u ∈ Token.scanText text, u.kind ≠ .illegal) (ht : t ∈ Token.scanText text)
    (hkind : t.kind = .identifier ∨ t.kind ∈ Token.Kind.keywords)
    (hdigit : ∀ c, charBefore? text t = some c → c.isDigit = false)
    (hp : p.touches t = true) : wordAt text p = t.lexeme := by
  obtain ⟨front, word, back, h⟩ := exists_wordAt hlegal ht hkind
  obtain ⟨line, hline⟩ := exists_lineAt front (word ++ back)
  have hwhole := hline.getElem?_eq
  rw [← h.text, ← h.position, lineRest_append (newline_notMem_of_isWordChar h.inside)] at hwhole
  change (documentLines text.toList)[t.line - 1]? = some (line ++ (word ++ lineRest back)) at hwhole
  have hcolumn : t.column = line.length + 1 := by
    rw [← hline.column, ← h.position]
    rfl
  -- the place is in the line of the token, and between its ends
  simp only [Position.touches, Bool.and_eq_true, decide_eq_true_eq] at hp
  obtain ⟨⟨⟨hrow, -⟩, hleft⟩, hright⟩ := hp
  rw [← String.length_toList, h.lexeme] at hright
  obtain ⟨k, hk⟩ := Nat.exists_eq_add_of_le (show line.length ≤ p.character.toNat by omega)
  have hcut : cutLine? text p = some
      { before := ((line ++ (word ++ lineRest back)).take (line.length + k)).reverse
        after := (line ++ (word ++ lineRest back)).drop (line.length + k) } := by
    have hindex : p.line.toNat = t.line - 1 := by omega
    rw [cutLine?, hindex, hwhole, hk]
    rfl
  have hbefore : ∀ c, line.getLast? = some c → isWordChar c = false := by
    intro c hc
    have hfront : front.getLast? = some c := by
      obtain ⟨before, rfl⟩ := hline.suffix
      rw [List.getLast?_append, hc]
      rfl
    have hchar : charBefore? text t = some c :=
      (charBefore?_eq_getLast? hwhole hcolumn).trans hc
    by_contra hlike
    have hisDigit := h.before c hfront (Bool.of_not_eq_false hlike)
    rw [hdigit c hchar] at hisDigit
    cases hisDigit
  have hbehind : ∀ c, (lineRest back).head? = some c → isWordChar c = false :=
    fun c hc => h.behind c (head?_lineRest hc)
  rw [wordAt, partAt, hcut]
  change String.ofList (CutLine.word _) = t.lexeme
  rw [word_of_line (by omega) h.inside hbefore hbehind, ← h.lexeme, String.ofList_toList]

/-- A place behind a name, with a string of two lines and letters of another script in front. -/
theorem wordAt_eq_lexeme_behind : wordAt "var s = \"a\nb\" é.count" ⟨1, 10⟩ = "count" := by
  let text := "var s = \"a\nb\" é.count"
  have hlegal : ∀ u ∈ Token.scanText text, u.kind ≠ .illegal := by decide +kernel
  obtain ⟨t, ht, hkind, hlexeme, hbefore, htouches⟩ : ∃ t ∈ Token.scanText text,
      t.kind = .identifier ∧ t.lexeme = "count" ∧ charBefore? text t = some '.' ∧
        Position.touches ⟨1, 10⟩ t = true := by
    decide +kernel
  have hdigit : ∀ c, charBefore? text t = some c → c.isDigit = false := by
    rw [hbefore]
    rintro _ ⟨⟩
    decide
  rw [wordAt_eq_lexeme hlegal ht (.inl hkind) hdigit htouches, hlexeme]

end ClassScript.Editor
