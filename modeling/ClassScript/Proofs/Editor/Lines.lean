import Mathlib.Data.List.Induction
import ClassScript.Editor.Word
import ClassScript.Proofs.Token.Cuts
import ClassScript.Proofs.Token.Places

/-!
# The lines of a document

The scanner counts lines and columns glyph by glyph, and an editor splits a document into lines.
Both agree on every place: behind some characters of a document, the line of the scanner's place is
one of the document, and the column is behind those of the characters that belong to it.
-/

namespace ClassScript.Editor

/-- What is left of a line in front of a character. -/
def lineRest (back : List Char) : List Char := back.takeWhile (· ≠ '\n')

/-- The place of the scanner behind characters. -/
def placeBehind (front : List Char) : Token.Position := Token.Position.start.after (front.map .char)

/-! ### Lines and places -/

/-- A character that does not end the line belongs to it. -/
theorem lineRest_cons {c : Char} (hc : c ≠ '\n') (back : List Char) :
    lineRest (c :: back) = c :: lineRest back :=
  List.takeWhile_cons_of_pos (decide_eq_true hc)

/-- Characters of one line. -/
theorem lineRest_append {word : List Char} (h : '\n' ∉ word) (back : List Char) :
    lineRest (word ++ back) = word ++ lineRest back := by
  refine List.takeWhile_append_of_pos fun c hc => decide_eq_true ?_
  rintro rfl
  exact h hc

/-- What is left of a line has no line feed. -/
theorem newline_notMem_lineRest (back : List Char) : '\n' ∉ lineRest back := by
  intro h
  have hne := List.mem_takeWhile_imp (p := fun c => decide (c ≠ '\n')) h
  exact of_decide_eq_true hne rfl

/-- A line feed ends an empty line in front of the others. -/
theorem documentLines_newline (back : List Char) :
    documentLines ('\n' :: back) = [] :: documentLines back := rfl

/-- Another character is put in front of the first line. -/
theorem documentLines_cons {c : Char} (hc : c ≠ '\n') {back : List Char}
    {others : List (List Char)} (h : documentLines back = lineRest back :: others) :
    documentLines (c :: back) = lineRest (c :: back) :: others := by
  rw [documentLines, if_neg hc, h, lineRest_cons hc]

/-- The first line of a document is what is left of the line in front of its first character. -/
theorem exists_documentLines_eq (back : List Char) :
    ∃ others, documentLines back = lineRest back :: others := by
  induction back with
  | nil => exact ⟨[], rfl⟩
  | cons c rest ih =>
    by_cases hc : c = '\n'
    · subst hc
      exact ⟨documentLines rest, rfl⟩
    · obtain ⟨others, hrest⟩ := ih
      exact ⟨others, documentLines_cons hc hrest⟩

/-- A document has at most one line more than it has characters. -/
theorem length_documentLines_le (cs : List Char) : (documentLines cs).length ≤ cs.length + 1 := by
  induction cs with
  | nil => exact Nat.le_refl _
  | cons c rest ih =>
    by_cases hc : c = '\n'
    · subst hc
      exact Nat.add_le_add_right ih 1
    · obtain ⟨others, hrest⟩ := exists_documentLines_eq rest
      rw [hrest] at ih
      rw [documentLines_cons hc hrest]
      exact Nat.le_succ_of_le ih

/-- The place behind one more character is the next one. -/
theorem placeBehind_concat (front : List Char) (c : Char) :
    placeBehind (front ++ [c]) = (placeBehind front).next (.char c) := by
  rw [placeBehind, List.map_append, Token.after_append]
  rfl

/-- The line of a place between two parts of a document, with what it has in front of the place. -/
structure LineAt (front back line : List Char) : Prop where
  /-- In front of the place, a line is the end of the document so far. -/
  suffix : line <:+ front
  /-- The column is the one behind this. -/
  column : (placeBehind front).column = line.length + 1
  /-- The document has as many lines in front of this one as the scanner counts, and the same lines
  behind it as what is left of the document. -/
  lines : ∃ earlier others,
    documentLines (front ++ back) = earlier ++ (line ++ lineRest back) :: others ∧
      documentLines back = lineRest back :: others ∧
      (placeBehind front).line = earlier.length + 1

/-- Behind a line feed, a line begins. -/
theorem LineAt.newline {front back line : List Char} (h : LineAt front ('\n' :: back) line) :
    LineAt (front ++ ['\n']) back [] := by
  obtain ⟨-, -, earlier, others, hlines, hback, hline⟩ := h
  obtain ⟨others', hback'⟩ := exists_documentLines_eq back
  rw [documentLines_newline, hback'] at hback
  obtain ⟨hempty, rfl⟩ := List.cons.inj hback
  -- The line in front of the line feed is complete, and the next one starts empty.
  have hlines' : documentLines (front ++ ['\n'] ++ back) =
      earlier ++ [line] ++ ([] ++ lineRest back) :: others' := by
    rw [← List.append_cons, hlines, ← hempty, List.append_nil, List.append_assoc]
    rfl
  refine ⟨List.nil_suffix, ?_, earlier ++ [line], others', hlines', hback', ?_⟩
  · rw [placeBehind_concat]
    rfl
  · rw [placeBehind_concat, List.length_append]
    exact congrArg (· + 1) hline

/-- Behind any other character, the line goes on. -/
theorem LineAt.concat {front back line : List Char} {c : Char} (h : LineAt front (c :: back) line)
    (hc : c ≠ '\n') : LineAt (front ++ [c]) back (line ++ [c]) := by
  obtain ⟨⟨before, hbefore⟩, hcolumn, earlier, others, hlines, hback, hline⟩ := h
  obtain ⟨others', hback'⟩ := exists_documentLines_eq back
  rw [documentLines_cons hc hback'] at hback
  obtain ⟨-, rfl⟩ := List.cons.inj hback
  -- The lines of the document are the same; only the cut in this one is further on.
  have hlines' : documentLines (front ++ [c] ++ back) =
      earlier ++ (line ++ [c] ++ lineRest back) :: others' := by
    rw [← List.append_cons, hlines, lineRest_cons hc, List.append_cons line]
  have hnext : (placeBehind front).next (.char c) =
      ⟨(placeBehind front).line, (placeBehind front).column + 1⟩ :=
    if_neg fun h => hc (Glyph.char.inj h)
  refine ⟨⟨before, ?_⟩, ?_, earlier, others', hlines', hback', ?_⟩
  · rw [← hbefore, List.append_assoc]
  · rw [placeBehind_concat, hnext, hcolumn, List.length_append]
    rfl
  · rw [placeBehind_concat, hnext, hline]

/-- Every place of a document is in a line. -/
theorem exists_lineAt (front back : List Char) : ∃ line, LineAt front back line := by
  induction front using List.reverseRecOn generalizing back with
  | nil =>
    obtain ⟨others, hback⟩ := exists_documentLines_eq back
    exact ⟨[], List.suffix_rfl, rfl, [], others, hback, hback, rfl⟩
  | append_singleton front c ih =>
    obtain ⟨line, hline⟩ := ih (c :: back)
    by_cases hc : c = '\n'
    · subst hc
      exact ⟨[], hline.newline⟩
    · exact ⟨line ++ [c], hline.concat hc⟩

/-- The whole line of a place. -/
theorem LineAt.getElem?_eq {front back line : List Char} (h : LineAt front back line) :
    (documentLines (front ++ back))[(placeBehind front).line - 1]? =
      some (line ++ lineRest back) := by
  obtain ⟨earlier, others, hlines, -, hline⟩ := h.lines
  rw [hlines, hline, Nat.add_sub_cancel, List.getElem?_append_right (Nat.le_refl _), Nat.sub_self]
  rfl

/-- There are not more lines than characters, but for the first one. -/
theorem LineAt.line_le {front back line : List Char} (h : LineAt front back line) :
    (placeBehind front).line ≤ (front ++ back).length + 1 := by
  obtain ⟨earlier, others, hlines, -, hline⟩ := h.lines
  have hlength := length_documentLines_le (front ++ back)
  rw [hlines, List.length_append, List.length_cons] at hlength
  omega

/-! ### Tokens -/

/-- A split of the glyphs of a text is one of its characters. -/
theorem exists_split_ofString {text : String} {front back : List Glyph}
    (h : Glyph.ofString text = front ++ back) :
    ∃ front' back', text.toList = front' ++ back' ∧ front = front'.map .char ∧
      back = back'.map .char := by
  obtain ⟨front', back', htext, hfront, hback⟩ := List.map_eq_append_iff.1 h
  exact ⟨front', back', htext, hfront.symm, hback.symm⟩

/-- The text of glyphs that are characters consists of these characters. -/
theorem toList_text_map (cs : List Char) : (Glyph.text (cs.map .char)).toList = cs := by
  have hchar : Glyph.toChar ∘ Glyph.char = id := rfl
  rw [Glyph.text, List.map_map, hchar, List.map_id, String.toList_ofList]

/-- The scanner reads a source up to a NUL character, or to its end. -/
theorem exists_untilNul_append (src : List Glyph) :
    ∃ tail, src = Token.untilNul src ++ tail ∧
      ∀ g, tail.head? = some g → g = .char '\x00' := by
  refine ⟨src.dropWhile (· ≠ .char '\x00'), List.takeWhile_append_dropWhile.symm, ?_⟩
  intro g hg
  have hnot := List.head?_dropWhile_not (fun g => decide (g ≠ Glyph.char '\x00')) src
  rw [hg] at hnot
  simpa using hnot

/-- Every token of a text stands at a place of it. What a token spells that is not illegal follows
there, and no complaint is much longer than what is left; the mark of the end spells nothing. -/
theorem exists_place {text : String} {t : Token} (ht : t ∈ Token.scanText text) :
    ∃ front back, text.toList = front ++ back ∧ t.position = placeBehind front ∧
      (t.kind = .eof → t.lexeme = "") ∧ (t.kind ≠ .illegal → t.lexeme.toList <+: back) ∧
      t.lexeme.length ≤ back.length + 22 := by
  obtain ⟨tail, hsrc, -⟩ := exists_untilNul_append (Glyph.ofString text)
  -- The mark of the end stands behind everything; any other token is cut from the text.
  rcases @Token.exists_cut _ [] _ _ rfl ht with rfl | ⟨front, g, rest, hsplit, rfl, -⟩
  · obtain ⟨front', back', htext, hfront, -⟩ := exists_split_ofString hsrc
    refine ⟨front', back', htext, ?_, fun _ => rfl, fun _ => List.nil_prefix, Nat.zero_le _⟩
    rw [List.nil_append, hfront]
    rfl
  · rw [List.nil_append] at hsplit
    rw [hsplit, List.append_assoc] at hsrc
    obtain ⟨front', back', htext, rfl, hback⟩ := exists_split_ofString hsrc
    rw [← Token.cut_append g rest, List.append_assoc] at hback
    obtain ⟨word, rest', rfl, htaken, -⟩ := List.map_eq_append_iff.1 hback.symm
    refine ⟨front', word ++ rest', htext, rfl,
      fun heof => absurd heof (Token.cuts_cut g rest).regular.kind, ?_, ?_⟩
    · intro hlegal
      have hlexeme : (Glyph.text (Token.cut g rest).spelling).toList = word := by
        rw [(Token.cuts_cut g rest).exact.spelling hlegal, ← htaken, toList_text_map]
      change (Glyph.text (Token.cut g rest).spelling).toList <+: word ++ rest'
      rw [hlexeme]
      exact List.prefix_append word rest'
    · -- Only a complaint may be longer than what was cut.
      have hbrief := (Token.cuts_cut g rest).brief
      rw [Token.Cut.Brief, ← htaken, List.length_map] at hbrief
      have hlexeme : (Glyph.text (Token.cut g rest).spelling).length =
          (Token.cut g rest).spelling.length := by
        rw [Glyph.text, String.length_ofList, List.length_map]
      rw [List.length_append]
      change (Glyph.text (Token.cut g rest).spelling).length ≤ _
      omega

end ClassScript.Editor
