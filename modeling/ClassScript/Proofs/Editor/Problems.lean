import ClassScript.Editor.Server
import ClassScript.Proofs.Analysis
import ClassScript.Proofs.Editor.Lines

/-!
# Where problems are shown

An editor marks a problem from its token on, in one line and as far as the lexeme is long. The range
always begins in the document, at the token. It covers what the token spells exactly where this has
no line feed in it. A string can have one, and the range then ends behind the end of its line; the
lexeme of an illegal token is a complaint, with a length of its own.
-/

namespace ClassScript.Editor

namespace Range

/-- A range that begins in a line of a document and goes on in this line. -/
structure BeginsIn (r : Range) (text : String) (line : List Char) : Prop where
  /-- The line is one of the document. -/
  exists_line : (documentLines text.toList)[r.start.line.toNat]? = some line
  /-- The range begins within it. -/
  start : r.start.character.toNat ≤ line.length
  /-- The range does not go on to another line. -/
  stop : r.stop.line = r.start.line
  /-- The range does not go back. -/
  ordered : r.start.character ≤ r.stop.character

/-- A range that lies in a line and covers given characters of it. -/
structure Covers (r : Range) (line word : List Char) : Prop where
  /-- The range ends within the line. -/
  within : r.stop.character.toNat ≤ line.length
  /-- The characters between its ends. -/
  taken : (line.take r.stop.character.toNat).drop r.start.character.toNat = word

end Range

/-! ### Places in words of 32 bits -/

/-- A number from one on that fits the words of an editor becomes the number from zero on. -/
theorem toNat_ofOneBased {n : Nat} (hpos : 0 < n) (hn : n ≤ 2 ^ 32) :
    (ofOneBased (Int64.ofNat n).toInt).toNat = n - 1 := by
  have hone : (Int64.ofNat n - 1 : Int64) = Int64.ofNat (n - 1) :=
    (Int64.ofNat_sub n 1 hpos).symm
  have hvalue : (Int64.ofNat (n - 1)).toInt = ((n - 1 : Nat) : Int) :=
    Int64.toInt_ofNat_of_lt (by omega)
  have hsmall : ((n - 1 : Nat) : Int) % 2 ^ 32 = (n - 1 : Nat) :=
    Int.emod_eq_of_lt (Int.natCast_nonneg _) (by omega)
  rw [ofOneBased, Int64.ofInt_toInt, hone, hvalue, Int.max_eq_left (Int.natCast_nonneg _),
    UInt32.ofInt, hsmall, Int.toNat_natCast]
  exact UInt32.toNat_ofNat_of_lt' (show n - 1 < 2 ^ 32 by omega)

/-- The ends of the range of a lexeme behind a part of a document. -/
theorem toNat_ofLexeme {front back line : List Char} {lexeme : String}
    (h : LineAt front back line) (hsize : (front ++ back).length < 2 ^ 31)
    (hlexeme : lexeme.length ≤ back.length + 22) :
    let p := placeBehind front
    let r := Range.ofLexeme (Int64.ofNat p.line).toInt (Int64.ofNat p.column).toInt lexeme
    r.start.line.toNat = p.line - 1 ∧ r.start.character.toNat = line.length ∧
      r.stop.character.toNat = line.length + lexeme.length := by
  intro p r
  have hline : 0 < p.line := by
    obtain ⟨earlier, _, -, -, hearlier⟩ := h.lines
    exact hearlier ▸ Nat.succ_pos _
  have hlineLe : p.line ≤ (front ++ back).length + 1 := h.line_le
  have hcolumn : p.column = line.length + 1 := h.column
  have hlineLength : line.length ≤ front.length := h.suffix.length_le
  -- The sizes are within 32 bits, so nothing wraps around.
  rw [List.length_append] at hsize hlineLe
  have hstart : r.start.character.toNat = line.length := by
    rw [show line.length = p.column - 1 by omega]
    exact toNat_ofOneBased (by omega) (by omega)
  have hlength : (UInt32.ofNat lexeme.length).toNat = lexeme.length :=
    UInt32.toNat_ofNat_of_lt' (show lexeme.length < 2 ^ 32 by omega)
  refine ⟨toNat_ofOneBased hline (by omega), hstart, ?_⟩
  change (r.start.character + UInt32.ofNat lexeme.length).toNat = _
  rw [UInt32.toNat_add, hstart, hlength, Nat.mod_eq_of_lt (by omega)]

/-! ### Tokens in lines -/

/-- A range that begins at a place of a line covers what follows there if and only if this has no
line feed in it. -/
theorem covers_iff {r : Range} {line word back : List Char} (hword : word <+: back)
    (hstart : r.start.character.toNat = line.length)
    (hstop : r.stop.character.toNat = line.length + word.length) :
    r.Covers (line ++ lineRest back) word ↔ '\n' ∉ word := by
  have htaken : ((line ++ lineRest back).take r.stop.character.toNat).drop
      r.start.character.toNat = (lineRest back).take word.length := by
    rw [hstop, hstart, List.take_length_add_append, List.drop_left]
  -- A line ends in front of its line feed, so no part of it has one.
  constructor
  · rintro ⟨-, hcovered⟩ hmem
    rw [← hcovered, htaken] at hmem
    exact newline_notMem_lineRest back (List.mem_of_mem_take hmem)
  · intro hmem
    obtain ⟨rest, rfl⟩ := hword
    rw [lineRest_append hmem] at htaken ⊢
    refine ⟨?_, htaken.trans List.take_left⟩
    rw [hstop, List.length_append, List.length_append]
    omega

/-- The range of a diagnostic at a token, where the token spells nothing at the end. -/
theorem range_ofDiagnostic (kind : Diagnostic.Kind) {t : Token} (message : String)
    (heof : t.kind = .eof → t.lexeme = "") :
    (Problem.ofDiagnostic (.atToken kind t message)).range =
      .ofLexeme (Int64.ofNat t.line).toInt (Int64.ofNat t.column).toInt t.lexeme := by
  have hlexeme : (if decide (t.kind = .eof) then "" else t.lexeme) = t.lexeme := by
    split
    · next hkind => exact (heof (of_decide_eq_true hkind)).symm
    · rfl
  exact congrArg (Range.ofLexeme _ _) hlexeme

/-- The problems of a document are shown at its tokens. In a document of fewer than 2^31 characters
the range of a problem begins in a line of it, at the token, and is empty at the document's end.
Unless the token is illegal, the range covers what the token spells if and only if this has no line
feed in it. -/
theorem problem_range_covers_iff {text : String} {a : Analysis}
    (h : Analysis.ofSource? text = some a) (hsize : text.length < 2 ^ 31) {d : Diagnostic}
    (hd : d ∈ a.diagnostics) :
    let range := (Problem.ofDiagnostic d).range
    ∃ t ∈ Token.scanText text, ∃ line, d = .atToken d.kind t d.message ∧
      range.BeginsIn text line ∧ (t.kind = .eof → range.stop = range.start) ∧
      (t.kind ≠ .illegal →
        (range.Covers line t.lexeme.toList ↔ '\n' ∉ t.lexeme.toList)) := by
  intro range
  -- The problem is at a token, which stands at a place, which is in a line.
  obtain ⟨t, ht, hat⟩ := (Analysis.within_ofSource? h).diagnostics d hd
  obtain ⟨front, back, htext, hposition, heof, hspelling, hlength⟩ := exists_place ht
  obtain ⟨line, hline⟩ := exists_lineAt front back
  have hrange : range = .ofLexeme (Int64.ofNat (placeBehind front).line).toInt
      (Int64.ofNat (placeBehind front).column).toInt t.lexeme := by
    rw [← hposition]
    exact (congrArg (fun d => (Problem.ofDiagnostic d).range) hat).trans
      (range_ofDiagnostic d.kind d.message heof)
  rw [← String.length_toList, htext] at hsize
  obtain ⟨hrow, hstart, hstop⟩ := toNat_ofLexeme hline hsize hlength
  rw [← hrange] at hrow hstart hstop
  refine ⟨t, ht, line ++ lineRest back, hat, ⟨?_, ?_, ?_, ?_⟩, fun hkind => ?_, fun hlegal => ?_⟩
  · rw [htext, hrow]
    exact hline.getElem?_eq
  · rw [hstart, List.length_append]
    exact Nat.le_add_right _ _
  · rw [hrange]
    rfl
  · -- The range does not end in front of where it begins.
    rw [UInt32.le_iff_toNat_le, hstart, hstop]
    exact Nat.le_add_right _ _
  · rw [hrange, heof hkind]
    exact congrArg (Position.mk _) (UInt32.add_zero _)
  · exact covers_iff (hspelling hlegal) hstart (by rw [hstop, String.length_toList])

/-- A result outside of every function, which is marked in the second line. -/
theorem problem_range_covers_iff_return :
    ∃ a, Analysis.ofSource? "var s = 1\nreturn s" = some a ∧ ∃ d ∈ a.diagnostics,
      (Problem.ofDiagnostic d).range = ⟨⟨1, 0⟩, ⟨1, 6⟩⟩ ∧
      (Problem.ofDiagnostic d).range.Covers "return s".toList "return".toList := by
  let text := "var s = 1\nreturn s"
  have hfound : (Analysis.ofSource? text).any (fun a => a.diagnostics.any fun d =>
      (Problem.ofDiagnostic d).range = ⟨⟨1, 0⟩, ⟨1, 6⟩⟩ && d.lexeme = "return") = true := by
    decide +kernel
  have hlegal : ∀ u ∈ Token.scanText text, u.kind ≠ .illegal := by decide +kernel
  obtain ⟨a, ha, hany⟩ := (Option.any_eq_true _ _).1 hfound
  obtain ⟨d, hd, hshown⟩ := List.any_eq_true.1 hany
  rw [Bool.and_eq_true, decide_eq_true_eq, decide_eq_true_eq] at hshown
  obtain ⟨hrange, hlexeme⟩ := hshown
  -- The general theorem gives the token and its line; both are found by computing.
  obtain ⟨t, ht, line, hat, hbegins, -, hcovers⟩ :=
    problem_range_covers_iff ha (by decide +kernel) hd
  have hspelled : t.lexeme = "return" := by
    rw [← hlexeme, hat]
    rfl
  have hline : (documentLines text.toList)[1]? = some line := by
    rw [← hbegins.exists_line, hrange]
    rfl
  obtain rfl : "return s".toList = line := Option.some.inj (by rw [← hline]; decide +kernel)
  rw [hspelled] at hcovers
  exact ⟨a, ha, d, hd, hrange, (hcovers (hlegal t ht)).2 (by decide)⟩

/-- A string of two lines where a name is expected is marked behind the end of its first line. -/
theorem problem_range_leaves_line :
    ¬ ∀ (text : String) (a : Analysis), Analysis.ofSource? text = some a → ∀ d ∈ a.diagnostics,
      ∃ line, (documentLines text.toList)[(Problem.ofDiagnostic d).range.start.line.toNat]? =
          some line ∧
        (Problem.ofDiagnostic d).range.stop.character.toNat ≤ line.length := by
  intro hall
  let text := "class \"a\nb\""
  have hfound : (Analysis.ofSource? text).any (fun a => a.diagnostics.any fun d =>
      (Problem.ofDiagnostic d).range = ⟨⟨0, 6⟩, ⟨0, 11⟩⟩) = true := by
    decide +kernel
  obtain ⟨a, ha, hany⟩ := (Option.any_eq_true _ _).1 hfound
  obtain ⟨d, hd, hshown⟩ := List.any_eq_true.1 hany
  obtain ⟨line, hline, hstop⟩ := hall text a ha d hd
  rw [of_decide_eq_true hshown] at hline hstop
  -- The line has eight characters, and the range ends at the eleventh.
  obtain rfl : "class \"a".toList = line := Option.some.inj (by rw [← hline]; decide +kernel)
  revert hstop
  decide

end ClassScript.Editor
