import Mathlib.Data.List.TakeWhile
import ClassScript.Token.Scan

/-!
# A string literal stands for the text that it writes

A text is written between quotes, with a backslash in front of every quote and backslash; a newline
and a tab stand for themselves or are written as escapes (`Writes`). Scanning such a literal gives
one string token with the text as its value, whatever stands next to what in the text: the
induction goes along the writing, and `stringTail?` takes one or two glyphs for each of its
characters.
-/

namespace ClassScript.Token

/-- How the characters of a text may be written between the quotes of a literal. -/
inductive Writes : List Char → List Char → Prop where
  /-- The empty text. -/
  | nil : Writes [] []
  /-- A quote, behind a backslash. -/
  | quote {s text : List Char} : Writes s text → Writes ('"' :: s) ('\\' :: '"' :: text)
  /-- A backslash, behind another one. -/
  | backslash {s text : List Char} : Writes s text → Writes ('\\' :: s) ('\\' :: '\\' :: text)
  /-- A newline as an escape. -/
  | newline {s text : List Char} : Writes s text → Writes ('\n' :: s) ('\\' :: 'n' :: text)
  /-- A tab as an escape. -/
  | tab {s text : List Char} : Writes s text → Writes ('\t' :: s) ('\\' :: 't' :: text)
  /-- Any other character as itself, and so a newline or a tab. -/
  | plain {c : Char} {s text : List Char} : c ≠ '"' → c ≠ '\\' → Writes s text →
      Writes (c :: s) (c :: text)

/-- Writing a text brings no NUL character in. -/
theorem Writes.nul_not_mem {s text : List Char} (h : Writes s text) (hs : '\x00' ∉ s) :
    '\x00' ∉ text := by
  induction h with
  | nil => exact hs
  | plain _ _ _ ih => simp_all
  | _ _ ih => simp_all

/-! ### Behind the opening quote -/

/-- A glyph that is neither a quote nor a backslash stands for itself. -/
theorem stringTail?_cons {c : Char} {src : List Glyph} (hquote : c ≠ '"') (hback : c ≠ '\\')
    (hsrc : src ≠ []) :
    stringTail? (.char c :: src) = (stringTail? src).map (·.prepend [c] [.char c]) := by
  obtain ⟨g, rest, rfl⟩ := List.exists_cons_of_ne_nil hsrc
  rw [stringTail?, if_neg (by simpa using hquote), if_neg (by simpa using hback)]
  rfl

/-- A backslash and the glyph behind it are read together. -/
theorem stringTail?_escape (g : Glyph) (src : List Glyph) :
    stringTail? (.char '\\' :: g :: src) =
      (stringTail? src).map (·.prepend (unescape g) [.char '\\', g]) := by
  rw [stringTail?, if_neg (by decide), if_pos rfl]

/-- The closing quote ends a string. -/
theorem stringTail?_quote (src : List Glyph) :
    stringTail? (.char '"' :: src) = some ⟨[], [.char '"'], src⟩ := by
  cases src <;> rfl

/-- What is written is read back, up to the closing quote and no further. -/
theorem stringTail?_of_writes {s text : List Char} (h : Writes s text) (src : List Glyph) :
    stringTail? (text.map .char ++ .char '"' :: src) =
      some ⟨s, text.map .char ++ [.char '"'], src⟩ := by
  induction h with
  | nil => exact stringTail?_quote src
  | plain hquote hback _ ih =>
    rw [List.map_cons, List.cons_append, stringTail?_cons hquote hback (by simp), ih]
    rfl
  | _ _ ih =>
    simp only [List.map_cons, List.cons_append, stringTail?_escape, ih]
    rfl

/-! ### The whole source -/

/-- A source that is one string has the token of the string and the mark of the end. -/
theorem scanFrom_string {src : List Glyph} {t : StringTail} (ht : stringTail? src = some t)
    (hrest : t.rest = []) (p : Position) :
    scanFrom p (.char '"' :: src) =
      [(cutString (.char '"') src).token p, endToken (p.after (.char '"' :: src))] := by
  -- The string takes the whole source, so only the mark of the end is left.
  have hcut : cut (.char '"') src = cutString (.char '"') src := rfl
  have htaken : (cutString (.char '"') src).taken = .char '"' :: src := by
    have happend := stringTail?_append ht
    rw [hrest, List.append_nil] at happend
    simp [cutString, ht, Cut.plain, happend]
  have hleft : (cutString (.char '"') src).rest = [] := by
    simp [cutString, ht, Cut.plain, hrest]
  have hend : ∀ q, scanFrom q [] = [endToken q] := by
    intro q
    rw [scanFrom]
    rfl
  rw [scanFrom]
  show (cut (.char '"') src).token p ::
    scanFrom (p.after (cut (.char '"') src).taken) (cut (.char '"') src).rest = _
  rw [hcut, htaken, hleft, hend]

/-- A string literal stands for the text that it writes: it is scanned as one string token with
that text as its value, in front of the mark of the end. -/
theorem scan_literal (s : String) (text : List Char) (h : Writes s.toList text)
    (hnul : '\x00' ∉ s.toList) :
    let source := String.ofList ('"' :: (text ++ ['"']))
    scanText source =
      [{ kind := .string, lexeme := source, spelling := Glyph.ofString source,
         literal := some (.string s), line := 1, column := 1 },
       endToken (Position.start.after (Glyph.ofString source))] := by
  intro source
  have hglyphs : Glyph.ofString source = .char '"' :: (text.map .char ++ [.char '"']) := by
    simp [source, Glyph.ofString]
  have htail := stringTail?_of_writes h []
  -- Without a NUL character the whole text is scanned.
  have hwhole : untilNul (Glyph.ofString source) = Glyph.ofString source := by
    apply List.takeWhile_eq_self_iff.2
    intro g hg
    rw [hglyphs] at hg
    have hmem := h.nul_not_mem hnul
    rw [decide_eq_true_eq]
    rintro rfl
    simp [hmem] at hg
  have htoken : (cutString (.char '"') (text.map .char ++ [.char '"'])).token .start =
      { kind := .string, lexeme := source, spelling := Glyph.ofString source,
        literal := some (.string s), line := 1, column := 1 } := by
    have hlexeme := Glyph.text_ofString source
    rw [hglyphs] at hlexeme
    simp only [cutString, htail, Cut.plain, Cut.token, ofSpelling, Position.start,
      String.ofList_toList, hlexeme, hglyphs]
  rw [scanText, scan, hwhole, hglyphs, scanFrom_string htail rfl, htoken, hglyphs]

/-- A backslash in front of a letter, a quote, and a newline as itself and as an escape. -/
theorem scan_literal_escapes :
    (Writes "\\n\"\n\n".toList "\\\\n\\\"\n\\n".toList ∧ '\x00' ∉ "\\n\"\n\n".toList) ∧
      scanText "\"\\\\n\\\"\n\\n\"" =
        [{ kind := .string, lexeme := "\"\\\\n\\\"\n\\n\"",
           spelling := Glyph.ofString "\"\\\\n\\\"\n\\n\"", literal := some (.string "\\n\"\n\n"),
           line := 1, column := 1 },
         endToken (Position.start.after (Glyph.ofString "\"\\\\n\\\"\n\\n\""))] := by
  have h : Writes "\\n\"\n\n".toList "\\\\n\\\"\n\\n".toList :=
    .backslash (.plain (by decide) (by decide)
      (.quote (.plain (by decide) (by decide) (.newline .nil))))
  have hnul : '\x00' ∉ "\\n\"\n\n".toList := by decide
  exact ⟨⟨h, hnul⟩, scan_literal _ _ h hnul⟩

end ClassScript.Token
