/-!
# Glyphs

Source text is a list of glyphs. A glyph is a character or a byte that belongs to no well-formed
UTF-8 sequence, so every byte string is a list of glyphs and nothing of it is lost.
-/

namespace ClassScript

/-- One unit of source text. -/
inductive Glyph where
  /-- A character. -/
  | char (c : Char)
  /-- A byte that belongs to no well-formed UTF-8 sequence. -/
  | stray (b : UInt8)
deriving DecidableEq, Inhabited

namespace Glyph

/-- The character a glyph is read as: a stray byte is read as the replacement character. -/
def toChar : Glyph → Char
  | char c => c
  | stray _ => '\ufffd'

/-- The glyphs of a text. -/
def ofString (s : String) : List Glyph := s.toList.map char

/-- The text of a list of glyphs. -/
def text (gs : List Glyph) : String := String.ofList (gs.map toChar)

/-- The glyphs of a text have it as their text. -/
@[simp]
theorem text_ofString (s : String) : text (ofString s) = s := by
  have h : toChar ∘ char = id := rfl
  simp [text, ofString, h]

/-- The character that a glyph is. -/
def char? : Glyph → Option Char
  | char c => some c
  | stray _ => none

/-- The text of a list of glyphs that are all characters. -/
def wholeText? (gs : List Glyph) : Option String := (gs.mapM char?).map String.ofList

/-- How many continuation bytes follow a lead byte, and the values the first of them may have. -/
def continuation (lead : Nat) : Option (Nat × Nat × Nat) :=
  if 0xC2 ≤ lead && lead ≤ 0xDF then some (1, 0x80, 0xBF)
  else if lead == 0xE0 then some (2, 0xA0, 0xBF)
  else if lead == 0xED then some (2, 0x80, 0x9F)
  else if 0xE1 ≤ lead && lead ≤ 0xEF then some (2, 0x80, 0xBF)
  else if lead == 0xF0 then some (3, 0x90, 0xBF)
  else if 0xF1 ≤ lead && lead ≤ 0xF3 then some (3, 0x80, 0xBF)
  else if lead == 0xF4 then some (3, 0x80, 0x8F)
  else none

/-- The payload of a lead byte that is followed by `n` continuation bytes. -/
def leadBits (lead n : Nat) : Nat := lead % (1 <<< (6 - n))

/-- The character that a lead byte and its continuation bytes spell, with the number of the
latter. -/
def sequence? (lead : UInt8) (rest : List UInt8) : Option (Char × Nat) :=
  if lead.toNat < 0x80 then some (Char.ofNat lead.toNat, 0)
  else do
    let (n, low, high) ← continuation lead.toNat
    let tail := rest.take n
    let first ← tail.head?
    guard (tail.length = n && low ≤ first.toNat && first.toNat ≤ high)
    guard (tail.tail.all fun b => 0x80 ≤ b.toNat && b.toNat ≤ 0xBF)
    let code := tail.foldl (fun acc b => acc * 64 + b.toNat % 64) (leadBits lead.toNat n)
    return (Char.ofNat code, n)

/-- The glyphs of a byte string: the longest well-formed sequences as characters, every other
byte as a stray. -/
def decode : List UInt8 → List Glyph
  | [] => []
  | b :: rest =>
    match sequence? b rest with
    | some (c, n) => char c :: decode (rest.drop n)
    | none => stray b :: decode rest
termination_by bytes => bytes.length
decreasing_by all_goals (simp only [List.length_drop, List.length_cons]; omega)

end Glyph

end ClassScript
