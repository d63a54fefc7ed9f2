import ClassScript.Text.Glyph
import ClassScript.Text.Printable

/-!
# Quoted text

A text between double quotes on one line: printable characters stand for themselves, quotes and
backslashes are escaped, the seven named control characters have their letter, and every other
character or stray byte is written by its number in hexadecimal.
-/

namespace ClassScript.Text

/-- A number in lower-case hexadecimal, padded with zeros to a width. -/
def hexadecimal (width n : Nat) : List Char :=
  let digits := Nat.toDigits 16 n
  List.replicate (width - digits.length) '0' ++ digits

/-- The letter of a named control character. -/
def controlLetter? (c : Char) : Option Char :=
  match c.toNat with
  | 7 => some 'a'
  | 8 => some 'b'
  | 9 => some 't'
  | 10 => some 'n'
  | 11 => some 'v'
  | 12 => some 'f'
  | 13 => some 'r'
  | _ => none

/-- How a glyph is written inside quotes. -/
def quoteGlyph : Glyph → List Char
  | .stray b => '\\' :: 'x' :: hexadecimal 2 b.toNat
  | .char c =>
    if c = '"' || c = '\\' then ['\\', c]
    else if isPrintable c then [c]
    else match controlLetter? c with
      | some letter => ['\\', letter]
      | none =>
        if c.toNat < 32 || c.toNat = 127 then '\\' :: 'x' :: hexadecimal 2 c.toNat
        else if c.toNat < 0x10000 then '\\' :: 'u' :: hexadecimal 4 c.toNat
        else '\\' :: 'U' :: hexadecimal 8 c.toNat

/-- Glyphs between quotes. -/
def quoteGlyphs (gs : List Glyph) : String :=
  String.ofList ('"' :: gs.flatMap quoteGlyph ++ ['"'])

/-- A text between quotes. -/
def quote (s : String) : String := quoteGlyphs (Glyph.ofString s)

end ClassScript.Text
