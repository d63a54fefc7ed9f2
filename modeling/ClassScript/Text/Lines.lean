import ClassScript.Text.Glyph

/-!
# Lines of byte strings

A line ends with a line feed, in front of which a carriage return may stand. The last line needs no
end. A line that is too long for a buffer is read in pieces, and a piece may end inside of a
character.
-/

namespace ClassScript.Text

/-- A line as it is read. -/
structure Line where
  /-- The bytes, without the end of the line. -/
  bytes : List UInt8
  /-- Whether this is a piece of a line that was too long. -/
  cut : Bool := false
deriving DecidableEq

/-- The text of a line; a byte that is no part of a character becomes the replacement character. -/
def Line.text (l : Line) : String := Glyph.text (Glyph.decode l.bytes)

/-- The text of a line that was read as a whole and consists of characters. -/
def Line.wholeText? (l : Line) : Option String :=
  if l.cut then none else Glyph.wholeText? (Glyph.decode l.bytes)

/-- The number of bytes of a line that is too long. -/
def lineLimit : Nat := 4096

/-- The byte that ends a line. -/
def lineFeed : UInt8 := 10

/-- The byte that may stand in front of the end of a line. -/
def carriageReturn : UInt8 := 13

/-- A line without the carriage return at its end, its last byte first. -/
def withoutReturn : List UInt8 → List UInt8
  | [] => []
  | b :: rest => if b = carriageReturn then rest else b :: rest

/-- The lines of a byte string, given the bytes of the first line that were read already, the last
one first, and their number. A carriage return at the end of a piece is left to the next one. -/
def linesFrom (current : List UInt8) (size : Nat) : List UInt8 → List Line
  | [] => if current.isEmpty then [] else [{ bytes := current.reverse }]
  | b :: rest =>
    if b = lineFeed then { bytes := (withoutReturn current).reverse } :: linesFrom [] 0 rest
    else if size + 1 < lineLimit then linesFrom (b :: current) (size + 1) rest
    else if b = carriageReturn then
      { bytes := current.reverse, cut := true } :: linesFrom [b] 1 rest
    else { bytes := (b :: current).reverse, cut := true } :: linesFrom [] 0 rest

/-- The lines of a byte string. -/
def lines (bytes : List UInt8) : List Line := linesFrom [] 0 bytes

/-- A text with blanks behind it up to a number of characters. -/
def padRight (width : Nat) (s : String) : String :=
  s ++ String.ofList (List.replicate (width - s.length) ' ')

end ClassScript.Text
