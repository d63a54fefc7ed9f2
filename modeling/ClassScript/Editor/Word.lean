import ClassScript.Editor.Position
import ClassScript.Text.Characters
import ClassScript.Text.Letter

/-!
# Words at a place

The text around a place, read without regard to the grammar, so that it also works in a document
that is being typed.
-/

namespace ClassScript.Editor

/-- Whether a character can be part of a word. -/
def isWordChar (c : Char) : Bool := Text.isLetter c || Text.isDecimalDigit c || c = '_'

/-- The lines of a document. A line feed ends a line, and there is always one line more. -/
def documentLines : List Char → List (List Char)
  | [] => [[]]
  | c :: rest =>
    if c = '\n' then [] :: documentLines rest
    else match documentLines rest with
      | [] => [[c]]
      | line :: others => (c :: line) :: others

/-- A line, cut in two at a place. -/
structure CutLine where
  /-- The characters in front of the place, the nearest first. -/
  before : List Char
  /-- The characters behind the place. -/
  after : List Char

/-- The line of a place. A place behind the end of its line counts as the end. -/
def cutLine? (text : String) (p : Position) : Option CutLine :=
  (documentLines text.toList)[p.line.toNat]?.map fun line =>
    { before := (line.take p.character.toNat).reverse, after := line.drop p.character.toNat }

namespace CutLine

/-- The part of a word in front of the place. -/
def fragment (l : CutLine) : List Char := (l.before.takeWhile isWordChar).reverse

/-- The word in front of a dot, where that dot is in front of the fragment. -/
def receiver (l : CutLine) : List Char :=
  match l.before.dropWhile isWordChar with
  | '.' :: rest => (rest.takeWhile isWordChar).reverse
  | _ => []

/-- The whole word at the place. -/
def word (l : CutLine) : List Char := l.fragment ++ l.after.takeWhile isWordChar

end CutLine

/-- A part of the line of a place, nothing where the document has no such line. -/
def partAt (part : CutLine → List Char) (text : String) (p : Position) : String :=
  String.ofList (((cutLine? text p).map part).getD [])

/-- The part of a word in front of a place. -/
def fragmentAt (text : String) (p : Position) : String := partAt CutLine.fragment text p

/-- The word in front of the dot in front of the fragment at a place. -/
def receiverAt (text : String) (p : Position) : String := partAt CutLine.receiver text p

/-- The whole word at a place. -/
def wordAt (text : String) (p : Position) : String := partAt CutLine.word text p

end ClassScript.Editor
