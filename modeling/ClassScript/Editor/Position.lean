import ClassScript.Token.Basic

/-!
# Places in a document

An editor counts lines and characters from zero, in 32-bit words. Tokens count both from one.
-/

namespace ClassScript.Editor

/-- A place between two characters of a document. -/
structure Position where
  /-- The line, counted from 0. -/
  line : UInt32
  /-- The number of characters in front of the place in its line. -/
  character : UInt32
deriving DecidableEq, Inhabited

/-- The text between two places. -/
structure Range where
  /-- The place in front of the text. -/
  start : Position
  /-- The place behind the text. -/
  stop : Position
deriving DecidableEq, Inhabited

/-- A range in a document. -/
structure Location where
  /-- The document. -/
  uri : String
  /-- The range. -/
  range : Range
deriving DecidableEq, Inhabited

/-- A line or column that is counted from 1, counted from 0. The difference is taken in 64-bit
words. -/
def ofOneBased (n : Int) : UInt32 := UInt32.ofInt (max (Int64.ofInt n - 1).toInt 0)

/-- The range of a lexeme that starts at a line and column, both counted from 1. -/
def Range.ofLexeme (line column : Int) (lexeme : String) : Range :=
  let start : Position := { line := ofOneBased line, character := ofOneBased column }
  { start, stop := { start with character := start.character + UInt32.ofNat lexeme.length } }

/-- The range of a token. -/
def Range.ofToken (t : Token) : Range := .ofLexeme t.line t.column t.lexeme

/-- Whether a place is inside a token or at one of its ends. -/
def Position.touches (p : Position) (t : Token) : Bool :=
  t.line = p.line.toNat + 1 && !t.lexeme.isEmpty
    && t.column ≤ p.character.toNat + 1 && p.character.toNat + 1 ≤ t.column + t.lexeme.length

end ClassScript.Editor
