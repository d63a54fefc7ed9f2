/-!
# The lines of TOML documents

A document as it is written: headers of tables, and keys with values. What it describes as a whole
is the business of documents.
-/

namespace ClassScript.Toml

/-- A value without parts. -/
inductive Scalar where
  /-- A text. -/
  | text (s : String)
  /-- A 64-bit integer. -/
  | integer (n : Int64)
  /-- A truth value. -/
  | flag (b : Bool)
  /-- A floating-point number. -/
  | float
  /-- A date, a time of day, or both. -/
  | time
deriving DecidableEq, Inhabited

/-- A key with dots between its parts. -/
structure Key where
  /-- The parts in front of the last one. -/
  parents : List String
  /-- The last part. -/
  last : String
deriving DecidableEq

/-- The parts of a key. -/
def Key.parts (k : Key) : List String := k.parents ++ [k.last]

/-- A key with a further part in front. -/
def Key.below (part : String) (k : Key) : Key := { k with parents := part :: k.parents }

/-- A value as it is written. -/
inductive Value where
  /-- A value without parts. -/
  | scalar (s : Scalar)
  /-- Values in brackets. -/
  | array (items : List Value)
  /-- Keys with values in braces. -/
  | braces (entries : List (Key × Value))

/-- One line of a document. -/
inductive Line where
  /-- The header of a table. -/
  | header (key : Key)
  /-- The header of a further table in a row of tables. -/
  | rowHeader (key : Key)
  /-- A key with its value. -/
  | assignment (key : Key) (value : Value)

end ClassScript.Toml
