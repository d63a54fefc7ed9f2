/-!
# Codecs

A codec writes values as CBOR data and reads them back. It goes by a description of the values: a
record is a list of fields, each with a number and with a mark if it is left out at its zero value.
The codec itself is not part of this program, which is why it is taken as it comes.
-/

namespace ClassScript.Cbor

/-! ### Descriptions of values -/

mutual

/-- What a codec is told about values. -/
inductive Shape where
  /-- They are texts. -/
  | text
  /-- They are truth values. -/
  | flag
  /-- They are integers of 64 bits. -/
  | int
  /-- They are bytes. -/
  | byte
  /-- They are lists, or nothing where no list was ever made. -/
  | list (of : Shape)
  /-- They are records. -/
  | record (fields : Fields)

/-- The fields of a record. -/
inductive Fields where
  /-- There are no more fields. -/
  | none
  /-- A field with a number, which may be left out at its zero value. -/
  | field (number : Nat) (omitted : Bool) (of : Shape) (others : Fields)

end

mutual

/-- The values that a description is about. -/
abbrev Shape.Value : Shape → Type
  | .text => String
  | .flag => Bool
  | .int => Int64
  | .byte => UInt8
  | .list s => Option (List s.Value)
  | .record fields => fields.Values

/-- The values of all fields. -/
abbrev Fields.Values : Fields → Type
  | .none => Unit
  | .field _ _ s others => s.Value × others.Values

end

mutual

/-- The zero value. -/
def Shape.zero : (s : Shape) → s.Value
  | .text => ""
  | .flag => false
  | .int => 0
  | .byte => 0
  | .list _ => none
  | .record fields => fields.zeros

/-- The zero values of all fields. -/
def Fields.zeros : (fields : Fields) → fields.Values
  | .none => ()
  | .field _ _ s others => (s.zero, others.zeros)

end

/-- Whether a field with a value is left out, if it is one that can be. -/
def Shape.isEmpty : (s : Shape) → s.Value → Bool
  | .text, x => x.isEmpty
  | .flag, b => !b
  | .int, n => n = 0
  | .byte, n => n = 0
  | .list _, xs => (xs.getD []).isEmpty
  | .record _, _ => false

/-! ### Codecs -/

/-- Up to where a codec reads. The ends of the ranges are the ones it can be set to. -/
structure Limits where
  /-- The greatest number of elements of a list or record. -/
  elements : Nat := 131072
  /-- The greatest number of lists and records inside each other. -/
  levels : Nat := 32
  sixteen_le : 16 ≤ elements := by decide
  elements_lt : elements < 1 <<< 31 := by decide
  four_le : 4 ≤ levels := by decide

/-- A way to write values and to read them back. -/
structure Codec where
  /-- Writes a value, or says why it cannot be written. -/
  marshal (s : Shape) : s.Value → Except String (List UInt8)
  /-- Reads the value that bytes stand for, or says why they stand for none. -/
  unmarshal (s : Shape) : List UInt8 → Except String s.Value

end ClassScript.Cbor
