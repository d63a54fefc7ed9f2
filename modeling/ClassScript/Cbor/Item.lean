/-!
# CBOR data

The items that CBOR data stands for, and the numbers and texts that its bytes make up.
-/

namespace ClassScript.Cbor

/-- A data item. -/
inductive Item where
  /-- A number that is not negative. -/
  | unsigned (n : Nat)
  /-- The negative number that is one less than the negation of a number. -/
  | negative (n : Nat)
  /-- Bytes. -/
  | bytes (content : List UInt8)
  /-- A text, or nothing where the bytes are none. -/
  | text (content : Option String)
  /-- A list. -/
  | array (items : List Item)
  /-- Keys with values, in the order they are written. -/
  | map (entries : List (Item × Item))
  /-- An item with a tag. -/
  | tag (number : Nat) (content : Item)
  /-- A simple value. -/
  | simple (value : Nat)
  /-- A floating-point number. -/
  | float
deriving Inhabited

/-- The item of an integer. -/
def Item.ofInt : Int → Item
  | .ofNat n => .unsigned n
  | .negSucc n => .negative n

/-- The item of a truth value. -/
def Item.ofBool (b : Bool) : Item := .simple (if b then 21 else 20)

/-- The item of a record with numbers for its fields. -/
def Item.record (fields : List (Nat × Item)) : Item :=
  .map (fields.map fun (number, value) => (.unsigned number, value))

/-- The byte that ends an item of open length. -/
def breakByte : UInt8 := 0xff

/-- The first byte of an item: its major type, and the form of its number. -/
def firstByte (major info : Nat) : UInt8 := UInt8.ofNat (major * 32 + info)

/-- The number that bytes make up, the most significant one first. -/
def ofBigEndian (bytes : List UInt8) : Nat := bytes.foldl (fun n b => n * 256 + b.toNat) 0

/-- The text that bytes make up. -/
def textOf? (bytes : List UInt8) : Option String := String.fromUTF8? ⟨bytes.toArray⟩

/-- The text of chunks, each of which has to be a text. -/
def joinTexts? (chunks : List (List UInt8)) : Option String :=
  (chunks.mapM textOf?).map String.join

end ClassScript.Cbor
