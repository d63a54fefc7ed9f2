import ClassScript.Cbor.Codec
import ClassScript.Cbor.Item

/-!
# The canonical form

The canonical form of values as CBOR data: every length and number takes the fewest bytes, every
length is known in advance, and the fields of a record stand in the order of their numbers.
-/

namespace ClassScript.Cbor

/-- A number in a given number of bytes, the most significant one first. -/
def bigEndian (n : Nat) : Nat → List UInt8
  | 0 => []
  | width + 1 => UInt8.ofNat (n >>> (8 * width)) :: bigEndian n width

/-- The start of an item of a major type, with its number in the fewest bytes. -/
def head (major n : Nat) : List UInt8 :=
  if n < 24 then [firstByte major n]
  else if n < 1 <<< 8 then firstByte major 24 :: bigEndian n 1
  else if n < 1 <<< 16 then firstByte major 25 :: bigEndian n 2
  else if n < 1 <<< 32 then firstByte major 26 :: bigEndian n 4
  else firstByte major 27 :: bigEndian n 8

/-- A number that is not negative. -/
def unsigned (n : Nat) : List UInt8 := head 0 n

/-- An integer. -/
def integer (n : Int) : List UInt8 :=
  match n with
  | .ofNat n => head 0 n
  | .negSucc n => head 1 n

/-- A text. -/
def text (s : String) : List UInt8 := head 3 s.utf8ByteSize ++ s.toUTF8.data.toList

/-- A truth value. -/
def flag (b : Bool) : List UInt8 := head 7 (if b then 21 else 20)

/-- The absence of a value. -/
def null : List UInt8 := head 7 22

/-- A list of written items. -/
def array (items : List (List UInt8)) : List UInt8 := head 4 items.length ++ items.flatten

/-- A record with numbers for its fields. -/
def record (fields : List (Nat × List UInt8)) : List UInt8 :=
  head 5 fields.length ++ fields.flatMap fun (key, value) => unsigned key ++ value

mutual

/-- The canonical form of a value. -/
def Shape.canonical : (s : Shape) → s.Value → List UInt8
  | .text, x => text x
  | .flag, b => flag b
  | .int, n => integer n.toInt
  | .byte, n => unsigned n.toNat
  | .list _, none => null
  | .list s, some xs => array (xs.map s.canonical)
  | .record fields, x => record (fields.written x)

/-- The fields that are not left out, each with the canonical form of its value. -/
def Fields.written : (fields : Fields) → fields.Values → List (Nat × List UInt8)
  | .none, _ => []
  | .field number omitted s others, (x, rest) =>
    if omitted && s.isEmpty x then others.written rest
    else (number, s.canonical x) :: others.written rest

end

end ClassScript.Cbor
