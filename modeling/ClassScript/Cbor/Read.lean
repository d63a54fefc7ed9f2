import ClassScript.Cbor.Codec
import ClassScript.Cbor.Item
import ClassScript.Cbor.Write

/-!
# A plain codec

A codec to run the program with. It reads items of any form: lengths may be open, numbers may take
more bytes than they need, and items may carry tags.
-/

namespace ClassScript.Cbor

/-! ### Items -/

/-- The start of an item. -/
structure Head where
  /-- The major type. -/
  major : Nat
  /-- The form of the number; 31 stands for an open length. -/
  info : Nat
  /-- The number. -/
  number : Nat

/-- A number of bytes, if there are as many, and the rest. -/
def take? (n : Nat) (bytes : List UInt8) : Option (List UInt8 × List UInt8) :=
  if n ≤ bytes.length then some (bytes.splitAt n) else none

/-- Whether a start is one an item can have. -/
def Head.isProper (h : Head) : Bool :=
  if h.info = 31 then 2 ≤ h.major && h.major ≤ 5
  else if h.major = 7 && h.info = 24 then 32 ≤ h.number
  else true

/-- The number of bytes behind the first one, by the form of the number. -/
def extraBytes? (info : Nat) : Option Nat :=
  if info < 24 || info = 31 then some 0
  else match info with
    | 24 => some 1
    | 25 => some 2
    | 26 => some 4
    | 27 => some 8
    | _ => none

/-- The start of an item, and the rest. -/
def head? : List UInt8 → Option (Head × List UInt8)
  | [] => none
  | b :: rest => do
    let major := b.toNat / 32
    let info := b.toNat % 32
    let width ← extraBytes? info
    let (extra, rest) ← take? width rest
    let h : Head := { major, info, number := if width = 0 then info else ofBigEndian extra }
    if h.isProper then some (h, rest) else none

/-- The chunks of a text or byte string of open length, and the rest. -/
def chunks? (major : Nat) : Nat → List UInt8 → Option (List (List UInt8) × List UInt8)
  | 0, _ => none
  | fuel + 1, bytes => do
    if bytes.head? = some breakByte then return ([], bytes.tail)
    let (h, rest) ← head? bytes
    if h.major != major || h.info = 31 then none
    let (chunk, rest) ← take? h.number rest
    let (others, rest) ← chunks? major fuel rest
    return (chunk :: others, rest)

/-- The string with a start: bytes or a text. -/
def string? (h : Head) (rest : List UInt8) : Option (Item × List UInt8) := do
  let (chunks, rest) ←
    if h.info = 31 then chunks? h.major (rest.length + 1) rest
    else (take? h.number rest).map fun (chunk, rest) => ([chunk], rest)
  return (if h.major = 2 then .bytes chunks.flatten else .text (joinTexts? chunks), rest)

/-- Pairs neighbours up. -/
def pairs? : List Item → Option (List (Item × Item))
  | [] => some []
  | key :: value :: rest => (pairs? rest).map ((key, value) :: ·)
  | [_] => none

/-- The major type of the next item. -/
def nextMajor? (bytes : List UInt8) : Option Nat := bytes.head?.map (·.toNat / 32)

section Items

variable (max : Nat)

mutual

/-- An item with a number of levels left, and the rest. Every item takes a byte, so that a bound on
the nesting of calls from the number of bytes is never used up. -/
def item? : (fuel levels : Nat) → List UInt8 → Option (Item × List UInt8)
  | 0, _, _ => none
  | fuel + 1, levels, bytes => do
    let (h, rest) ← head? bytes
    match h.major with
    | 0 => return (.unsigned h.number, rest)
    | 1 => return (.negative h.number, rest)
    | 2 | 3 => string? h rest
    | 4 =>
      let (items, rest) ← elements? fuel levels h rest max
      return (.array items, rest)
    | 5 =>
      let (items, rest) ← elements? fuel levels h rest (2 * max)
      return (.map (← pairs? items), rest)
    | 6 =>
      -- A row of tags counts as nesting, and a single tag does not.
      if nextMajor? rest = some 6 then
        match levels with
        | 0 => none
        | levels + 1 =>
          let (content, rest) ← item? fuel levels rest
          return (.tag h.number content, rest)
      else
        let (content, rest) ← item? fuel levels rest
        return (.tag h.number content, rest)
    | _ =>
      -- Behind the simple values come floating-point numbers of three widths.
      if 25 ≤ h.info then return (.float, rest) else return (.simple h.number, rest)
termination_by fuel _ _ => (fuel, 2)

/-- The elements of a list, or the keys and values of a map, at most a number of them. -/
def elements? (fuel : Nat) : (levels : Nat) → Head → List UInt8 → Nat →
    Option (List Item × List UInt8)
  | 0, _, _, _ => none
  | levels + 1, h, bytes, limit =>
    let each := if h.major = 5 then 2 else 1
    if h.info = 31 then openItems? fuel levels limit bytes
    else if h.number * each ≤ limit then items? fuel levels (h.number * each) bytes
    else none
termination_by (fuel, 1)

/-- A number of items, and the rest. -/
def items? (fuel levels : Nat) : Nat → List UInt8 → Option (List Item × List UInt8)
  | 0, bytes => some ([], bytes)
  | count + 1, bytes =>
    match fuel with
    | 0 => none
    | fuel + 1 => do
      let (first, rest) ← item? fuel levels bytes
      let (others, rest) ← items? fuel levels count rest
      return (first :: others, rest)
termination_by (fuel, 0)

/-- The items up to the end of an open list or map, at most a number of them, and the rest. -/
def openItems? (fuel levels : Nat) : Nat → List UInt8 → Option (List Item × List UInt8)
  | limit, bytes =>
    if bytes.head? = some breakByte then some ([], bytes.tail)
    else
      match fuel, limit with
      | fuel + 1, limit + 1 => do
        let (first, rest) ← item? fuel levels bytes
        let (others, rest) ← openItems? fuel levels limit rest
        return (first :: others, rest)
      | _, _ => none
termination_by (fuel, 0)

end

end Items

/-- The item that bytes consist of, all of them. -/
def read? (limits : Limits) (bytes : List UInt8) : Option Item := do
  let (item, rest) ← item? limits.elements (2 * bytes.length + 2) limits.levels bytes
  if rest.isEmpty then some item else none

/-! ### Values -/

namespace Item

/-- Whether a tag may stand in front of an item. -/
def admits (number : Nat) : Item → Bool
  | .text _ => number != 1 && number != 2 && number != 3
  | .unsigned _ | .negative _ | .float => number != 0 && number != 2 && number != 3
  | .bytes _ => number != 0 && number != 1
  | _ => 4 ≤ number

/-- An item without its tags; a tagged large number becomes a number. -/
def untagged? : Item → Option Item
  | .tag number content =>
    if content.admits number then
      match number, content with
      | 2, .bytes digits => some (.unsigned (ofBigEndian digits))
      | 3, .bytes digits => some (.negative (ofBigEndian digits))
      | _, content => content.untagged?
    else none
  | item => some item

/-- Whether an item stands for the absence of a value. -/
def isNull : Item → Bool
  | .simple value => value = 22 || value = 23
  | _ => false

/-- The number that an item stands for. -/
def number? : Item → Option Int
  | .unsigned n => some n
  | .negative n => some (-1 - n)
  | .simple value => if value < 20 || 24 ≤ value then some value else none
  | _ => none

/-- Reads a field: nothing leaves it at its zero value. -/
def field? {α : Type} (read : Item → Option α) (zero : α) : Option Item → Option α
  | none => some zero
  | some item => do
    let item ← item.untagged?
    if item.isNull then some zero else read item

/-- The text of an item. -/
def text? : Item → Option String
  | .text content => content
  | _ => none

/-- The truth value of an item. -/
def flag? : Item → Option Bool
  | .simple 20 => some false
  | .simple 21 => some true
  | _ => none

/-- The 64-bit integer of an item. -/
def int64? (item : Item) : Option Int64 := do
  let n ← item.number?
  if Int64.minValue.toInt ≤ n ∧ n ≤ Int64.maxValue.toInt then some (Int64.ofInt n) else none

/-- The byte of an item. -/
def byte? (item : Item) : Option UInt8 := do
  let n ← item.number?
  if 0 ≤ n ∧ n < 256 then some (UInt8.ofNat n.toNat) else none

/-- The field number of a key, or nothing if no field has it. A negative key has to be a 64-bit
integer, and the text of a number counts as the number. -/
def fieldNumber? : Item → Option (Option Nat)
  | .unsigned n => some (some n)
  | .negative n => if n < 1 <<< 63 then some none else none
  | .text content =>
    content.map fun s => ((List.range 10).find? fun n => toString n = s)
  | _ => none

/-- The fields of a record with numbers: for each field number the first value. -/
def fields? (entries : List (Item × Item)) : Option (List (Nat × Item)) := do
  let numbered ← entries.mapM fun (key, value) => do return (← key.fieldNumber?, value)
  return numbered.filterMap fun (number, value) => number.map (·, value)

/-- The record that an item is. -/
def record? : Item → Option (List (Nat × Item))
  | .map entries => fields? entries
  | _ => none

end Item

mutual

/-- The value of a kind that an item stands for. -/
def Shape.read? : (s : Shape) → Item → Option s.Value
  | .text, item => item.text?
  | .flag, item => item.flag?
  | .int, item => item.int64?
  | .byte, item => item.byte?
  | .list s, .array items => (items.mapM fun i => Item.field? s.read? s.zero (some i)).map some
  | .list _, _ => none
  | .record fields, item => do fields.read? (← item.record?)

/-- The values of all fields. -/
def Fields.read? : (fields : Fields) → List (Nat × Item) → Option fields.Values
  | .none, _ => some ()
  | .field number _ s others, entries => do
    return (← Item.field? s.read? s.zero (entries.lookup number), ← others.read? entries)

end

/-- Why bytes stand for no value. -/
def unreadableText : String := "cbor: unreadable data"

/-- A codec that writes the canonical form, and that reads up to the usual limits. -/
def Codec.plain : Codec where
  marshal s x := .ok (s.canonical x)
  unmarshal s bytes :=
    match (read? {} bytes).bind fun item => Item.field? s.read? s.zero (some item) with
    | some x => .ok x
    | none => .error unreadableText

end ClassScript.Cbor
