import ClassScript.Machine.Value

/-!
# Growing sequences

A growing sequence is a window on the first slots of a block. Adding an item writes the slot
behind the window while the block has room, and moves the items to a larger block when it has
none. A walk over a sequence keeps the window it started with: it sees what is written to that
block, and does not see what happens after the sequence has moved on.
-/

namespace ClassScript

/-- A block of slots with room for a number of items. -/
structure Storage where
  /-- The slots written so far. -/
  slots : Array Value
  /-- The number of slots the block has room for. -/
  capacity : Nat

/-- The first slots of a block. -/
structure Window where
  /-- The place of the block. -/
  block : Nat
  /-- The number of slots. -/
  length : Nat
deriving DecidableEq, Inhabited

/-- All blocks of a run. -/
abbrev Blocks := Array Storage

/-! ### Room -/

/-- The sizes in bytes that small blocks come in. -/
def blockSizes : List Nat :=
  [8, 16, 24, 32, 48, 64, 80, 96, 112, 128, 144, 160, 176, 192, 208, 224, 240, 256, 288, 320, 352,
   384, 416, 448, 480, 512, 576, 640, 704, 768, 896, 1024, 1152, 1280, 1408, 1536, 1792, 2048, 2304,
   2688, 3072, 3200, 3456, 4096, 4864, 5376, 6144, 6528, 6784, 6912, 8192, 9472, 9728, 10240,
   10880, 12288, 13568, 14336, 16384, 18432, 19072, 20480, 21760, 24576, 27264, 28672, 32768]

/-- The bytes a slot takes. -/
def slotBytes : Nat := 16

/-- The bytes that a block above 512 bytes keeps for itself. -/
def headerBytes (bytes : Nat) : Nat := if bytes > 512 then 8 else 0

/-- The bytes a larger block is a multiple of. -/
def pageBytes : Nat := 8192

/-- The number of slots of the smallest block with room for a number of items. -/
def roomFor (items : Nat) : Nat :=
  let bytes := items * slotBytes
  match blockSizes.find? (bytes + headerBytes bytes ≤ ·) with
  | some size => (size - headerBytes bytes) / slotBytes
  | none => (bytes + pageBytes - 1) / pageBytes * pageBytes / slotBytes

/-- The number of items that a full block of a capacity grows for: twice as many while it is
small, then a quarter more. -/
def grownCapacity (capacity : Nat) : Nat :=
  roomFor (if capacity = 0 then 1 else if capacity < 256 then 2 * capacity
    else capacity + (capacity + 768) / 4)

namespace Blocks

/-- A further block that is exactly full. -/
def push (bs : Blocks) (items : List Value) : Blocks × Window :=
  (Array.push bs ⟨items.toArray, items.length⟩, ⟨bs.size, items.length⟩)

/-- The item in a slot of a block, whatever window it is seen through. -/
def slot? (bs : Blocks) (block i : Nat) : Option Value := bs[block]?.bind (·.slots[i]?)

/-- The item at an index of a window. -/
def get? (bs : Blocks) (w : Window) (i : Nat) : Option Value :=
  if i < w.length then bs.slot? w.block i else none

/-- The items of a window. -/
def items (bs : Blocks) (w : Window) : List Value :=
  ((bs[w.block]?.map (·.slots)).getD #[]).toList.take w.length

/-- Writes a slot; the slot behind the written ones may be written too. -/
def writeSlot (slots : Array Value) (i : Nat) (v : Value) : Array Value :=
  if i < slots.size then slots.set! i v else slots.push v

/-- Writes a slot of a block. -/
def write (bs : Blocks) (block i : Nat) (v : Value) : Blocks :=
  bs.modify block fun b => { b with slots := writeSlot b.slots i v }

/-- The number of items that the block of a window has room for. -/
def capacity (bs : Blocks) (w : Window) : Nat := (bs[w.block]?.map (·.capacity)).getD 0

/-- A window with one more item. -/
def widen (bs : Blocks) (w : Window) : Window :=
  { block := if w.length < bs.capacity w then w.block else bs.size, length := w.length + 1 }

/-- Writes an item behind a window, in its own block or in a larger one. -/
def add (bs : Blocks) (w : Window) (v : Value) : Blocks :=
  if w.length < bs.capacity w then bs.write w.block w.length v
  else Array.push bs ⟨(bs.items w ++ [v]).toArray, grownCapacity (bs.capacity w)⟩

/-- Takes an item out of a window; the items behind it move up in the same block. -/
def remove (bs : Blocks) (w : Window) (i : Nat) : Blocks × Window :=
  let shifted := (bs.items w).drop (i + 1)
  let step := fun (acc : Blocks × Nat) v => (acc.1.write w.block acc.2 v, acc.2 + 1)
  ((shifted.foldl step (bs, i)).1, { w with length := w.length - 1 })

end Blocks

end ClassScript
