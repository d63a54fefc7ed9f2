import Mathlib.Algebra.Group.Nat.Defs
import Mathlib.Data.List.Forall2
import ClassScript.Cbor.Write

/-!
# What a codec is relied on for

`Data` says which bytes are well-formed data, and of which item; numbers may take more bytes than
they need, lengths may be open, and items may carry tags. `Shape.Stands` says which items stand for
a value. In these terms `Codec.Spec` states what the documentation of a codec promises: it writes
the canonical form, it reads nothing but a single item, and it reads every item within its limits
that stands for a value.
-/

namespace ClassScript.Cbor

/-! ### Well-formed data -/

/-- The start of an item of a major type with a number, in any width that holds it. -/
inductive Start (major : Nat) : Nat → List UInt8 → Prop where
  /-- The number is part of the first byte. -/
  | short {n : Nat} (hn : n < 24) : Start major n [firstByte major n]
  /-- The number takes one, two, four or eight bytes of its own. -/
  | wide {k : Nat} {number : List UInt8} (hk : k < 4) (hnumber : number.length = 2 ^ k) :
    Start major (ofBigEndian number) (firstByte major (24 + k) :: number)

/-- The chunks of a string, one behind the other. -/
inductive Chunks (major : Nat) : List UInt8 → List (List UInt8) → Prop where
  /-- There are no more chunks. -/
  | nil : Chunks major [] []
  /-- A chunk has a length of its own. -/
  | cons {start chunk bytes : List UInt8} {chunks : List (List UInt8)}
    (hstart : Start major chunk.length start) (h : Chunks major bytes chunks) :
    Chunks major (start ++ chunk ++ bytes) (chunk :: chunks)

/-- A string as a whole, or in chunks up to the byte that ends it. -/
inductive Strand (major : Nat) : List UInt8 → List (List UInt8) → Prop where
  /-- The string is one chunk. -/
  | whole {start chunk : List UInt8} (hstart : Start major chunk.length start) :
    Strand major (start ++ chunk) [chunk]
  /-- The length of the string is open. -/
  | chunked {bytes : List UInt8} {chunks : List (List UInt8)} (h : Chunks major bytes chunks) :
    Strand major (firstByte major 31 :: (bytes ++ [breakByte])) chunks

/-- Keys and values, one behind the other. -/
def alternating (entries : List (Item × Item)) : List Item := entries.flatMap fun e => [e.1, e.2]

/-- Items, one behind the other. -/
inductive Sequence : List UInt8 → List Item → Prop where
  | nil : Sequence [] []
  | unsigned {start bytes : List UInt8} {n : Nat} {items : List Item} (hstart : Start 0 n start)
    (rest : Sequence bytes items) : Sequence (start ++ bytes) (.unsigned n :: items)
  | negative {start bytes : List UInt8} {n : Nat} {items : List Item} (hstart : Start 1 n start)
    (rest : Sequence bytes items) : Sequence (start ++ bytes) (.negative n :: items)
  | bytes {string bytes : List UInt8} {chunks : List (List UInt8)} {items : List Item}
    (hstring : Strand 2 string chunks) (rest : Sequence bytes items) :
    Sequence (string ++ bytes) (.bytes chunks.flatten :: items)
  | text {string bytes : List UInt8} {chunks : List (List UInt8)} {items : List Item}
    (hstring : Strand 3 string chunks) (rest : Sequence bytes items) :
    Sequence (string ++ bytes) (.text (joinTexts? chunks) :: items)
  | array {start body bytes : List UInt8} {elements items : List Item}
    (hstart : Start 4 elements.length start) (h : Sequence body elements)
    (rest : Sequence bytes items) : Sequence (start ++ body ++ bytes) (.array elements :: items)
  | openArray {body bytes : List UInt8} {elements items : List Item} (h : Sequence body elements)
    (rest : Sequence bytes items) :
    Sequence (firstByte 4 31 :: (body ++ [breakByte]) ++ bytes) (.array elements :: items)
  | map {start body bytes : List UInt8} {entries : List (Item × Item)} {items : List Item}
    (hstart : Start 5 entries.length start) (h : Sequence body (alternating entries))
    (rest : Sequence bytes items) : Sequence (start ++ body ++ bytes) (.map entries :: items)
  | openMap {body bytes : List UInt8} {entries : List (Item × Item)} {items : List Item}
    (h : Sequence body (alternating entries)) (rest : Sequence bytes items) :
    Sequence (firstByte 5 31 :: (body ++ [breakByte]) ++ bytes) (.map entries :: items)
  | tag {start body bytes : List UInt8} {n : Nat} {content : Item} {items : List Item}
    (hstart : Start 6 n start) (h : Sequence body [content]) (rest : Sequence bytes items) :
    Sequence (start ++ body ++ bytes) (.tag n content :: items)
  | simple {bytes : List UInt8} {n : Nat} {items : List Item} (hn : n < 24)
    (rest : Sequence bytes items) : Sequence ([firstByte 7 n] ++ bytes) (.simple n :: items)
  | simpleByte {bytes : List UInt8} {b : UInt8} {items : List Item} (hb : 32 ≤ b.toNat)
    (rest : Sequence bytes items) :
    Sequence ([firstByte 7 24, b] ++ bytes) (.simple b.toNat :: items)
  | float {number bytes : List UInt8} {k : Nat} {items : List Item} (hk : 1 ≤ k) (hk' : k < 4)
    (hnumber : number.length = 2 ^ k) (rest : Sequence bytes items) :
    Sequence ((firstByte 7 (24 + k) :: number) ++ bytes) (.float :: items)

/-- Bytes that are well-formed data, and its item. -/
def Data (bytes : List UInt8) (item : Item) : Prop := Sequence bytes [item]

/-- Items may be put behind other items. -/
theorem Sequence.append {bytes bytes' : List UInt8} {items items' : List Item}
    (h : Sequence bytes items) (h' : Sequence bytes' items') :
    Sequence (bytes ++ bytes') (items ++ items') := by
  induction h with
  | nil => exact h'
  | unsigned hstart _ ih => exact List.append_assoc .. ▸ .unsigned hstart ih
  | negative hstart _ ih => exact List.append_assoc .. ▸ .negative hstart ih
  | bytes hstring _ ih => exact List.append_assoc .. ▸ .bytes hstring ih
  | text hstring _ ih => exact List.append_assoc .. ▸ .text hstring ih
  | array hstart hbody _ _ ih => exact List.append_assoc .. ▸ .array hstart hbody ih
  | openArray hbody _ _ ih => exact List.append_assoc .. ▸ .openArray hbody ih
  | map hstart hbody _ _ ih => exact List.append_assoc .. ▸ .map hstart hbody ih
  | openMap hbody _ _ ih => exact List.append_assoc .. ▸ .openMap hbody ih
  | tag hstart hbody _ _ ih => exact List.append_assoc .. ▸ .tag hstart hbody ih
  | simple hn _ ih => exact List.append_assoc .. ▸ .simple hn ih
  | simpleByte hb _ ih => exact List.append_assoc .. ▸ .simpleByte hb ih
  | float hk hk' hnumber _ ih => exact List.append_assoc .. ▸ .float hk hk' hnumber ih

/-! ### Limits -/

/-- Items whose lists and records have at most a number of elements, with at most a number of lists,
records and tags inside each other. -/
inductive Item.Within (most : Nat) : Nat → Item → Prop where
  | unsigned (levels n : Nat) : Item.Within most levels (.unsigned n)
  | negative (levels n : Nat) : Item.Within most levels (.negative n)
  | bytes (levels : Nat) (content : List UInt8) : Item.Within most levels (.bytes content)
  | text (levels : Nat) (content : Option String) : Item.Within most levels (.text content)
  | array {levels : Nat} {items : List Item} (hlength : items.length ≤ most)
    (h : ∀ i ∈ items, Item.Within most levels i) : Item.Within most (levels + 1) (.array items)
  | map {levels : Nat} {entries : List (Item × Item)} (hlength : entries.length ≤ most)
    (h : ∀ i ∈ alternating entries, Item.Within most levels i) :
    Item.Within most (levels + 1) (.map entries)
  | tag {levels : Nat} (n : Nat) {content : Item} (h : Item.Within most levels content) :
    Item.Within most (levels + 1) (.tag n content)
  | simple (levels n : Nat) : Item.Within most levels (.simple n)
  | float (levels : Nat) : Item.Within most levels .float

/-- What is within limits is within wider ones. -/
theorem Item.Within.mono {most most' levels levels' : Nat} {item : Item}
    (h : item.Within most levels) (hmost : most ≤ most') (hlevels : levels ≤ levels') :
    item.Within most' levels' := by
  -- On the item. What has items in it uses a level, so the wider limits have one as well.
  induction h generalizing levels' with
  | unsigned _ n => exact .unsigned _ n
  | negative _ n => exact .negative _ n
  | bytes _ content => exact .bytes _ content
  | text _ content => exact .text _ content
  | array hlength _ ih =>
    obtain ⟨levels', rfl⟩ : ∃ l, levels' = l + 1 := ⟨levels' - 1, by omega⟩
    exact .array (Nat.le_trans hlength hmost) fun i hi => ih i hi (Nat.le_of_succ_le_succ hlevels)
  | map hlength _ ih =>
    obtain ⟨levels', rfl⟩ : ∃ l, levels' = l + 1 := ⟨levels' - 1, by omega⟩
    exact .map (Nat.le_trans hlength hmost) fun i hi => ih i hi (Nat.le_of_succ_le_succ hlevels)
  | tag n _ ih =>
    obtain ⟨levels', rfl⟩ : ∃ l, levels' = l + 1 := ⟨levels' - 1, by omega⟩
    exact .tag n (ih (Nat.le_of_succ_le_succ hlevels))
  | simple _ n => exact .simple _ n
  | float => exact .float _

/-- Items within a limit on elements, with whatever levels that takes. -/
def Bounded (most : Nat) (items : List Item) : Prop :=
  ∃ levels, ∀ i ∈ items, i.Within most levels

namespace Bounded

/-- No items are within any limit. -/
theorem nil (most : Nat) : Bounded most [] := ⟨0, List.forall_mem_nil _⟩

/-- An item may be put in front of items within its limit. -/
theorem cons {most levels : Nat} {item : Item} {items : List Item} (h : item.Within most levels)
    (hitems : Bounded most items) : Bounded most (item :: items) := by
  obtain ⟨levels', hitems⟩ := hitems
  refine ⟨max levels levels', List.forall_mem_cons.2 ⟨?_, fun i hi => ?_⟩⟩
  · exact h.mono (Nat.le_refl _) (Nat.le_max_left ..)
  · exact (hitems i hi).mono (Nat.le_refl _) (Nat.le_max_right ..)

/-- What is within a limit is within a wider one. -/
theorem mono {most most' : Nat} {items : List Item} (h : Bounded most items) (hle : most ≤ most') :
    Bounded most' items := by
  obtain ⟨levels, h⟩ := h
  exact ⟨levels, fun i hi => (h i hi).mono hle (Nat.le_refl _)⟩

/-- A list of items within its own limit, and others with another one. -/
theorem exists_cons {item : Item} {items : List Item}
    (h : ∃ most levels, item.Within most levels) (hitems : ∃ most, Bounded most items) :
    ∃ most, Bounded most (item :: items) := by
  obtain ⟨most, levels, h⟩ := h
  obtain ⟨most', hitems⟩ := hitems
  exact ⟨max most most', cons (h.mono (Nat.le_max_left ..) (Nat.le_refl levels))
    (hitems.mono (Nat.le_max_right ..))⟩

end Bounded

/-- All data is within some limit. -/
theorem Sequence.exists_bounded {bytes : List UInt8} {items : List Item}
    (h : Sequence bytes items) : ∃ most, Bounded most items := by
  induction h with
  | nil => exact ⟨0, .nil 0⟩
  | unsigned _ _ ih => exact Bounded.exists_cons ⟨0, 0, .unsigned 0 _⟩ ih
  | negative _ _ ih => exact Bounded.exists_cons ⟨0, 0, .negative 0 _⟩ ih
  | bytes _ _ ih => exact Bounded.exists_cons ⟨0, 0, .bytes 0 _⟩ ih
  | text _ _ ih => exact Bounded.exists_cons ⟨0, 0, .text 0 _⟩ ih
  | simple _ _ ih => exact Bounded.exists_cons ⟨0, 0, .simple 0 _⟩ ih
  | simpleByte _ _ ih => exact Bounded.exists_cons ⟨0, 0, .simple 0 _⟩ ih
  | float _ _ _ _ ih => exact Bounded.exists_cons ⟨0, 0, .float 0⟩ ih
  -- The limit has to be wide enough for the elements, and for their number.
  | @array _ _ _ elements _ _ _ _ ihbody ih | @openArray _ _ elements _ _ _ ihbody ih =>
    obtain ⟨most, hbody⟩ := ihbody
    obtain ⟨levels, hall⟩ := hbody.mono (Nat.le_max_left most elements.length)
    exact Bounded.exists_cons ⟨_, levels + 1, .array (Nat.le_max_right ..) hall⟩ ih
  | @map _ _ _ entries _ _ _ _ ihbody ih | @openMap _ _ entries _ _ _ ihbody ih =>
    obtain ⟨most, hbody⟩ := ihbody
    obtain ⟨levels, hall⟩ := hbody.mono (Nat.le_max_left most entries.length)
    exact Bounded.exists_cons ⟨_, levels + 1, .map (Nat.le_max_right ..) hall⟩ ih
  | tag _ _ _ ihbody ih =>
    obtain ⟨most, levels, hall⟩ := ihbody
    exact Bounded.exists_cons ⟨most, levels + 1, .tag _ (hall _ List.mem_cons_self)⟩ ih

/-! ### Values -/

mutual

/-- An item stands for a value. -/
def Shape.Stands : (s : Shape) → Item → s.Value → Prop
  | .text, i, x => i = .text (some x)
  | .flag, i, b => i = .ofBool b
  | .int, i, n => i = .ofInt n.toInt
  | .byte, i, n => i = .unsigned n.toNat
  | .list _, i, none => i = .simple 22
  | .list s, i, some xs => ∃ items, i = .array items ∧ List.Forall₂ s.Stands items xs
  | .record fields, i, x => ∃ entries : List (Nat × Item), i = .record entries ∧
    (entries.map Prod.fst).Nodup ∧ fields.Stand entries x

/-- The entries of a record stand for the values of its fields. A field without an entry has its
zero value. -/
def Fields.Stand : (fields : Fields) → List (Nat × Item) → fields.Values → Prop
  | .none, _, _ => True
  | .field number _ s others, entries, (x, rest) =>
    (match entries.lookup number with
      | some i => s.Stands i x
      | none => x = s.zero) ∧ others.Stand entries rest

end

/-- Whether values are texts, truth values or numbers. -/
def Shape.isScalar : Shape → Bool
  | .list _ | .record _ => false
  | _ => true

mutual

/-- A description whose records have fields with increasing numbers of 63 bits. Only texts, truth
values and numbers are left out at their zero value, and no list consists of bytes. -/
def Shape.isProper : Shape → Bool
  | .list .byte => false
  | .list s => s.isProper
  | .record fields => fields.areProper 0
  | _ => true

/-- Fields with increasing numbers, from a given one on. -/
def Fields.areProper (least : Nat) : Fields → Bool
  | .none => true
  | .field number omitted s others =>
    least ≤ number && number < 2 ^ 63 && s.isProper && others.areProper (number + 1) &&
      (!omitted || s.isScalar)

end

mutual

/-- A value whose texts have at most a number of bytes, and whose lists at most a number of
elements. -/
def Shape.Fits (bytes elements : Nat) : (s : Shape) → s.Value → Prop
  | .text, x => x.utf8ByteSize ≤ bytes
  | .flag, _ => True
  | .int, _ => True
  | .byte, _ => True
  | .list _, none => True
  | .list s, some xs => xs.length ≤ elements ∧ ∀ x ∈ xs, s.Fits bytes elements x
  | .record fields, x => fields.Fit bytes elements x

/-- The values of all fields are so. -/
def Fields.Fit (bytes elements : Nat) : (fields : Fields) → fields.Values → Prop
  | .none, _ => True
  | .field _ _ s others, (x, rest) => s.Fits bytes elements x ∧ others.Fit bytes elements rest

end

/-! ### Codecs -/

/-- The greatest length of texts and lists in the program. -/
def mostBytes : Nat := 2 ^ 64 - 1

/-- What the documentation of a codec with certain limits promises. -/
structure Codec.Spec (codec : Codec) (limits : Limits) : Prop where
  /-- A value is written in its canonical form. -/
  marshal : ∀ (s : Shape) (x : s.Value), s.isProper = true → s.Fits mostBytes mostBytes x →
    codec.marshal s x = .ok (s.canonical x)
  /-- What is read is one item with nothing behind it, and no list or record in it has more elements
  than the limit. -/
  whole : ∀ (s : Shape) (bytes : List UInt8) (x : s.Value), codec.unmarshal s bytes = .ok x →
    ∃ item, Data bytes item ∧ Bounded limits.elements [item]
  /-- An item within the limits that stands for a value is read as the value. -/
  unmarshal : ∀ (s : Shape) (bytes : List UInt8) (item : Item) (x : s.Value), s.isProper = true →
    Data bytes item → item.Within limits.elements limits.levels → s.Stands item x →
    codec.unmarshal s bytes = .ok x

end ClassScript.Cbor
