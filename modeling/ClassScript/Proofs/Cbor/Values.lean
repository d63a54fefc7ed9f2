import Mathlib.Data.List.Perm.Subperm
import ClassScript.Proofs.Cbor.Items

/-!
# Values

The canonical form of a value is well-formed data, of an item that stands for the value, and the
plain codec reads the value from any item that stands for it. So the plain codec is one of those
that `Codec.Spec` describes.
-/

namespace ClassScript.Cbor

/-! ### Descriptions -/

/-- What is proper about a field. -/
theorem Fields.areProper_field {least number : Nat} {omitted : Bool} {s : Shape} {others : Fields}
    (h : (Fields.field number omitted s others).areProper least = true) :
    least ≤ number ∧ number < 2 ^ 63 ∧ s.isProper = true ∧ others.areProper (number + 1) = true ∧
      (omitted = true → s.isScalar = true) := by
  rw [Fields.areProper] at h
  grind

/-- The elements of a proper list are proper. -/
theorem Shape.isProper_of_list {s : Shape} (h : (Shape.list s).isProper = true) :
    s.isProper = true := by
  cases s with
  | list s => exact h
  | record fields => exact h
  | byte => cases h
  | _ => rfl

/-- A value that is left out is the zero value. -/
theorem Shape.eq_zero_of_isEmpty {s : Shape} (hs : s.isScalar = true) {x : s.Value}
    (h : s.isEmpty x = true) : x = s.zero := by
  cases s with
  | text => exact String.isEmpty_iff.1 h
  | flag => exact Bool.not_eq_eq_eq_not.1 h
  | int => exact of_decide_eq_true h
  | byte => exact of_decide_eq_true h
  | list _ => cases hs
  | record _ => cases hs

/-! ### Items of values -/

mutual

/-- The item of a value. -/
def Shape.item : (s : Shape) → s.Value → Item
  | .text, x => .text (some x)
  | .flag, b => .ofBool b
  | .int, n => .ofInt n.toInt
  | .byte, n => .unsigned n.toNat
  | .list _, none => .simple 22
  | .list s, some xs => .array (xs.map s.item)
  | .record fields, x => .record (fields.entries x)

/-- The fields that are not left out, each with the item of its value. -/
def Fields.entries : (fields : Fields) → fields.Values → List (Nat × Item)
  | .none, _ => []
  | .field number omitted s others, (x, rest) =>
    if omitted && s.isEmpty x then others.entries rest
    else (number, s.item x) :: others.entries rest

end

/-- The numbers of the entries increase. -/
theorem Fields.pairwise_entries : (fields : Fields) → {least : Nat} →
    fields.areProper least = true → (x : fields.Values) →
    (∀ e ∈ fields.entries x, least ≤ e.1 ∧ e.1 < 2 ^ 63) ∧
      (fields.entries x).Pairwise (·.1 < ·.1)
  | .none, _, _, _ => ⟨List.forall_mem_nil _, .nil⟩
  | .field number omitted s others, least, h, (x, rest) => by
    obtain ⟨hleast, hnumber, -, hothers, -⟩ := Fields.areProper_field h
    obtain ⟨hall, hpairwise⟩ := others.pairwise_entries hothers rest
    rw [Fields.entries]
    split
    · exact ⟨fun e he => ⟨by have := (hall e he).1; omega, (hall e he).2⟩, hpairwise⟩
    · refine ⟨List.forall_mem_cons.2 ⟨⟨hleast, hnumber⟩, fun e he => ?_⟩,
        List.pairwise_cons.2 ⟨fun e he => (hall e he).1, hpairwise⟩⟩
      exact ⟨by have := (hall e he).1; omega, (hall e he).2⟩

/-- There are fewer fields than numbers for them. -/
theorem Fields.length_entries_lt {fields : Fields} {least : Nat}
    (h : fields.areProper least = true) (x : fields.Values) :
    (fields.entries x).length < 2 ^ 64 := by
  obtain ⟨hall, hpairwise⟩ := fields.pairwise_entries h x
  -- The numbers are different ones of 63 bits.
  have hnodup : ((fields.entries x).map Prod.fst).Nodup :=
    (List.pairwise_map.2 hpairwise).imp Nat.ne_of_lt
  have hsub : (fields.entries x).map Prod.fst ⊆ List.range (2 ^ 63) := by
    intro n hn
    obtain ⟨e, he, rfl⟩ := List.mem_map.1 hn
    exact List.mem_range.2 (hall e he).2
  have hle := (List.subperm_of_subset hnodup hsub).length_le
  rw [List.length_map, List.length_range] at hle
  exact Nat.lt_of_le_of_lt hle (by decide)

/-- The entries are those fields that are written. -/
theorem Fields.length_written : (fields : Fields) → (x : fields.Values) →
    (fields.written x).length = (fields.entries x).length
  | .none, _ => rfl
  | .field _ _ _ others, (_, rest) => by
    rw [Fields.written, Fields.entries]
    split
    · exact others.length_written rest
    · exact congrArg (· + 1) (others.length_written rest)

/-! ### The canonical form is data -/

/-- A start is written in the fewest bytes that hold its number. -/
theorem start_head (major : Nat) {n : Nat} (hn : n < 2 ^ 64) : Start major n (head major n) := by
  -- Every wide number is one for the same reason, whatever its width.
  have hwide {k : Nat} (hk : k < 4) (hn : n < 256 ^ 2 ^ k) :
      Start major n (firstByte major (24 + k) :: bigEndian n (2 ^ k)) := by
    have hstart : Start major (ofBigEndian (bigEndian n (2 ^ k))) _ :=
      .wide hk (length_bigEndian n (2 ^ k))
    rwa [ofBigEndian_bigEndian, Nat.mod_eq_of_lt hn] at hstart
  unfold head
  -- The widths are tried from the smallest one on.
  split
  · exact .short ‹_›
  · split
    · exact hwide (k := 0) (by decide) ‹_›
    · split
      · exact hwide (k := 1) (by decide) ‹_›
      · split
        · exact hwide (k := 2) (by decide) ‹_›
        · exact hwide (k := 3) (by decide) hn

/-- A number is data. -/
theorem data_unsigned {n : Nat} (hn : n < 2 ^ 64) : Data (unsigned n) (.unsigned n) :=
  .of_sequence (.unsigned (start_head 0 hn) .nil)

/-- An integer is data. -/
theorem data_integer (n : Int64) : Data (integer n.toInt) (.ofInt n.toInt) := by
  have hlow := n.le_toInt
  have hhigh := n.toInt_lt
  cases hn : n.toInt with
  | ofNat n =>
    rw [hn, Int.ofNat_eq_natCast] at hhigh
    exact data_unsigned (by omega)
  | negSucc n =>
    rw [hn] at hlow
    exact .of_sequence (.negative (start_head 1 (by omega)) .nil)

/-- A simple value is data. -/
theorem data_simple {n : Nat} (hn : n < 24) : Data (head 7 n) (.simple n) := by
  rw [head, if_pos hn]
  exact .of_sequence (.simple hn .nil)

/-- The bytes of a text make up the text. -/
theorem joinTexts?_toUTF8 (s : String) : joinTexts? [s.toUTF8.data.toList] = some s := by
  have htext : textOf? s.toUTF8.data.toList = some s := dif_pos s.isValidUTF8
  have hjoin : String.join [s] = s := by
    rw [String.join_cons, String.join_nil, String.append_empty]
  rw [joinTexts?, List.mapM_cons, htext]
  exact congrArg some hjoin

/-- A text is data. -/
theorem data_text {s : String} (hs : s.utf8ByteSize < 2 ^ 64) : Data (text s) (.text (some s)) := by
  have hstart : Start 3 s.toUTF8.data.toList.length (head 3 s.utf8ByteSize) := by
    rw [Array.length_toList]
    exact start_head 3 hs
  have hdata := Sequence.text (.whole hstart) .nil
  rw [joinTexts?_toUTF8] at hdata
  exact .of_sequence hdata

/-- Data behind data is a sequence. -/
theorem sequence_map {α : Type} {f : α → List UInt8} {g : α → Item} {xs : List α}
    (h : ∀ x ∈ xs, Data (f x) (g x)) : Sequence (xs.map f).flatten (xs.map g) := by
  induction xs with
  | nil => exact .nil
  | cons x xs ih =>
    obtain ⟨hx, hxs⟩ := List.forall_mem_cons.1 h
    exact hx.append (ih hxs)

/-- The keys and values of a record with numbers. -/
theorem alternating_cons (number : Nat) (item : Item) (entries : List (Nat × Item)) :
    alternating (((number, item) :: entries).map fun e => (.unsigned e.1, e.2)) =
      [.unsigned number] ++ ([item] ++ alternating (entries.map fun e => (.unsigned e.1, e.2))) := rfl

mutual

/-- The canonical form of a value is the data of its item. -/
theorem Shape.data_canonical : (s : Shape) → s.isProper = true → (x : s.Value) →
    s.Fits mostBytes mostBytes x → Data (s.canonical x) (s.item x)
  | .text, _, _, hx => data_text (Nat.lt_succ_of_le hx)
  | .flag, _, true, _ => data_simple (by decide : 21 < 24)
  | .flag, _, false, _ => data_simple (by decide : 20 < 24)
  | .int, _, n, _ => data_integer n
  | .byte, _, n, _ => data_unsigned (Nat.lt_trans n.toNat_lt (by decide))
  | .list _, _, none, _ => data_simple (by decide : 22 < 24)
  | .list s, hs, some xs, ⟨hlength, hall⟩ => by
    -- The elements of a list are data by the recursion; a missing list is the simple value for it.
    have hbody := sequence_map fun x hx =>
      s.data_canonical (Shape.isProper_of_list hs) x (hall x hx)
    refine .of_sequence (.array ?_ hbody .nil)
    rw [List.length_map, List.length_map]
    exact start_head 4 (Nat.lt_succ_of_le hlength)
  | .record fields, hs, x, hx => by
    refine .of_sequence (.map ?_ (fields.sequence_written hs x hx) .nil)
    rw [List.length_map, fields.length_written]
    exact start_head 5 (Fields.length_entries_lt hs x)

/-- The keys and values of a record are data, one behind the other. -/
theorem Fields.sequence_written : (fields : Fields) → {least : Nat} →
    fields.areProper least = true → (x : fields.Values) → fields.Fit mostBytes mostBytes x →
    Sequence ((fields.written x).flatMap fun f => unsigned f.1 ++ f.2)
      (alternating ((fields.entries x).map fun e => (.unsigned e.1, e.2)))
  | .none, _, _, _, _ => .nil
  | .field number omitted s others, _, h, (x, rest), ⟨hx, hrest⟩ => by
    obtain ⟨-, hnumber, hs, hothers, -⟩ := Fields.areProper_field h
    have hall := others.sequence_written hothers rest hrest
    rw [Fields.written, Fields.entries]
    split
    · exact hall
    · have hkey := data_unsigned (Nat.lt_trans hnumber (by decide))
      rw [List.flatMap_cons, List.append_assoc, alternating_cons]
      exact hkey.append ((s.data_canonical hs x hx).append hall)

end

/-! ### The item of a value stands for it -/

/-- Only the entries from the first number on matter to fields. -/
theorem Fields.Stand.congr : (fields : Fields) → {least : Nat} → fields.areProper least = true →
    {entries entries' : List (Nat × Item)} →
    (∀ n, least ≤ n → entries.lookup n = entries'.lookup n) → {x : fields.Values} →
    fields.Stand entries x → fields.Stand entries' x
  | .none, _, _, _, _, _, _, _ => trivial
  | .field number _ _ others, _, h, _, _, hsame, (_, _), ⟨hfield, hrest⟩ => by
    obtain ⟨hleast, -, -, hothers, -⟩ := Fields.areProper_field h
    refine ⟨hsame number hleast ▸ hfield, Fields.Stand.congr others hothers (fun n hn => ?_) hrest⟩
    exact hsame n (by omega)

mutual

/-- The item of a value stands for it. -/
theorem Shape.stands_item : (s : Shape) → s.isProper = true → (x : s.Value) →
    s.Stands (s.item x) x
  | .text, _, _ => rfl
  | .flag, _, _ => rfl
  | .int, _, _ => rfl
  | .byte, _, _ => rfl
  | .list _, _, none => rfl
  | .list s, hs, some xs => by
    refine ⟨_, rfl, List.forall₂_map_left_iff.2 (List.forall₂_same.2 fun x _ => ?_)⟩
    exact s.stands_item (Shape.isProper_of_list hs) x
  | .record fields, hs, x => by
    obtain ⟨-, hpairwise⟩ := fields.pairwise_entries hs x
    exact ⟨_, rfl, (List.pairwise_map.2 hpairwise).imp Nat.ne_of_lt, fields.stand_entries hs x⟩

/-- The entries stand for the values of the fields. -/
theorem Fields.stand_entries : (fields : Fields) → {least : Nat} →
    fields.areProper least = true → (x : fields.Values) → fields.Stand (fields.entries x) x
  | .none, _, _, _ => trivial
  | .field number omitted s others, _, h, (x, rest) => by
    obtain ⟨-, -, hs, hothers, hscalar⟩ := Fields.areProper_field h
    have hstand := others.stand_entries hothers rest
    rw [Fields.entries]
    split
    · next hempty =>
      -- The field is left out, and none of the later ones has its number.
      obtain ⟨homitted, hempty⟩ := Bool.and_eq_true_iff.1 hempty
      obtain ⟨hall, -⟩ := others.pairwise_entries hothers rest
      have hnone : (others.entries rest).lookup number = none := by
        refine List.lookup_eq_none_iff.2 fun e he => ?_
        have := (hall e he).1
        exact bne_iff_ne.2 (by omega)
      refine ⟨?_, hstand⟩
      rw [hnone]
      exact Shape.eq_zero_of_isEmpty (hscalar homitted) hempty
    · refine ⟨?_, Fields.Stand.congr others hothers (fun n hn => ?_) hstand⟩
      · rw [List.lookup_cons_self]
        exact s.stands_item hs x
      · rw [List.lookup_cons, beq_false_of_ne (by omega)]

end

/-- A field that is not left out at its zero value has an entry. -/
theorem Fields.mem_entries_head (number : Nat) (s : Shape) (others : Fields) (x : s.Value)
    (rest : others.Values) :
    (number, s.item x) ∈ (Fields.field number false s others).entries (x, rest) := by
  rw [Fields.entries, Bool.false_and, if_neg Bool.false_ne_true]
  exact List.mem_cons_self

/-- The entries of the later fields are entries. -/
theorem Fields.mem_entries_tail (number : Nat) (omitted : Bool) (s : Shape) {others : Fields}
    (x : s.Value) {rest : others.Values} {e : Nat × Item} (he : e ∈ others.entries rest) :
    e ∈ (Fields.field number omitted s others).entries (x, rest) := by
  rw [Fields.entries]
  split
  · exact he
  · exact List.mem_cons_of_mem _ he

/-- The value of an entry is one of the items inside a record. -/
theorem mem_alternating {entries : List (Nat × Item)} {e : Nat × Item} (he : e ∈ entries) :
    e.2 ∈ alternating (entries.map fun e => (.unsigned e.1, e.2)) :=
  List.mem_flatMap.2 ⟨_, List.mem_map_of_mem he, List.mem_cons_of_mem _ List.mem_cons_self⟩

/-! ### Limits -/

/-- The number of fields. -/
def Fields.count : Fields → Nat
  | .none => 0
  | .field _ _ _ others => others.count + 1

mutual

/-- A description of lists and records inside each other up to a number of levels, and of records
of at most a number of fields. -/
def Shape.isWithin (most : Nat) : (levels : Nat) → Shape → Bool
  | levels + 1, .list s => s.isWithin most levels
  | levels + 1, .record fields => fields.count ≤ most && fields.areWithin most levels
  | 0, .list _ | 0, .record _ => false
  | _, _ => true

/-- The fields of a record are so. -/
def Fields.areWithin (most levels : Nat) : Fields → Bool
  | .none => true
  | .field _ _ s others => s.isWithin most levels && others.areWithin most levels

end

/-- There are no more entries than fields. -/
theorem Fields.length_entries_le : (fields : Fields) → (x : fields.Values) →
    (fields.entries x).length ≤ fields.count
  | .none, _ => Nat.le_refl 0
  | .field _ _ _ others, (_, rest) => by
    have := others.length_entries_le rest
    rw [Fields.entries]
    split
    · exact Nat.le_succ_of_le this
    · exact Nat.succ_le_succ this

variable {bytes most fieldsMost : Nat}

mutual

/-- The item of a value is within the limits that its description and its lists are within. -/
theorem Shape.within_item (hmost : fieldsMost ≤ most) : (levels : Nat) → (s : Shape) →
    s.isWithin fieldsMost levels = true → (x : s.Value) → s.Fits bytes most x →
    (s.item x).Within most levels
  | levels, .text, _, x, _ => .text levels (some x)
  | levels, .flag, _, b, _ => .simple levels _
  | levels, .int, _, n, _ => by
    rw [Shape.item]
    cases n.toInt with
    | ofNat n => exact .unsigned levels n
    | negSucc n => exact .negative levels n
  | levels, .byte, _, n, _ => .unsigned levels n.toNat
  | levels, .list _, _, none, _ => .simple levels 22
  | levels + 1, .list s, hs, some xs, ⟨hlength, hall⟩ => by
    -- A list takes a level, and its elements are within the levels that are left.
    refine .array (by rwa [List.length_map]) fun i hi => ?_
    obtain ⟨x, hx, rfl⟩ := List.mem_map.1 hi
    exact s.within_item hmost levels hs x (hall x hx)
  | levels + 1, .record fields, hs, x, hx => by
    obtain ⟨hcount, hfields⟩ := Bool.and_eq_true_iff.1 hs
    refine .map ?_ (fields.within_entries hmost levels hfields x hx)
    rw [List.length_map]
    exact Nat.le_trans (fields.length_entries_le x)
      (Nat.le_trans (of_decide_eq_true hcount) hmost)

/-- So are the keys and values of a record. -/
theorem Fields.within_entries (hmost : fieldsMost ≤ most) (levels : Nat) : (fields : Fields) →
    fields.areWithin fieldsMost levels = true → (x : fields.Values) → fields.Fit bytes most x →
    ∀ i ∈ alternating ((fields.entries x).map fun e => (.unsigned e.1, e.2)), i.Within most levels
  | .none, _, _, _ => List.forall_mem_nil _
  | .field number omitted s others, h, (x, rest), ⟨hx, hrest⟩ => by
    obtain ⟨hs, hothers⟩ := Bool.and_eq_true_iff.1 h
    have hall := others.within_entries hmost levels hothers rest hrest
    rw [Fields.entries]
    split
    · exact hall
    · rw [alternating_cons]
      exact List.forall_mem_cons.2 ⟨.unsigned levels number,
        List.forall_mem_cons.2 ⟨s.within_item hmost levels hs x hx, hall⟩⟩

end

/-! ### The plain codec -/

/-- The fields of a record with numbers for its keys. -/
theorem record?_record (entries : List (Nat × Item)) :
    (Item.record entries).record? = some entries := by
  -- Every key is a number, so every entry has one.
  have hnumbered : (entries.map fun e => (Item.unsigned e.1, e.2)).mapM
      (fun e => e.1.fieldNumber?.bind fun number => some (number, e.2)) =
        some (entries.map fun e => (some e.1, e.2)) := by
    induction entries with
    | nil => rfl
    | cons e entries ih =>
      rw [List.map_cons, List.mapM_cons]
      refine Option.bind_eq_some_iff.2 ⟨(some e.1, e.2), rfl, ?_⟩
      exact Option.bind_eq_some_iff.2 ⟨_, ih, rfl⟩
  refine Option.bind_eq_some_iff.2 ⟨_, hnumbered, congrArg some ?_⟩
  clear hnumbered
  induction entries with
  | nil => rfl
  | cons e entries ih => exact congrArg (e :: ·) ih

/-- The number of the item of an integer. -/
theorem number?_ofInt (n : Int) : (Item.ofInt n).number? = some n := by
  cases n with
  | ofNat n => rfl
  | negSucc n => exact congrArg some (by omega)

/-- A value without tags that is not null is read as it is. -/
theorem field?_some {α : Type} (read : Item → Option α) (zero : α) {item : Item}
    (htags : item.untagged? = some item) (hnull : item.isNull = false) :
    Item.field? read zero (some item) = read item := by
  rw [Item.field?, htags, Option.bind_eq_bind, Option.bind_some, hnull, if_neg Bool.false_ne_true]

/-- An integer is read back. -/
theorem field?_int (n : Int64) :
    Item.field? Shape.int.read? Shape.int.zero (some (.ofInt n.toInt)) = some n := by
  have hlow := n.le_toInt
  have hhigh := n.toInt_lt
  rw [field?_some, Shape.read?, Item.int64?, number?_ofInt, Option.bind_eq_bind, Option.bind_some,
    if_pos ⟨hlow, Int.le_of_lt_add_one hhigh⟩, Int64.ofInt_toInt]
  · cases n.toInt <;> rfl
  · cases n.toInt <;> rfl

/-- A byte is read back. -/
theorem field?_byte (n : UInt8) :
    Item.field? Shape.byte.read? Shape.byte.zero (some (.unsigned n.toNat)) = some n := by
  have hbound := n.toNat_lt
  rw [field?_some _ _ rfl rfl, Shape.read?, Item.byte?, Item.number?, Option.bind_eq_bind,
    Option.bind_some, if_pos (by omega), Int.toNat_natCast, UInt8.ofNat_toNat]

mutual

/-- An item that stands for a value is read as the value. -/
theorem Shape.field?_eq_some : (s : Shape) → {i : Item} → {x : s.Value} → s.Stands i x →
    Item.field? s.read? s.zero (some i) = some x
  | .text, _, _, rfl => rfl
  | .flag, _, true, rfl => rfl
  | .flag, _, false, rfl => rfl
  | .int, _, n, rfl => field?_int n
  | .byte, _, n, rfl => field?_byte n
  | .list _, _, none, rfl => rfl
  | .list s, _, some xs, ⟨items, hi, hall⟩ => by
    subst hi
    -- On the elements, each of which stands for its value.
    have hread : items.mapM (fun i => Item.field? s.read? s.zero (some i)) = some xs := by
      induction hall with
      | nil => rfl
      | cons hstands _ ih =>
        rw [List.mapM_cons, s.field?_eq_some hstands, ih]
        rfl
    rw [field?_some _ _ rfl rfl, Shape.read?, hread]
    rfl
  | .record fields, _, x, ⟨entries, hi, _, hstand⟩ => by
    subst hi
    rw [field?_some _ _ rfl rfl, Shape.read?, record?_record]
    exact fields.read?_eq_some hstand

/-- Entries that stand for the values of fields are read as the values. -/
theorem Fields.read?_eq_some : (fields : Fields) → {entries : List (Nat × Item)} →
    {x : fields.Values} → fields.Stand entries x → fields.read? entries = some x
  | .none, _, _, _ => rfl
  | .field number _ s others, entries, (x, rest), ⟨hfield, hrest⟩ => by
    -- A field without an entry has the value that stands for its absence.
    have hvalue : Item.field? s.read? s.zero (entries.lookup number) = some x := by
      split at hfield
      · next i hi =>
        rw [hi]
        exact s.field?_eq_some hfield
      · next hnone =>
        rw [hnone, hfield]
        rfl
    rw [Fields.read?, hvalue, others.read?_eq_some hrest]
    rfl

end

/-- A whole input is read as an item if the item is all of it. -/
theorem read?_eq_some_iff {limits : Limits} {bytes : List UInt8} {item : Item} :
    read? limits bytes = some item ↔
      item? limits.elements (2 * bytes.length + 2) limits.levels bytes = some (item, []) := by
  unfold read?
  cases item? limits.elements (2 * bytes.length + 2) limits.levels bytes with
  | none => simp
  | some r => grind

/-- The plain codec keeps what the documentation of a codec promises. -/
theorem Codec.plain_spec : Codec.plain.Spec {} where
  marshal _ _ _ _ := rfl
  whole s bytes x h := by
    rw [Codec.plain] at h
    dsimp only at h
    split at h
    case h_2 => cases h
    -- Bytes that were read are the data of one item, with nothing left behind it.
    next hread =>
      obtain ⟨item, hitem, -⟩ := Option.bind_eq_some_iff.1 hread
      obtain ⟨part, rfl, hdata, hbounded⟩ := item?_sound (read?_eq_some_iff.1 hitem)
      rw [List.append_nil]
      exact ⟨item, hdata, hbounded⟩
  unmarshal s bytes item x _ hdata hwithin hstands := by
    -- There is fuel enough for every byte of the data.
    have hread := (hdata.reads hwithin).read (2 * bytes.length + 2) [] (by omega)
    rw [List.append_nil] at hread
    rw [Codec.plain]
    dsimp only
    rw [read?_eq_some_iff.2 hread, Option.bind_some, s.field?_eq_some hstands]

end ClassScript.Cbor
