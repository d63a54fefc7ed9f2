import Mathlib.Data.List.Forall2
import ClassScript.Proofs.Cbor.Strings

/-!
# Items

The plain codec reads an item exactly where there is well-formed data: what it reads is data, by
induction on the calls that are left, and data within its limits is read whatever follows it, by
induction on the data. So no bytes are data in two ways.
-/

namespace ClassScript.Cbor

variable {max : Nat}

/-! ### What an item is read from -/

/-- There is nothing to read at the end of an open item. -/
theorem item?_break (max fuel levels : Nat) (rest : List UInt8) :
    item? max fuel levels (breakByte :: rest) = none := by
  cases fuel with
  | zero => rw [item?]
  | succ fuel =>
    rw [item?]
    rfl

/-- Neighbours are paired up as they stand. -/
theorem pairs?_eq_some_iff {items : List Item} {entries : List (Item × Item)} :
    pairs? items = some entries ↔ items = alternating entries := by
  -- Two at a time, as the pairs are made; a key without a value is no pair.
  fun_induction pairs? items generalizing entries with
  | case1 => cases entries <;> simp [alternating]
  | case2 key value rest ih =>
    constructor
    · intro h
      obtain ⟨others, hothers, rfl⟩ := Option.map_eq_some_iff.1 h
      exact congrArg (key :: value :: ·) (ih.1 hothers)
    · intro h
      cases entries with
      | nil => cases h
      | cons e entries =>
        obtain ⟨rfl, rfl, hrest⟩ : key = e.1 ∧ value = e.2 ∧ rest = alternating entries := by
          simpa [alternating] using h
        rw [ih.2 hrest]
        rfl
  | case3 key => cases entries <;> simp [alternating]

/-- Keys and values are twice as many as the entries. -/
@[simp]
theorem length_alternating (entries : List (Item × Item)) :
    (alternating entries).length = entries.length * 2 := by
  simp [alternating]

section

variable {h : Head} {bytes rest : List UInt8} (hhead : head? bytes = some (h, rest))
  (fuel levels : Nat)

include hhead

/-- A string is read behind its start. -/
theorem item?_string (hlow : 2 ≤ h.major) (hhigh : h.major ≤ 3) :
    item? max (fuel + 1) levels bytes = string? h rest := by
  rw [item?, hhead]
  obtain ⟨major, info, n⟩ := h
  obtain rfl | rfl : major = 2 ∨ major = 3 := by
    dsimp only at hlow hhigh
    omega
  · rfl
  · rfl

/-- A list is read behind its start. -/
theorem item?_array (hmajor : h.major = 4) : item? max (fuel + 1) levels bytes =
    (elements? max fuel levels h rest max).map fun (items, rest) => (.array items, rest) := by
  rw [item?, hhead]
  dsimp only [Option.bind_eq_bind, Option.bind_some]
  rw [hmajor]
  cases elements? max fuel levels h rest max <;> rfl

/-- A record is read behind its start. -/
theorem item?_map (hmajor : h.major = 5) : item? max (fuel + 1) levels bytes =
    (elements? max fuel levels h rest (2 * max)).bind fun (items, rest) =>
      (pairs? items).map fun entries => (.map entries, rest) := by
  rw [item?, hhead]
  dsimp only [Option.bind_eq_bind, Option.bind_some]
  rw [hmajor]
  cases elements? max fuel levels h rest (2 * max) with
  | none => rfl
  | some r =>
    dsimp only [Option.bind_some]
    cases pairs? r.1 <;> rfl

/-- Nothing stands behind the start of a simple value or a floating-point number. -/
theorem item?_simple (hmajor : h.major = 7) : item? max (fuel + 1) levels bytes =
    some (if 25 ≤ h.info then .float else .simple h.number, rest) := by
  rw [item?, hhead]
  obtain ⟨major, info, n⟩ := h
  obtain rfl : major = 7 := hmajor
  refine Eq.trans ?_ (apply_ite (fun i => some (i, rest)) (25 ≤ info) Item.float (.simple n)).symm
  rfl

/-- The content of a tag is read behind its start. Another tag right behind it takes a level. -/
theorem item?_tag (hmajor : h.major = 6) : item? max (fuel + 1) levels bytes =
    if nextMajor? rest = some 6 then
      match levels with
      | 0 => none
      | levels + 1 => (item? max fuel levels rest).map fun r => (.tag h.number r.1, r.2)
    else (item? max fuel levels rest).map fun r => (.tag h.number r.1, r.2) := by
  rw [item?, hhead]
  obtain ⟨major, info, n⟩ := h
  obtain rfl : major = 6 := hmajor
  have hcontent (levels : Nat) :
      ((item? max fuel levels rest).bind fun r => some (Item.tag n r.1, r.2)) =
        (item? max fuel levels rest).map fun r => (.tag n r.1, r.2) := by
    cases item? max fuel levels rest <;> rfl
  -- Only a tag right behind takes a level.
  by_cases hnext : nextMajor? rest = some 6
  · refine (if_pos hnext).trans (Eq.trans ?_ (if_pos hnext).symm)
    cases levels with
    | zero => rfl
    | succ levels => exact hcontent levels
  · exact (if_neg hnext).trans ((hcontent levels).trans (if_neg hnext).symm)

end

section

variable {fuel levels limit : Nat} {bytes : List UInt8}

/-- An open item ends at its last byte. -/
theorem openItems?_of_break (h : bytes.head? = some breakByte) :
    openItems? max fuel levels limit bytes = some ([], bytes.tail) := by
  rw [openItems?.eq_def]
  exact if_pos h

/-- An open item goes on at any other byte. -/
theorem openItems?_of_ne_break (h : bytes.head? ≠ some breakByte) :
    openItems? max fuel levels limit bytes =
      match fuel, limit with
      | fuel + 1, limit + 1 =>
        (item? max fuel levels bytes).bind fun r =>
          (openItems? max fuel levels limit r.2).bind fun others => some (r.1 :: others.1, others.2)
      | _, _ => none := by
  rw [openItems?.eq_def]
  refine (if_neg h).trans ?_
  cases fuel <;> cases limit <;> rfl

end

/-! ### What is read is data -/

/-- Bytes in front of a rest that are items within a limit on elements. -/
def Holds (max : Nat) (bytes rest : List UInt8) (items : List Item) : Prop :=
  ∃ part, bytes = part ++ rest ∧ Sequence part items ∧ Bounded max items

namespace Holds

/-- No bytes are no items. -/
theorem nil (max : Nat) (bytes : List UInt8) : Holds max bytes bytes [] :=
  ⟨[], rfl, .nil, .nil max⟩

/-- An item in front of others. -/
theorem cons {bytes left rest : List UInt8} {item : Item} {items : List Item}
    (h : Holds max bytes left [item]) (h' : Holds max left rest items) :
    Holds max bytes rest (item :: items) := by
  obtain ⟨part, rfl, hdata, levels, hitem⟩ := h
  obtain ⟨part', rfl, hdata', hitems⟩ := h'
  exact ⟨part ++ part', (List.append_assoc ..).symm, hdata.append hdata',
    .cons (hitem item (List.mem_singleton_self _)) hitems⟩

/-- Bytes that are data make up the item in front of any rest. -/
theorem of_data {part rest : List UInt8} {item : Item} (h : Data part item) {levels : Nat}
    (hitem : item.Within max levels) : Holds max (part ++ rest) rest [item] :=
  ⟨part, rfl, h, .cons hitem (.nil max)⟩

end Holds

/-- Data is a sequence of one item, with nothing behind it. -/
theorem Data.of_sequence {part : List UInt8} {item : Item} (h : Sequence (part ++ []) [item]) :
    Data part item := List.append_nil part ▸ h

/-- With fewer calls, only data is read. -/
def SoundBelow (max bound : Nat) : Prop :=
  ∀ fuel < bound, ∀ levels bytes item rest,
    item? max fuel levels bytes = some (item, rest) → Holds max bytes rest [item]

/-- Items that are counted are data. -/
theorem items?_sound {fuel : Nat} (h : SoundBelow max fuel) {levels count : Nat}
    {bytes rest : List UInt8} {items : List Item}
    (hread : items? max fuel levels count bytes = some (items, rest)) :
    Holds max bytes rest items ∧ items.length = count := by
  -- On the count. Every item is read with less fuel, where reading is known to be sound.
  induction count generalizing fuel bytes items with
  | zero =>
    rw [items?] at hread
    cases hread
    exact ⟨.nil max _, rfl⟩
  | succ count ih =>
    cases fuel with
    | zero =>
      rw [items?] at hread
      cases hread
    | succ fuel =>
      rw [items?] at hread
      obtain ⟨⟨first, left⟩, hfirst, hread⟩ := Option.bind_eq_some_iff.1 hread
      obtain ⟨⟨others, left'⟩, hothers, heq⟩ := Option.bind_eq_some_iff.1 hread
      cases heq
      obtain ⟨hrest, hlength⟩ := ih (fun f hf => h f (Nat.lt_succ_of_lt hf)) hothers
      exact ⟨(h fuel (Nat.lt_succ_self fuel) _ _ _ _ hfirst).cons hrest,
        congrArg (· + 1) hlength⟩

/-- Items up to the end of an open item are data, with the byte that ends it. -/
theorem openItems?_sound {fuel : Nat} (h : SoundBelow max fuel) {levels limit : Nat}
    {bytes rest : List UInt8} {items : List Item}
    (hread : openItems? max fuel levels limit bytes = some (items, rest)) :
    Holds max bytes (breakByte :: rest) items ∧ items.length ≤ limit := by
  -- On the limit; the byte that ends the row may come earlier, and is left in place.
  induction limit generalizing fuel bytes items with
  | zero =>
    by_cases hbreak : bytes.head? = some breakByte
    · rw [openItems?_of_break hbreak] at hread
      cases hread
      rw [← eq_break_cons hbreak]
      exact ⟨.nil max bytes, Nat.le_refl 0⟩
    · rw [openItems?_of_ne_break hbreak] at hread
      cases fuel <;> cases hread
  | succ limit ih =>
    by_cases hbreak : bytes.head? = some breakByte
    · rw [openItems?_of_break hbreak] at hread
      cases hread
      rw [← eq_break_cons hbreak]
      exact ⟨.nil max bytes, Nat.zero_le _⟩
    · rw [openItems?_of_ne_break hbreak] at hread
      cases fuel with
      | zero => cases hread
      | succ fuel =>
        obtain ⟨⟨first, left⟩, hfirst, hread⟩ := Option.bind_eq_some_iff.1 hread
        obtain ⟨⟨others, left'⟩, hothers, heq⟩ := Option.bind_eq_some_iff.1 hread
        cases heq
        obtain ⟨hrest, hlength⟩ := ih (fun f hf => h f (Nat.lt_succ_of_lt hf)) hothers
        exact ⟨(h fuel (Nat.lt_succ_self fuel) _ _ _ _ hfirst).cons hrest,
          Nat.succ_le_succ hlength⟩

/-- The elements of a list, or the keys and values of a record, are data. They are as many as the
start says, or they are ended by a byte of their own. -/
theorem elements?_sound {fuel : Nat} (h : SoundBelow max fuel) {levels limit : Nat} {head : Head}
    {bytes rest : List UInt8} {items : List Item}
    (hread : elements? max fuel levels head bytes limit = some (items, rest)) :
    items.length ≤ limit ∧
      if head.info = 31 then Holds max bytes (breakByte :: rest) items
      else Holds max bytes rest items ∧
        items.length = head.number * if head.major = 5 then 2 else 1 := by
  cases levels with
  | zero =>
    rw [elements?] at hread
    cases hread
  | succ levels =>
    rw [elements?] at hread
    -- An open row ends with its byte, and another one at the number in its head.
    by_cases hopen : head.info = 31
    · rw [if_pos hopen] at hread ⊢
      obtain ⟨hholds, hlength⟩ := openItems?_sound h hread
      exact ⟨hlength, hholds⟩
    · rw [if_neg hopen] at hread ⊢
      obtain ⟨hlimit, hread⟩ := Option.ite_none_right_eq_some.1 hread
      obtain ⟨hholds, hlength⟩ := items?_sound h hread
      exact ⟨hlength ▸ hlimit, hholds, hlength⟩

/-- A list that is read is data. -/
theorem array_sound {h : Head} {start left rest : List UInt8} {items : List Item}
    (hform : h.Form start) (hmajor : h.major = 4) (hlimit : items.length ≤ max)
    (hitems : if h.info = 31 then Holds max left (breakByte :: rest) items
      else Holds max left rest items ∧
        items.length = h.number * if h.major = 5 then 2 else 1) :
    Holds max (start ++ left) rest [.array items] := by
  by_cases hopen : h.info = 31
  · rw [if_pos hopen] at hitems
    obtain ⟨part, rfl, hpart, levels, hwithin⟩ := hitems
    -- The open form holds the items and the byte that ends them.
    have hdata : Data (firstByte 4 31 :: (part ++ [breakByte])) (.array items) :=
      .of_sequence (.openArray hpart .nil)
    have hholds : Holds max (_ ++ rest) rest _ := .of_data hdata (.array hlimit hwithin)
    rw [hform.eq_opened hopen, hmajor]
    simpa using hholds
  · rw [if_neg hopen] at hitems
    obtain ⟨⟨part, rfl, hpart, levels, hwithin⟩, hlength⟩ := hitems
    have hstart : Start 4 items.length start := by
      rw [hlength, hmajor, if_neg (by decide), Nat.mul_one, ← hmajor]
      exact hform.toStart hopen
    rw [← List.append_assoc]
    exact .of_data (.of_sequence (.array hstart hpart .nil)) (.array hlimit hwithin)

/-- A record that is read is data. -/
theorem map_sound {h : Head} {start left rest : List UInt8} {entries : List (Item × Item)}
    (hform : h.Form start) (hmajor : h.major = 5) (hlimit : (alternating entries).length ≤ 2 * max)
    (hitems : if h.info = 31 then Holds max left (breakByte :: rest) (alternating entries)
      else Holds max left rest (alternating entries) ∧
        (alternating entries).length = h.number * if h.major = 5 then 2 else 1) :
    Holds max (start ++ left) rest [.map entries] := by
  rw [length_alternating] at hlimit hitems
  -- Keys and values are counted together, so there are half as many entries.
  have hmost : entries.length ≤ max := by omega
  by_cases hopen : h.info = 31
  · rw [if_pos hopen] at hitems
    obtain ⟨part, rfl, hpart, levels, hwithin⟩ := hitems
    have hdata : Data (firstByte 5 31 :: (part ++ [breakByte])) (.map entries) :=
      .of_sequence (.openMap hpart .nil)
    have hholds : Holds max (_ ++ rest) rest _ := .of_data hdata (.map hmost hwithin)
    rw [hform.eq_opened hopen, hmajor]
    simpa using hholds
  · rw [if_neg hopen] at hitems
    obtain ⟨⟨part, rfl, hpart, levels, hwithin⟩, hlength⟩ := hitems
    have hstart : Start 5 entries.length start := by
      rw [hmajor, if_pos rfl] at hlength
      rw [Nat.eq_of_mul_eq_mul_right (by decide) hlength, ← hmajor]
      exact hform.toStart hopen
    rw [← List.append_assoc]
    exact .of_data (.of_sequence (.map hstart hpart .nil)) (.map hmost hwithin)

/-- A string that is read is data. -/
theorem string_sound {h : Head} {start left rest : List UInt8} {item : Item} (hform : h.Form start)
    (hmajor : h.major = 2 ∨ h.major = 3) (hread : string? h left = some (item, rest)) :
    Holds max (start ++ left) rest [item] := by
  obtain ⟨body, chunks, hstrand, rfl, rfl⟩ := string?_sound hform hread
  rw [← List.append_assoc]
  rcases hmajor with hmajor | hmajor
  · rw [hmajor] at hstrand ⊢
    exact .of_data (.of_sequence (.bytes hstrand .nil)) (.bytes 0 _)
  · rw [hmajor] at hstrand ⊢
    exact .of_data (.of_sequence (.text hstrand .nil)) (.text 0 _)

/-- A tagged item that is read is data. -/
theorem tag_sound {h : Head} {start left rest : List UInt8} {content : Item} (hform : h.Form start)
    (hmajor : h.major = 6) (hcontent : Holds max left rest [content]) :
    Holds max (start ++ left) rest [.tag h.number content] := by
  obtain ⟨part, rfl, hpart, levels, hwithin⟩ := hcontent
  have hstart := hform.toStart (hform.info_ne (.inr (by omega)))
  rw [hmajor] at hstart
  rw [← List.append_assoc]
  exact .of_data (.of_sequence (.tag hstart hpart .nil))
    (.tag _ (hwithin _ (List.mem_singleton_self _)))

/-- A simple value or a floating-point number that is read is data. -/
theorem simple_sound {h : Head} {start : List UInt8} (hform : h.Form start) (hmajor : h.major = 7)
    (rest : List UInt8) :
    Holds max (start ++ rest) rest [if 25 ≤ h.info then .float else .simple h.number] := by
  cases hform with
  | @short major n _ hn =>
    obtain rfl : major = 7 := hmajor
    rw [if_neg (by dsimp only; omega)]
    exact .of_data (.of_sequence (.simple hn .nil)) (.simple 0 n)
  | @wide major k number _ hk hnumber hproper =>
    obtain rfl : major = 7 := hmajor
    -- One byte more is a simple value; two, four or eight are a floating-point number.
    cases k with
    | zero =>
      obtain ⟨b, rfl⟩ := List.length_eq_one_iff.1 hnumber
      have hb := hproper rfl rfl
      rw [ofBigEndian_singleton] at hb ⊢
      rw [if_neg (by simp)]
      exact .of_data (.of_sequence (.simpleByte hb .nil)) (.simple 0 _)
    | succ k =>
      rw [if_pos (by dsimp only; omega)]
      exact .of_data (.of_sequence (.float (Nat.succ_pos k) hk hnumber .nil)) (.float 0)
  | opened _ hhigh =>
    dsimp only at hmajor
    omega

/-- What is read is data. -/
theorem item?_sound {fuel levels : Nat} {bytes rest : List UInt8} {item : Item}
    (hread : item? max fuel levels bytes = some (item, rest)) : Holds max bytes rest [item] := by
  induction fuel using Nat.strongRecOn generalizing levels bytes item rest with
  | ind fuel ih =>
    cases fuel with
    | zero =>
      rw [item?] at hread
      cases hread
    | succ fuel =>
      have hbelow : SoundBelow max fuel := fun f hf _ _ _ _ hread =>
        ih f (Nat.lt_succ_of_lt hf) hread
      cases hhead : head? bytes with
      | none =>
        rw [item?, hhead] at hread
        cases hread
      | some r =>
        obtain ⟨⟨major, info, number⟩, left⟩ := r
        obtain ⟨start, hform, rfl⟩ := head?_eq_some_iff.1 hhead
        have hmajor : major < 8 := hform.major_lt
        -- The major types from 0 to 6, and the simple values.
        rcases major with _ | _ | _ | _ | _ | _ | _ | _ | major
        · rw [item?, hhead] at hread
          cases hread
          have hstart := hform.toStart (hform.info_ne (.inl (by simp)))
          exact .of_data (.of_sequence (.unsigned hstart .nil)) (.unsigned 0 number)
        · rw [item?, hhead] at hread
          cases hread
          have hstart := hform.toStart (hform.info_ne (.inl (by simp)))
          exact .of_data (.of_sequence (.negative hstart .nil)) (.negative 0 number)
        · rw [item?_string hhead fuel levels (by simp) (by simp)] at hread
          exact string_sound hform (.inl rfl) hread
        · rw [item?_string hhead fuel levels (by simp) (by simp)] at hread
          exact string_sound hform (.inr rfl) hread
        · rw [item?_array hhead fuel levels rfl] at hread
          obtain ⟨⟨items, _⟩, helements, heq⟩ := Option.map_eq_some_iff.1 hread
          cases heq
          obtain ⟨hlimit, hitems⟩ := elements?_sound hbelow helements
          exact array_sound hform rfl hlimit hitems
        · rw [item?_map hhead fuel levels rfl] at hread
          obtain ⟨⟨items, _⟩, helements, hpairs⟩ := Option.bind_eq_some_iff.1 hread
          obtain ⟨entries, hentries, heq⟩ := Option.map_eq_some_iff.1 hpairs
          cases heq
          obtain rfl := pairs?_eq_some_iff.1 hentries
          obtain ⟨hlimit, hitems⟩ := elements?_sound hbelow helements
          exact map_sound hform rfl hlimit hitems
        · rw [item?_tag hhead fuel levels rfl] at hread
          have hcontent (levels : Nat)
              (hread : (item? max fuel levels left).map (fun r => (Item.tag number r.1, r.2)) =
                some (item, rest)) : Holds max (start ++ left) rest [item] := by
            obtain ⟨⟨content, _⟩, hcontent, heq⟩ := Option.map_eq_some_iff.1 hread
            cases heq
            exact tag_sound hform rfl (ih fuel (Nat.lt_succ_self fuel) hcontent)
          split at hread
          · cases levels with
            | zero => cases hread
            | succ levels => exact hcontent levels hread
          · exact hcontent levels hread
        · rw [item?_simple hhead fuel levels rfl] at hread
          cases hread
          exact simple_sound hform rfl _
        · omega

/-! ### Data is read -/

/-- Bytes that are read as an item whatever follows them, with two calls for every byte. -/
structure Reads (max levels : Nat) (bytes : List UInt8) (item : Item) : Prop where
  /-- There are some bytes. -/
  nonempty : bytes ≠ []
  /-- They are read as the item. -/
  read : ∀ fuel rest, 2 * bytes.length ≤ fuel + 1 →
    item? max fuel levels (bytes ++ rest) = some (item, rest)

/-- What follows the start of an item has two calls for every byte. -/
theorem Reads.of_form {levels : Nat} {h : Head} {start body : List UInt8} {item : Item}
    (hform : h.Form start)
    (hread : ∀ fuel rest, 2 * body.length ≤ fuel →
      item? max (fuel + 1) levels (start ++ (body ++ rest)) = some (item, rest)) :
    Reads max levels (start ++ body) item where
  nonempty := List.append_ne_nil_of_left_ne_nil (List.length_pos_iff.1 hform.length_pos) body
  read fuel rest hfuel := by
    have := hform.length_pos
    rw [List.length_append] at hfuel
    obtain ⟨fuel, rfl⟩ : ∃ f, fuel = f + 1 := ⟨fuel - 1, by omega⟩
    rw [List.append_assoc]
    exact hread fuel rest (by omega)

/-- A start that is a whole item. -/
theorem Reads.of_start {levels : Nat} {h : Head} {start : List UInt8} {item : Item}
    (hform : h.Form start)
    (hread : ∀ fuel rest, item? max (fuel + 1) levels (start ++ rest) = some (item, rest)) :
    Reads max levels start item := by
  have : Reads max levels (start ++ []) item := .of_form hform fun fuel rest _ => hread fuel rest
  rwa [List.append_nil] at this

section

variable {levels : Nat} {parts : List (List UInt8)} {items : List Item}
  (h : List.Forall₂ (Reads max levels) parts items)

include h

/-- Items one behind the other are read one after the other. -/
theorem items?_flatten {fuel : Nat} (rest : List UInt8) (hfuel : 2 * parts.flatten.length ≤ fuel) :
    items? max fuel levels items.length (parts.flatten ++ rest) = some (items, rest) := by
  -- On the items; each has at least one byte, so there is fuel for the rest.
  induction h generalizing fuel with
  | nil => rw [List.length_nil, items?, List.flatten_nil, List.nil_append]
  | @cons part item parts items hread _ ih =>
    have hpos := List.length_pos_iff.2 hread.nonempty
    rw [List.flatten_cons, List.length_append] at hfuel
    obtain ⟨fuel, rfl⟩ : ∃ f, fuel = f + 1 := ⟨fuel - 1, by omega⟩
    rw [List.flatten_cons, List.append_assoc, List.length_cons, items?,
      hread.read fuel _ (by omega)]
    dsimp only [Option.bind_eq_bind, Option.bind_some]
    rw [ih (by omega)]
    rfl

/-- Items up to the end of an open item are read one after the other. -/
theorem openItems?_flatten {fuel limit : Nat} (rest : List UInt8)
    (hfuel : 2 * parts.flatten.length ≤ fuel) (hlimit : items.length ≤ limit) :
    openItems? max fuel levels limit (parts.flatten ++ breakByte :: rest) = some (items, rest) := by
  induction h generalizing fuel limit with
  | nil => exact openItems?_of_break rfl
  | @cons part item parts items hread _ ih =>
    have hpos := List.length_pos_iff.2 hread.nonempty
    rw [List.flatten_cons, List.length_append] at hfuel
    rw [List.length_cons] at hlimit
    obtain ⟨fuel, rfl⟩ : ∃ f, fuel = f + 1 := ⟨fuel - 1, by omega⟩
    obtain ⟨limit, rfl⟩ : ∃ l, limit = l + 1 := ⟨limit - 1, by omega⟩
    have hfirst := hread.read fuel (parts.flatten ++ breakByte :: rest) (by omega)
    -- An item that is read does not start with the byte that ends an open item.
    have hbreak : (part ++ (parts.flatten ++ breakByte :: rest)).head? ≠ some breakByte := by
      intro hbreak
      rw [eq_break_cons hbreak, item?_break] at hfirst
      cases hfirst
    rw [List.flatten_cons, List.append_assoc, openItems?_of_ne_break hbreak]
    dsimp only
    rw [hfirst, Option.bind_some, ih (by omega) (Nat.le_of_succ_le_succ hlimit)]
    rfl

/-- The elements that a start counts. -/
theorem elements?_flatten {fuel limit info : Nat} {head : Head} (rest : List UInt8)
    (hfuel : 2 * parts.flatten.length ≤ fuel) (hinfo : head.info = info) (hclosed : info < 31)
    (hcount : head.number * (if head.major = 5 then 2 else 1) = items.length)
    (hlimit : items.length ≤ limit) :
    elements? max fuel (levels + 1) head (parts.flatten ++ rest) limit = some (items, rest) := by
  rw [elements?, if_neg (by omega), hcount, if_pos hlimit]
  exact items?_flatten h rest hfuel

/-- The elements of an open item. -/
theorem elements?_open {fuel limit : Nat} {head : Head} (rest : List UInt8)
    (hfuel : 2 * parts.flatten.length ≤ fuel) (hopen : head.info = 31)
    (hlimit : items.length ≤ limit) :
    elements? max fuel (levels + 1) head (parts.flatten ++ breakByte :: rest) limit =
      some (items, rest) := by
  rw [elements?, if_pos hopen]
  exact openItems?_flatten h rest hfuel hlimit

end

/-- Bytes in pieces, each of which is read as an item. -/
def Readable (max levels : Nat) (bytes : List UInt8) (items : List Item) : Prop :=
  ∃ parts, parts.flatten = bytes ∧ List.Forall₂ (Reads max levels) parts items

namespace Readable

variable {levels : Nat} {bytes body : List UInt8} {item : Item} {items elements : List Item}

/-- No bytes are no items. -/
theorem nil (max levels : Nat) : Readable max levels [] [] := ⟨[], rfl, .nil⟩

/-- Bytes that are read as an item, in front of others. -/
theorem cons {part : List UInt8} (h : Reads max levels part item)
    (hrest : Readable max levels bytes items) :
    Readable max levels (part ++ bytes) (item :: items) := by
  obtain ⟨parts, rfl, hparts⟩ := hrest
  exact ⟨part :: parts, List.flatten_cons, .cons h hparts⟩

/-- Bytes that are one item are read as it. -/
theorem reads (h : Readable max levels bytes [item]) : Reads max levels bytes item := by
  obtain ⟨parts, rfl, hparts⟩ := h
  cases hparts with
  | cons hpart hrest =>
    cases hrest
    rwa [List.flatten_singleton]

/-- A list with a length is read. -/
theorem array {start : List UInt8} (h : Readable max levels body elements)
    (hstart : Start 4 elements.length start) (hlimit : elements.length ≤ max) :
    Reads max (levels + 1) (start ++ body) (.array elements) := by
  obtain ⟨parts, rfl, hparts⟩ := h
  obtain ⟨info, hinfo, hform⟩ := hstart.exists_form (by decide)
  refine .of_form hform fun fuel rest hfuel => ?_
  rw [item?_array (hform.head? _) fuel _ rfl,
    elements?_flatten hparts rest hfuel rfl hinfo (by simp) hlimit]
  rfl

/-- A list of open length is read. -/
theorem openArray (h : Readable max levels body elements) (hlimit : elements.length ≤ max) :
    Reads max (levels + 1) (firstByte 4 31 :: (body ++ [breakByte])) (.array elements) := by
  obtain ⟨parts, rfl, hparts⟩ := h
  have hform : Head.Form ⟨4, 31, 31⟩ [firstByte 4 31] := .opened (by decide) (by decide)
  change Reads max _ ([firstByte 4 31] ++ (parts.flatten ++ [breakByte])) _
  refine Reads.of_form hform fun fuel rest hfuel => ?_
  rw [List.length_append] at hfuel
  rw [item?_array (hform.head? _) fuel _ rfl, List.append_assoc,
    List.singleton_append, elements?_open hparts rest (by omega) rfl hlimit]
  rfl

variable {entries : List (Item × Item)}

/-- A record with a length is read. -/
theorem map {start : List UInt8} (h : Readable max levels body (alternating entries))
    (hstart : Start 5 entries.length start) (hlimit : entries.length ≤ max) :
    Reads max (levels + 1) (start ++ body) (.map entries) := by
  obtain ⟨parts, rfl, hparts⟩ := h
  obtain ⟨info, hinfo, hform⟩ := hstart.exists_form (by decide)
  refine .of_form hform fun fuel rest hfuel => ?_
  rw [item?_map (hform.head? _) fuel _ rfl,
    elements?_flatten hparts rest hfuel rfl hinfo (by simp) (by simp; omega)]
  exact congrArg (Option.map fun entries => (Item.map entries, rest)) (pairs?_eq_some_iff.2 rfl)

/-- A record of open length is read. -/
theorem openMap (h : Readable max levels body (alternating entries))
    (hlimit : entries.length ≤ max) :
    Reads max (levels + 1) (firstByte 5 31 :: (body ++ [breakByte])) (.map entries) := by
  obtain ⟨parts, rfl, hparts⟩ := h
  have hform : Head.Form ⟨5, 31, 31⟩ [firstByte 5 31] := .opened (by decide) (by decide)
  change Reads max _ ([firstByte 5 31] ++ (parts.flatten ++ [breakByte])) _
  refine Reads.of_form hform fun fuel rest hfuel => ?_
  rw [List.length_append] at hfuel
  rw [item?_map (hform.head? _) fuel _ rfl, List.append_assoc, List.singleton_append,
    elements?_open hparts rest (by omega) rfl (by simp; omega)]
  exact congrArg (Option.map fun entries => (Item.map entries, rest)) (pairs?_eq_some_iff.2 rfl)

/-- A tagged item is read. The content is the same with a level more, which the tag takes only if
another one follows. -/
theorem tag {start : List UInt8} {n : Nat} (h : Readable max levels body [item])
    (h' : Readable max (levels + 1) body [item]) (hstart : Start 6 n start) :
    Reads max (levels + 1) (start ++ body) (.tag n item) := by
  obtain ⟨info, hinfo, hform⟩ := hstart.exists_form (by decide)
  refine .of_form hform fun fuel rest hfuel => ?_
  rw [item?_tag (hform.head? _) fuel _ rfl, h'.reads.read fuel rest (by omega)]
  dsimp only
  rw [h.reads.read fuel rest (by omega)]
  exact ite_self _

end Readable

/-- A string is read. -/
theorem Strand.reads {levels major : Nat} {string : List UInt8} {chunks : List (List UInt8)}
    (h : Strand major string chunks) (hlow : 2 ≤ major) (hhigh : major ≤ 3) :
    Reads max levels string (stringItem major chunks) := by
  obtain ⟨head, start, body, hform, rfl, rfl, hread⟩ := h.string? hlow hhigh
  refine .of_form hform fun fuel rest _ => ?_
  rw [item?_string (hform.head? _) fuel levels hlow hhigh]
  exact hread rest

/-- Data within limits is read. -/
theorem Sequence.readable {bytes : List UInt8} {items : List Item} (h : Sequence bytes items)
    {levels : Nat} (hwithin : ∀ i ∈ items, i.Within max levels) :
    Readable max levels bytes items := by
  -- On the data. What has items in it has them a level deeper, where they are within limits, too.
  induction h generalizing levels with
  | nil => exact .nil max levels
  | unsigned hstart _ ih =>
    obtain ⟨-, hrest⟩ := List.forall_mem_cons.1 hwithin
    obtain ⟨info, -, hform⟩ := hstart.exists_form (by decide)
    refine .cons (.of_start hform fun fuel rest => ?_) (ih hrest)
    rw [item?, hform.head?]
    rfl
  | negative hstart _ ih =>
    obtain ⟨-, hrest⟩ := List.forall_mem_cons.1 hwithin
    obtain ⟨info, -, hform⟩ := hstart.exists_form (by decide)
    refine .cons (.of_start hform fun fuel rest => ?_) (ih hrest)
    rw [item?, hform.head?]
    rfl
  | bytes hstring _ ih =>
    exact .cons (hstring.reads (by decide) (by decide)) (ih (List.forall_mem_cons.1 hwithin).2)
  | text hstring _ ih =>
    exact .cons (hstring.reads (by decide) (by decide)) (ih (List.forall_mem_cons.1 hwithin).2)
  | array hstart _ _ ihbody ih =>
    obtain ⟨hitem, hrest⟩ := List.forall_mem_cons.1 hwithin
    cases hitem with
    | array hlength hall => exact .cons ((ihbody hall).array hstart hlength) (ih hrest)
  | openArray _ _ ihbody ih =>
    obtain ⟨hitem, hrest⟩ := List.forall_mem_cons.1 hwithin
    cases hitem with
    | array hlength hall => exact .cons ((ihbody hall).openArray hlength) (ih hrest)
  | map hstart _ _ ihbody ih =>
    obtain ⟨hitem, hrest⟩ := List.forall_mem_cons.1 hwithin
    cases hitem with
    | map hlength hall => exact .cons ((ihbody hall).map hstart hlength) (ih hrest)
  | openMap _ _ ihbody ih =>
    obtain ⟨hitem, hrest⟩ := List.forall_mem_cons.1 hwithin
    cases hitem with
    | map hlength hall => exact .cons ((ihbody hall).openMap hlength) (ih hrest)
  | tag hstart _ _ ihbody ih =>
    obtain ⟨hitem, hrest⟩ := List.forall_mem_cons.1 hwithin
    cases hitem with
    | tag n hcontent =>
      -- A tag in front of a tag takes no level, so what is behind it is read at either one.
      have hless := ihbody (List.forall_mem_singleton.2 hcontent)
      have hmore := ihbody (List.forall_mem_singleton.2
        (hcontent.mono (Nat.le_refl max) (Nat.le_succ _)))
      exact .cons (hless.tag hmore hstart) (ih hrest)
  | @simple _ n _ hn _ ih =>
    have hform : Head.Form ⟨7, n, n⟩ [firstByte 7 n] := .short (by decide) hn
    refine .cons (.of_start hform fun fuel rest => ?_) (ih (List.forall_mem_cons.1 hwithin).2)
    rw [item?_simple (hform.head? _) fuel levels rfl, if_neg (by dsimp only; omega)]
  | @simpleByte _ b _ hb _ ih =>
    have hform : Head.Form ⟨7, 24 + 0, ofBigEndian [b]⟩ [firstByte 7 24, b] :=
      .wide (by decide) (by decide) rfl fun _ _ => ofBigEndian_singleton b ▸ hb
    refine .cons (.of_start hform fun fuel rest => ?_) (ih (List.forall_mem_cons.1 hwithin).2)
    rw [item?_simple (hform.head? _) fuel levels rfl, if_neg (by simp), ofBigEndian_singleton]
  | @float number _ k _ hk hk' hnumber _ ih =>
    have hform : Head.Form ⟨7, 24 + k, ofBigEndian number⟩ (firstByte 7 (24 + k) :: number) :=
      .wide (by decide) hk' hnumber fun _ hzero => by omega
    refine .cons (.of_start hform fun fuel rest => ?_) (ih (List.forall_mem_cons.1 hwithin).2)
    rw [item?_simple (hform.head? _) fuel levels rfl, if_pos (by dsimp only; omega)]

/-- Data within limits is read whatever follows it. -/
theorem Data.reads {bytes : List UInt8} {item : Item} (h : Data bytes item) {levels : Nat}
    (hwithin : item.Within max levels) : Reads max levels bytes item :=
  (h.readable (List.forall_mem_singleton.2 hwithin)).reads

/-- Data has bytes. -/
theorem Data.ne_nil {bytes : List UInt8} {item : Item} (h : Data bytes item) : bytes ≠ [] := by
  obtain ⟨most, levels, hwithin⟩ := h.exists_bounded
  exact (h.reads (hwithin item (List.mem_singleton_self _))).nonempty

/-- No bytes start with data in two ways. -/
theorem Data.unique {bytes bytes' more more' : List UInt8} {item item' : Item}
    (h : Data bytes item) (h' : Data bytes' item') (heq : bytes ++ more = bytes' ++ more') :
    bytes = bytes' ∧ more = more' ∧ item = item' := by
  -- Both are read, with limits that are wide enough for both.
  obtain ⟨most, levels, hwithin⟩ := h.exists_bounded
  obtain ⟨most', levels', hwithin'⟩ := h'.exists_bounded
  have hread := (h.reads ((hwithin item (List.mem_singleton_self _)).mono
    (Nat.le_max_left most most') (Nat.le_max_left levels levels'))).read
      (2 * bytes.length + 2 * bytes'.length) more (by omega)
  have hread' := (h'.reads ((hwithin' item' (List.mem_singleton_self _)).mono
    (Nat.le_max_right most most') (Nat.le_max_right levels levels'))).read
      (2 * bytes.length + 2 * bytes'.length) more' (by omega)
  rw [heq, hread'] at hread
  cases hread
  exact ⟨List.append_cancel_right heq, rfl, rfl⟩

end ClassScript.Cbor
