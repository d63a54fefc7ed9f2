import Mathlib.Tactic.Ring
import ClassScript.Cbor.Read
import ClassScript.Proofs.Cbor.Data

/-!
# Starts and strings

The plain codec reads exactly the starts of items that there are, and exactly the strings.
-/

namespace ClassScript.Cbor

/-! ### Numbers -/

/-- A number takes as many bytes as it is given. -/
theorem length_bigEndian (n width : Nat) : (bigEndian n width).length = width := by
  induction width with
  | zero => rfl
  | succ width ih => exact congrArg (· + 1) ih

/-- Bytes in front of others are worth more. -/
theorem foldl_bigEndian (init : Nat) (bytes : List UInt8) :
    bytes.foldl (fun n b => n * 256 + b.toNat) init =
      init * 256 ^ bytes.length + ofBigEndian bytes := by
  unfold ofBigEndian
  induction bytes generalizing init with
  | nil => simp
  | cons b bytes ih =>
    rw [List.foldl_cons, List.foldl_cons, ih, ih (0 * 256 + b.toNat), List.length_cons, Nat.pow_succ]
    ring

/-- The bytes of a number make up its last digits to the base 256. -/
theorem ofBigEndian_bigEndian (n width : Nat) :
    ofBigEndian (bigEndian n width) = n % 256 ^ width := by
  induction width with
  | zero => simp [bigEndian, ofBigEndian, Nat.mod_one]
  | succ width ih =>
    rw [bigEndian, ofBigEndian, List.foldl_cons, foldl_bigEndian, ih, length_bigEndian,
      Nat.mod_pow_succ, Nat.zero_mul, Nat.zero_add, UInt8.toNat_ofNat', Nat.shiftRight_eq_div_pow,
      Nat.pow_mul]
    ring

/-- A single byte is its own number. -/
theorem ofBigEndian_singleton (b : UInt8) : ofBigEndian [b] = b.toNat := Nat.zero_add _

/-- As many bytes as are asked for are the start of the bytes. -/
theorem take?_eq_some_iff {n : Nat} {bytes part rest : List UInt8} :
    take? n bytes = some (part, rest) ↔ part.length = n ∧ bytes = part ++ rest := by
  rw [take?, List.splitAt_eq]
  constructor
  · intro h
    split at h
    · next hle =>
      obtain ⟨rfl, rfl⟩ := Prod.mk.inj (Option.some.inj h)
      exact ⟨List.length_take_of_le hle, (List.take_append_drop n bytes).symm⟩
    · cases h
  · rintro ⟨rfl, rfl⟩
    rw [if_pos (by simp), List.take_left', List.drop_left'] <;> rfl

/-! ### Starts -/

/-- The bytes that a start is read from. -/
inductive Head.Form : Head → List UInt8 → Prop where
  /-- The number is part of the first byte. -/
  | short {major n : Nat} (hmajor : major < 8) (hn : n < 24) :
    Head.Form ⟨major, n, n⟩ [firstByte major n]
  /-- The number stands behind the first byte. A simple value that stands there is not a small
  one. -/
  | wide {major k : Nat} {number : List UInt8} (hmajor : major < 8) (hk : k < 4)
    (hnumber : number.length = 2 ^ k) (hproper : major = 7 → k = 0 → 32 ≤ ofBigEndian number) :
    Head.Form ⟨major, 24 + k, ofBigEndian number⟩ (firstByte major (24 + k) :: number)
  /-- The length is open, as only those of strings, lists and records are. -/
  | opened {major : Nat} (hlow : 2 ≤ major) (hhigh : major ≤ 5) :
    Head.Form ⟨major, 31, 31⟩ [firstByte major 31]

/-- The number behind the first byte has one, two, four or eight bytes. -/
theorem extraBytes?_eq_some_iff {info width : Nat} : extraBytes? info = some width ↔
    (width = 0 ∧ (info < 24 ∨ info = 31)) ∨ ∃ k < 4, info = 24 + k ∧ width = 2 ^ k := by
  constructor
  · intro h
    unfold extraBytes? at h
    split at h
    · next hinfo => exact .inl ⟨(Option.some.inj h).symm, by simpa using hinfo⟩
    · -- The four widths, from one byte to eight.
      split at h
      · exact .inr ⟨0, by decide, rfl, (Option.some.inj h).symm⟩
      · exact .inr ⟨1, by decide, rfl, (Option.some.inj h).symm⟩
      · exact .inr ⟨2, by decide, rfl, (Option.some.inj h).symm⟩
      · exact .inr ⟨3, by decide, rfl, (Option.some.inj h).symm⟩
      · cases h
  · rintro (⟨rfl, h⟩ | ⟨k, hk, rfl, rfl⟩)
    · unfold extraBytes?
      grind
    · match k, hk with
      | 0, _ | 1, _ | 2, _ | 3, _ => rfl

/-- The first byte holds the major type and the form of the number. -/
theorem toNat_firstByte {major info : Nat} (hmajor : major < 8) (hinfo : info < 32) :
    (firstByte major info).toNat = major * 32 + info := by
  rw [firstByte, UInt8.toNat_ofNat']
  omega

/-- Every byte is the first one of some major type. -/
theorem firstByte_toNat (b : UInt8) : firstByte (b.toNat / 32) (b.toNat % 32) = b := by
  rw [firstByte, Nat.div_add_mod', UInt8.ofNat_toNat]

/-- A start is read from the bytes in front of others. -/
theorem head?_eq_some_iff {bytes rest : List UInt8} {h : Head} :
    head? bytes = some (h, rest) ↔ ∃ start, h.Form start ∧ bytes = start ++ rest := by
  constructor
  · intro hread
    cases bytes with
    | nil => cases hread
    | cons b bytes =>
      obtain ⟨width, hwidth, htaken⟩ := Option.bind_eq_some_iff.1 hread
      obtain ⟨⟨extra, left⟩, htake, hhead⟩ := Option.bind_eq_some_iff.1 htaken
      obtain ⟨hproper, heq⟩ := Option.ite_none_right_eq_some.1 hhead
      cases heq
      obtain ⟨hextra, rfl⟩ := take?_eq_some_iff.1 htake
      clear hread htaken hhead htake
      refine ⟨b :: extra, ?_, rfl⟩
      -- The first byte is put together again from its two parts.
      have hmajor : b.toNat / 32 < 8 := by
        have := b.toNat_lt
        omega
      have hfirst := firstByte_toNat b
      generalize b.toNat / 32 = major at *
      generalize b.toNat % 32 = info at *
      subst hfirst
      rcases extraBytes?_eq_some_iff.1 hwidth with ⟨rfl, hinfo⟩ | ⟨k, hk, rfl, rfl⟩
      · obtain rfl := List.length_eq_zero_iff.1 hextra
        rcases hinfo with hinfo | rfl
        · exact .short hmajor hinfo
        · have : 2 ≤ major ∧ major ≤ 5 := by simpa [Head.isProper] using hproper
          exact .opened this.1 this.2
      · have hpos : 2 ^ k ≠ 0 := Nat.ne_of_gt (Nat.two_pow_pos k)
        rw [if_neg hpos] at hproper ⊢
        refine .wide hmajor hk hextra fun hseven hzero => ?_
        subst hseven hzero
        simpa [Head.isProper] using hproper
  · rintro ⟨start, hform, rfl⟩
    -- What is read is the same for every form, once the width of the number is known.
    have hread {major info width number : Nat} {extra : List UInt8} (hmajor : major < 8)
        (hinfo : info < 32) (hwidth : extraBytes? info = some width) (hextra : extra.length = width)
        (hnumber : (if width = 0 then info else ofBigEndian extra) = number)
        (hproper : (⟨major, info, number⟩ : Head).isProper = true) :
        head? (firstByte major info :: (extra ++ rest)) = some (⟨major, info, number⟩, rest) := by
      have hmajor' : (major * 32 + info) / 32 = major := by omega
      have hinfo' : (major * 32 + info) % 32 = info := by omega
      simp only [head?, toNat_firstByte hmajor hinfo, hmajor', hinfo', hwidth, Option.bind_eq_bind,
        Option.bind_some, take?_eq_some_iff.2 ⟨hextra, rfl⟩, hnumber, hproper, if_true]
    cases hform with
    | @short major n hmajor hn =>
      refine hread hmajor (by omega) (extraBytes?_eq_some_iff.2 (.inl ⟨rfl, .inl hn⟩))
        List.length_nil (if_pos rfl) ?_
      grind [Head.isProper]
    | @wide major k number hmajor hk hnumber hproper =>
      refine hread hmajor (by omega) (extraBytes?_eq_some_iff.2 (.inr ⟨k, hk, rfl, rfl⟩)) hnumber
        (if_neg (Nat.ne_of_gt (Nat.two_pow_pos k))) ?_
      grind [Head.isProper]
    | @opened major hlow hhigh =>
      refine hread (by omega) (by decide) (extraBytes?_eq_some_iff.2 (.inl ⟨rfl, .inr rfl⟩))
        List.length_nil (if_pos rfl) ?_
      simp [Head.isProper, hlow, hhigh]

namespace Head.Form

variable {h : Head} {start rest : List UInt8}

/-- A start is read in front of anything. -/
theorem head? (hform : h.Form start) (rest : List UInt8) :
    Cbor.head? (start ++ rest) = some (h, rest) :=
  head?_eq_some_iff.2 ⟨start, hform, rfl⟩

/-- A start has bytes. -/
theorem length_pos (hform : h.Form start) : 0 < start.length := by
  cases hform <;> exact Nat.succ_pos _

/-- There are eight major types. -/
theorem major_lt (hform : h.Form start) : h.major < 8 := by
  cases hform with
  | short hmajor => exact hmajor
  | wide hmajor => exact hmajor
  | opened _ hhigh => exact Nat.lt_of_le_of_lt hhigh (by decide)

/-- Numbers, tags and simple values do not have an open length. -/
theorem info_ne (hform : h.Form start) (hmajor : h.major < 2 ∨ 5 < h.major) : h.info ≠ 31 := by
  cases hform <;> dsimp only at hmajor ⊢ <;> omega

/-- An open length is a single byte. -/
theorem eq_opened (hform : h.Form start) (hopen : h.info = 31) :
    start = [firstByte h.major 31] := by
  cases hform with
  | short => exact absurd hopen (by dsimp only; omega)
  | wide _ hk => exact absurd hopen (by dsimp only; omega)
  | opened => rfl

/-- A start is not the end of an open item. -/
theorem head?_ne_break (hform : h.Form start) (rest : List UInt8) :
    (start ++ rest).head? ≠ some breakByte := by
  -- The byte that ends an item would be one of an open simple value, which there is not.
  have hne {major info : Nat} (hmajor : major < 8) (hinfo : info < 32)
      (hother : major ≠ 7 ∨ info ≠ 31) : some (firstByte major info) ≠ some breakByte := by
    intro heq
    have := congrArg UInt8.toNat (Option.some.inj heq)
    rw [toNat_firstByte hmajor hinfo] at this
    have hbreak : breakByte.toNat = 255 := rfl
    omega
  cases hform with
  | short hmajor hn => exact hne hmajor (by omega) (.inr (by omega))
  | wide hmajor hk => exact hne hmajor (by omega) (.inr (by omega))
  | opened hlow hhigh => exact hne (by omega) (by decide) (.inl (by omega))

/-- A start with a number of its own. -/
theorem toStart (hform : h.Form start) (hinfo : h.info ≠ 31) : Start h.major h.number start := by
  cases hform with
  | short _ hn => exact .short hn
  | wide _ hk hnumber _ => exact .wide hk hnumber
  | opened => exact absurd rfl hinfo

end Head.Form

/-- The start of an item with a length or number is read. -/
theorem Start.exists_form {major n : Nat} {start : List UInt8} (h : Start major n start)
    (hmajor : major < 7) : ∃ info < 31, Head.Form ⟨major, info, n⟩ start := by
  cases h with
  | short hn => exact ⟨n, by omega, .short (by omega) hn⟩
  | @wide k number hk hnumber =>
    exact ⟨24 + k, by omega, .wide (by omega) hk hnumber fun hseven => by omega⟩

/-! ### Strings -/

/-- The chunks behind a byte that does not end the string. -/
theorem chunks?_succ (major fuel : Nat) (bytes : List UInt8) :
    chunks? major (fuel + 1) bytes =
      if bytes.head? = some breakByte then some ([], bytes.tail)
      else (head? bytes).bind fun r =>
        if r.1.major = major ∧ r.1.info ≠ 31 then
          (take? r.1.number r.2).bind fun c =>
            (chunks? major fuel c.2).bind fun r => some (c.1 :: r.1, r.2)
        else none := by
  rw [chunks?]
  split
  · rfl
  · cases head? bytes with
    | none => rfl
    | some r =>
      by_cases h : r.1.major = major ∧ r.1.info ≠ 31
      · simp [h]
      · simp [h]

/-- Bytes that are not empty start with their first one. -/
theorem eq_break_cons {bytes : List UInt8} (h : bytes.head? = some breakByte) :
    bytes = breakByte :: bytes.tail := by
  cases bytes with
  | nil => cases h
  | cons b bytes => exact congrArg (· :: bytes) (Option.some.inj h)

/-- Chunks that are read are chunks, with the byte that ends them. -/
theorem chunks?_sound {major fuel : Nat} {bytes rest : List UInt8} {chunks : List (List UInt8)}
    (h : chunks? major fuel bytes = some (chunks, rest)) :
    ∃ part, Chunks major part chunks ∧ bytes = part ++ breakByte :: rest := by
  -- On the fuel; every chunk has a head of its own.
  induction fuel generalizing bytes chunks with
  | zero => cases h
  | succ fuel ih =>
    rw [chunks?_succ] at h
    split at h
    · next hbreak =>
      cases h
      exact ⟨[], .nil, eq_break_cons hbreak⟩
    · obtain ⟨⟨head, left⟩, hhead, h⟩ := Option.bind_eq_some_iff.1 h
      dsimp only at h
      split at h
      case isFalse => cases h
      next hmajor =>
        obtain ⟨⟨chunk, left'⟩, htake, h⟩ := Option.bind_eq_some_iff.1 h
        obtain ⟨⟨others, left''⟩, hothers, h⟩ := Option.bind_eq_some_iff.1 h
        cases h
        obtain ⟨start, hform, rfl⟩ := head?_eq_some_iff.1 hhead
        obtain ⟨hlength, rfl⟩ := take?_eq_some_iff.1 htake
        obtain ⟨part, hpart, rfl⟩ := ih hothers
        have hstart : Start major chunk.length start := by
          rw [← hmajor.1, hlength]
          exact hform.toStart hmajor.2
        exact ⟨_, .cons hstart hpart, by simp⟩

/-- Chunks are read. -/
theorem Chunks.chunks? {major : Nat} {part : List UInt8} {chunks : List (List UInt8)}
    (h : Chunks major part chunks) (hmajor : major < 7) {fuel : Nat} (hfuel : part.length < fuel)
    (rest : List UInt8) :
    Cbor.chunks? major fuel (part ++ breakByte :: rest) = some (chunks, rest) := by
  -- On the chunks. No chunk starts like the mark of the end, so the search goes on at each.
  induction h generalizing fuel with
  | nil =>
    obtain ⟨fuel, rfl⟩ : ∃ f, fuel = f + 1 := ⟨fuel - 1, by omega⟩
    rw [chunks?_succ, List.nil_append]
    exact if_pos rfl
  | @cons start chunk bytes chunks hstart _ ih =>
    obtain ⟨info, hinfo, hform⟩ := hstart.exists_form hmajor
    have hpos := hform.length_pos
    rw [List.length_append, List.length_append] at hfuel
    obtain ⟨fuel, rfl⟩ : ∃ f, fuel = f + 1 := ⟨fuel - 1, by omega⟩
    rw [chunks?_succ, List.append_assoc, List.append_assoc, if_neg (hform.head?_ne_break _),
      hform.head?, Option.bind_some, if_pos ⟨rfl, by dsimp only; omega⟩,
      take?_eq_some_iff.2 ⟨rfl, rfl⟩, Option.bind_some, ih (by omega), Option.bind_some]

/-- The item of a string. -/
def stringItem (major : Nat) (chunks : List (List UInt8)) : Item :=
  if major = 2 then .bytes chunks.flatten else .text (joinTexts? chunks)

/-- A string that is read is a string. -/
theorem string?_sound {h : Head} {start bytes rest : List UInt8} {item : Item}
    (hform : h.Form start) (hread : string? h bytes = some (item, rest)) :
    ∃ body chunks, Strand h.major (start ++ body) chunks ∧ item = stringItem h.major chunks ∧
      bytes = body ++ rest := by
  unfold string? at hread
  -- A string in chunks up to the byte that ends them, or one of the length in its head.
  by_cases hopen : h.info = 31
  · rw [if_pos hopen] at hread
    obtain ⟨⟨chunks, left⟩, hchunks, heq⟩ := Option.bind_eq_some_iff.1 hread
    cases heq
    obtain ⟨part, hpart, rfl⟩ := chunks?_sound hchunks
    refine ⟨part ++ [breakByte], chunks, ?_, rfl, by simp⟩
    cases hform with
    | short hmajor hn => exact absurd hopen (by dsimp only; omega)
    | wide _ hk => exact absurd hopen (by dsimp only; omega)
    | opened => exact .chunked hpart
  · rw [if_neg hopen] at hread
    obtain ⟨⟨chunks, left⟩, hchunks, heq⟩ := Option.bind_eq_some_iff.1 hread
    cases heq
    obtain ⟨⟨chunk, left⟩, htake, heq⟩ := Option.map_eq_some_iff.1 hchunks
    cases heq
    obtain ⟨hlength, rfl⟩ := take?_eq_some_iff.1 htake
    refine ⟨chunk, [chunk], .whole ?_, rfl, rfl⟩
    rw [hlength]
    exact hform.toStart hopen

/-- A string is read. -/
theorem Strand.string? {major : Nat} {string : List UInt8} {chunks : List (List UInt8)}
    (h : Strand major string chunks) (hlow : 2 ≤ major) (hhigh : major ≤ 3) :
    ∃ head start body, Head.Form head start ∧ head.major = major ∧ string = start ++ body ∧
      ∀ rest, Cbor.string? head (body ++ rest) = some (stringItem major chunks, rest) := by
  -- A string is whole, with its length in front, or in chunks with a mark behind.
  cases h with
  | @whole start chunk hstart =>
    obtain ⟨info, hinfo, hform⟩ := hstart.exists_form (by omega)
    refine ⟨_, start, chunk, hform, rfl, rfl, fun rest => ?_⟩
    rw [Cbor.string?, if_neg (by dsimp only; omega), take?_eq_some_iff.2 ⟨rfl, rfl⟩]
    rfl
  | @chunked bytes chunks hchunks =>
    refine ⟨_, _, bytes ++ [breakByte], .opened hlow (by omega), rfl, rfl, fun rest => ?_⟩
    rw [Cbor.string?, if_pos rfl, List.append_assoc, List.singleton_append,
      hchunks.chunks? (by omega) (by rw [List.length_append]; omega)]
    rfl

end ClassScript.Cbor
