import Mathlib.Data.List.DropRight
import ClassScript.Text.Glyph

/-!
# Glyphs as bytes

`Glyph.encode` writes glyphs as bytes: a character as its UTF-8 sequence, a stray byte as itself.
Decoding loses nothing, so `encode` gives back every byte string that was decoded, and decoding a
piece of a byte string between two glyphs gives the glyphs of that piece.
-/

namespace ClassScript.Glyph

/-- The bytes of a glyph. -/
def bytes : Glyph → List UInt8
  | char c => String.utf8EncodeChar c
  | stray b => [b]

/-- The bytes of glyphs in a row. -/
def encode (gs : List Glyph) : List UInt8 := gs.flatMap bytes

/-- No glyphs have no bytes. -/
@[simp]
theorem encode_nil : encode [] = [] := rfl

/-- The bytes of the first glyph come first. -/
@[simp]
theorem encode_cons (g : Glyph) (gs : List Glyph) : encode (g :: gs) = g.bytes ++ encode gs := rfl

/-- The bytes of two rows of glyphs are those of both. -/
@[simp]
theorem encode_append (gs hs : List Glyph) : encode (gs ++ hs) = encode gs ++ encode hs :=
  List.flatMap_append

/-- Every glyph has a byte. -/
theorem length_bytes_pos (g : Glyph) : 0 < g.bytes.length := by
  cases g with
  | char c =>
    show 0 < (String.utf8EncodeChar c).length
    rw [String.length_utf8EncodeChar]
    exact c.utf8Size_pos
  | stray b => exact Nat.zero_lt_one

/-! ### Well-formed sequences -/

/-- What the table of lead bytes allows, by the number of continuation bytes. -/
theorem continuation_bounds {lead n low high : Nat} (h : continuation lead = some (n, low, high)) :
    0x80 ≤ low ∧ high ≤ 0xBF ∧
      ((n = 1 ∧ 0xC2 ≤ lead ∧ lead ≤ 0xDF) ∨
        (n = 2 ∧ 0xE0 ≤ lead ∧ lead ≤ 0xEF ∧ (lead = 0xE0 → 0xA0 ≤ low) ∧
          (lead = 0xED → high ≤ 0x9F)) ∨
        (n = 3 ∧ 0xF0 ≤ lead ∧ lead ≤ 0xF4 ∧ (lead = 0xF0 → 0x90 ≤ low) ∧
          (lead = 0xF4 → high ≤ 0x8F))) := by
  unfold continuation at h
  simp only [Bool.and_eq_true, decide_eq_true_eq, beq_iff_eq] at h
  repeat' split at h
  all_goals cases h
  all_goals omega

/-- What a guard lets through is the case. -/
theorem of_guard {p : Prop} [Decidable p] {u : Unit} (h : (guard p : Option Unit) = some u) : p := by
  by_contra hp
  rw [guard, if_neg hp] at h
  cases h

/-- A sequence of more than one byte, taken apart: a first continuation byte in the range of the
lead byte, and more of them. -/
theorem sequence?_long {lead : UInt8} {rest : List UInt8} {c : Char} {n : Nat}
    (hlead : ¬lead.toNat < 0x80) (h : sequence? lead rest = some (c, n)) :
    ∃ low high first more, continuation lead.toNat = some (n, low, high) ∧
      rest.take n = first :: more ∧ more.length + 1 = n ∧ low ≤ first.toNat ∧
      first.toNat ≤ high ∧ (∀ b ∈ more, 0x80 ≤ b.toNat ∧ b.toNat ≤ 0xBF) ∧
      c = Char.ofNat ((first :: more).foldl (fun acc b => acc * 64 + b.toNat % 64)
        (leadBits lead.toNat n)) := by
  unfold sequence? at h
  rw [if_neg hlead] at h
  obtain ⟨⟨n', low, high⟩, hcontinuation, h⟩ := Option.bind_eq_some_iff.1 h
  dsimp only at h
  -- The two tests are taken in the order in which they are made.
  obtain ⟨first, hfirst, h⟩ := Option.bind_eq_some_iff.1 h
  obtain ⟨_, hguard, h⟩ := Option.bind_eq_some_iff.1 h
  have hrange := of_guard hguard
  obtain ⟨_, hguard, h⟩ := Option.bind_eq_some_iff.1 h
  have hmore := of_guard hguard
  obtain ⟨more, htail⟩ := List.head?_eq_some_iff.1 hfirst
  simp only [Bool.and_eq_true, decide_eq_true_eq] at hrange
  cases h
  rw [htail] at hrange hmore ⊢
  simp only [List.tail_cons, List.all_eq_true, Bool.and_eq_true, decide_eq_true_eq] at hmore
  exact ⟨low, high, first, more, hcontinuation, rfl, hrange.1.1, hrange.1.2, hrange.2, hmore, rfl⟩

/-- A number that is one of a character becomes that character. -/
theorem toNat_ofNat {n : Nat} (h : n.isValidChar) : (Char.ofNat n).val.toNat = n := by
  unfold Char.ofNat
  rw [dif_pos h]
  rfl

/-- A lead byte and one continuation byte. -/
theorem bytes_two {a b : UInt8} (ha : 0xC2 ≤ a.toNat ∧ a.toNat ≤ 0xDF)
    (hb : 0x80 ≤ b.toNat ∧ b.toNat ≤ 0xBF) :
    (char (Char.ofNat (a.toNat % 32 * 64 + b.toNat % 64))).bytes = [a, b] := by
  have hcode := toNat_ofNat (n := a.toNat % 32 * 64 + b.toNat % 64) (Or.inl (by omega))
  simp only [bytes, String.utf8EncodeChar, hcode]
  rw [if_neg (by omega), if_pos (by omega)]
  simp only [List.cons.injEq, ← UInt8.toNat_inj, UInt8.toNat_ofNat', and_true]
  constructor <;> omega

/-- A lead byte and two continuation bytes. -/
theorem bytes_three {a b c : UInt8} (ha : 0xE0 ≤ a.toNat ∧ a.toNat ≤ 0xEF)
    (hb : 0x80 ≤ b.toNat ∧ b.toNat ≤ 0xBF) (hc : 0x80 ≤ c.toNat ∧ c.toNat ≤ 0xBF)
    (hlow : a.toNat = 0xE0 → 0xA0 ≤ b.toNat) (hhigh : a.toNat = 0xED → b.toNat ≤ 0x9F) :
    (char (Char.ofNat ((a.toNat % 16 * 64 + b.toNat % 64) * 64 + c.toNat % 64))).bytes
      = [a, b, c] := by
  have hcode := toNat_ofNat (n := (a.toNat % 16 * 64 + b.toNat % 64) * 64 + c.toNat % 64)
    (by omega)
  simp only [bytes, String.utf8EncodeChar, hcode]
  rw [if_neg (by omega), if_neg (by omega), if_pos (by omega)]
  simp only [List.cons.injEq, ← UInt8.toNat_inj, UInt8.toNat_ofNat', and_true]
  refine ⟨?_, ?_, ?_⟩ <;> omega

/-- A lead byte and three continuation bytes. -/
theorem bytes_four {a b c d : UInt8} (ha : 0xF0 ≤ a.toNat ∧ a.toNat ≤ 0xF4)
    (hb : 0x80 ≤ b.toNat ∧ b.toNat ≤ 0xBF) (hc : 0x80 ≤ c.toNat ∧ c.toNat ≤ 0xBF)
    (hd : 0x80 ≤ d.toNat ∧ d.toNat ≤ 0xBF) (hlow : a.toNat = 0xF0 → 0x90 ≤ b.toNat)
    (hhigh : a.toNat = 0xF4 → b.toNat ≤ 0x8F) :
    (char (Char.ofNat (((a.toNat % 8 * 64 + b.toNat % 64) * 64 + c.toNat % 64) * 64
      + d.toNat % 64))).bytes = [a, b, c, d] := by
  have hcode := toNat_ofNat (n := ((a.toNat % 8 * 64 + b.toNat % 64) * 64 + c.toNat % 64) * 64
    + d.toNat % 64) (by omega)
  simp only [bytes, String.utf8EncodeChar, hcode]
  rw [if_neg (by omega), if_neg (by omega), if_neg (by omega)]
  simp only [List.cons.injEq, ← UInt8.toNat_inj, UInt8.toNat_ofNat', and_true]
  refine ⟨?_, ?_, ?_, ?_⟩ <;> omega

/-- The bytes of a well-formed sequence are those of the character it spells. -/
theorem bytes_of_sequence? {lead : UInt8} {rest : List UInt8} {c : Char} {n : Nat}
    (h : sequence? lead rest = some (c, n)) : (char c).bytes = lead :: rest.take n := by
  by_cases hshort : lead.toNat < 0x80
  · unfold sequence? at h
    rw [if_pos hshort] at h
    cases h
    have hcode := toNat_ofNat (n := lead.toNat) (Or.inl (by omega))
    simp only [bytes, String.utf8EncodeChar, hcode, List.take_zero]
    rw [if_pos (by omega), UInt8.ofNat_toNat]
  obtain ⟨low, high, first, more, hc, htake, hlength, hlow, hhigh, hmore, rfl⟩ :=
    sequence?_long hshort h
  rw [htake]
  -- The number of continuation bytes tells which of the encodings it is.
  obtain ⟨h80, hBF, ⟨rfl, ha⟩ | ⟨rfl, ha, ha', hE0, hED⟩ | ⟨rfl, ha, ha', hF0, hF4⟩⟩ :=
    continuation_bounds hc
  · obtain rfl : more = [] := List.length_eq_zero_iff.1 (by omega)
    exact bytes_two ha (by omega)
  · obtain ⟨second, rfl⟩ := List.length_eq_one_iff.1 (show more.length = 1 by omega)
    have hsecond := hmore second (List.mem_singleton_self _)
    exact bytes_three ⟨ha, ha'⟩ (by omega) hsecond (by omega) (by omega)
  · obtain ⟨second, third, rfl⟩ := List.length_eq_two.1 (show more.length = 2 by omega)
    have hsecond := hmore second List.mem_cons_self
    have hthird := hmore third (List.mem_cons_of_mem _ (List.mem_singleton_self _))
    exact bytes_four ⟨ha, ha'⟩ (by omega) hsecond hthird (by omega) (by omega)

/-- All continuation bytes of a well-formed sequence are there. -/
theorem le_length_of_sequence? {lead : UInt8} {rest : List UInt8} {c : Char} {n : Nat}
    (h : sequence? lead rest = some (c, n)) : n ≤ rest.length := by
  by_cases hshort : lead.toNat < 0x80
  · rw [sequence?, if_pos hshort] at h
    cases h
    exact Nat.zero_le _
  obtain ⟨low, high, first, more, -, htake, hlength, -⟩ := sequence?_long hshort h
  have htaken := congrArg List.length htake
  rw [List.length_take, List.length_cons, hlength] at htaken
  omega

/-- A sequence depends only on the bytes that its lead byte asks for. -/
theorem sequence?_congr {lead : UInt8} {rest rest' : List UInt8}
    (h : ∀ r, continuation lead.toNat = some r → rest.take r.1 = rest'.take r.1) :
    sequence? lead rest = sequence? lead rest' := by
  unfold sequence?
  cases hc : continuation lead.toNat with
  | none => rfl
  | some r =>
    show (if lead.toNat < 0x80 then _ else _) = (if lead.toNat < 0x80 then _ else _)
    have htake := h r hc
    obtain ⟨n, low, high⟩ := r
    dsimp only [Option.bind_eq_bind, Option.bind_some] at htake ⊢
    rw [htake]

/-- A well-formed sequence depends on no byte behind it. -/
theorem sequence?_eq_of_take {lead : UInt8} {rest rest' : List UInt8} {c : Char} {n : Nat}
    (h : sequence? lead rest = some (c, n)) (htake : rest.take n = rest'.take n) :
    sequence? lead rest' = some (c, n) := by
  by_cases hshort : lead.toNat < 0x80
  · rw [sequence?, if_pos hshort] at h ⊢
    exact h
  obtain ⟨low, high, first, more, hc, -⟩ := sequence?_long hshort h
  have hsame : sequence? lead rest = sequence? lead rest' := by
    apply sequence?_congr
    intro r hr
    obtain rfl : (n, low, high) = r := Option.some.inj (hc.symm.trans hr)
    exact htake
  exact hsame.symm.trans h

/-- A byte outside of the well-formed sequences is no ASCII character. -/
theorem not_ascii_of_sequence? {lead : UInt8} {rest : List UInt8}
    (h : sequence? lead rest = none) : 0x80 ≤ lead.toNat := by
  by_contra hlt
  rw [sequence?, if_pos (Nat.lt_of_not_le hlt)] at h
  cases h

/-! ### Decoding -/

/-- Decoding loses nothing. -/
theorem encode_decode (bs : List UInt8) : encode (decode bs) = bs := by
  fun_induction decode bs with
  | case1 => rfl
  | case2 b rest c n h ih =>
    calc (char c).bytes ++ encode (decode (rest.drop n))
        = (b :: rest.take n) ++ rest.drop n := by rw [bytes_of_sequence? h, ih]
      _ = b :: rest := congrArg (b :: ·) (List.take_append_drop n rest)
  | case3 b rest h ih => exact congrArg (b :: ·) ih

/-- A cut between two glyphs cuts the bytes into two strings with the glyphs of either side. -/
theorem decode_eq_append {bs : List UInt8} {gs hs : List Glyph} (h : decode bs = gs ++ hs) :
    ∃ front back, bs = front ++ back ∧ decode front = gs ∧ decode back = hs := by
  fun_induction decode bs generalizing gs with
  | case1 =>
    obtain ⟨rfl, rfl⟩ := List.append_eq_nil_iff.1 h.symm
    exact ⟨[], [], rfl, decode.eq_1, decode.eq_1⟩
  | case2 b rest c n hb ih =>
    cases gs with
    | nil => exact ⟨[], b :: rest, rfl, decode.eq_1, by rw [decode, hb]; exact h⟩
    | cons g gs =>
      obtain ⟨rfl, htail⟩ := List.cons.inj h
      obtain ⟨front, back, hrest, hfront, hback⟩ := ih htail
      -- A sequence is decoded from its own bytes, so nothing behind it matters.
      have hlength : (rest.take n).length = n := List.length_take_of_le (le_length_of_sequence? hb)
      have hsame : rest.take n = (rest.take n ++ front).take n := by
        rw [List.take_append_of_le_length hlength.ge, List.take_take, Nat.min_self]
      refine ⟨b :: (rest.take n ++ front), back, ?_, ?_, hback⟩
      · rw [List.cons_append, List.append_assoc, ← hrest, List.take_append_drop]
      · rw [decode, sequence?_eq_of_take hb hsame]
        show char c :: decode ((rest.take n ++ front).drop n) = char c :: gs
        rw [List.drop_append_of_le_length hlength.ge, List.drop_take, Nat.sub_self, List.take_zero,
          List.nil_append, hfront]
  | case3 b rest hb ih =>
    cases gs with
    | nil => exact ⟨[], b :: rest, rfl, decode.eq_1, by rw [decode, hb]; exact h⟩
    | cons g gs =>
      obtain ⟨rfl, htail⟩ := List.cons.inj h
      obtain ⟨front, back, rfl, hfront, hback⟩ := ih htail
      refine ⟨b :: front, back, rfl, ?_, hback⟩
      -- A stray byte stays stray if less follows it.
      have hstray : sequence? b front = none := by
        by_contra hsome
        obtain ⟨⟨c, n⟩, hcn⟩ := Option.ne_none_iff_exists'.1 hsome
        have hsame : front.take n = (front ++ back).take n :=
          (List.take_append_of_le_length (le_length_of_sequence? hcn)).symm
        cases hb.symm.trans (sequence?_eq_of_take hcn hsame)
      rw [decode, hstray, hfront]

/-- Decoding the bytes of a piece between two glyphs gives the glyphs of the piece. -/
theorem decode_encode_of_infix {bs : List UInt8} {front gs back : List Glyph}
    (h : decode bs = front ++ gs ++ back) : decode (encode gs) = gs := by
  obtain ⟨first, -, -, hfirst, -⟩ := decode_eq_append h
  obtain ⟨-, piece, -, -, hpiece⟩ := decode_eq_append hfirst
  calc decode (encode gs) = decode (encode (decode piece)) := by rw [hpiece]
    _ = decode piece := by rw [encode_decode]
    _ = gs := hpiece

/-! ### ASCII characters among the bytes -/

/-- A glyph as it comes out of a byte string: a stray byte is no ASCII character. -/
def IsDecoded : Glyph → Prop
  | char _ => True
  | stray b => 0x80 ≤ b.toNat

/-- A byte of an ASCII character is not decoded as a stray one. -/
theorem isDecoded_of_mem_decode {bs : List UInt8} {g : Glyph} (h : g ∈ decode bs) :
    g.IsDecoded := by
  fun_induction decode bs with
  | case1 => cases h
  | case2 b rest c n hb ih =>
    rcases List.mem_cons.1 h with rfl | h
    · exact trivial
    · exact ih h
  | case3 b rest hb ih =>
    rcases List.mem_cons.1 h with rfl | h
    · exact not_ascii_of_sequence? hb
    · exact ih h

/-- The byte of an ASCII character. -/
def ascii (c : Char) : UInt8 := UInt8.ofNat c.toNat

/-- An ASCII character is written as its one byte. -/
theorem bytes_char_of_ascii {c : Char} (hc : c.toNat < 0x80) : (char c).bytes = [ascii c] := by
  have hle : c.val.toNat ≤ 0x7f := Nat.le_of_lt_succ hc
  simp only [bytes, String.utf8EncodeChar]
  rw [if_pos hle]
  rfl

/-- The bytes of a character outside of ASCII are no ASCII characters. -/
theorem le_of_mem_bytes {c : Char} (hc : 0x80 ≤ c.toNat) :
    ∀ b ∈ (char c).bytes, 0x80 ≤ b.toNat := by
  have hmax := c.valid
  have hnat : c.val.toNat = c.toNat := rfl
  simp only [bytes, String.utf8EncodeChar, hnat]
  rw [if_neg (by omega)]
  -- Two, three or four bytes, each of them with its first bit set.
  split
  · simp only [List.forall_mem_cons, UInt8.toNat_ofNat']
    refine ⟨?_, ?_, nofun⟩ <;> omega
  · split
    · simp only [List.forall_mem_cons, UInt8.toNat_ofNat']
      refine ⟨?_, ?_, ?_, nofun⟩ <;> omega
    · simp only [List.forall_mem_cons, UInt8.toNat_ofNat']
      refine ⟨?_, ?_, ?_, ?_, nofun⟩ <;> omega

/-- The byte of an ASCII character stands in no other glyph of a byte string. -/
theorem ascii_mem_bytes {g : Glyph} (hg : g.IsDecoded) {c : Char} (hc : c.toNat < 0x80) :
    ascii c ∈ g.bytes ↔ g = char c := by
  have hnat : (ascii c).toNat = c.toNat := Nat.mod_eq_of_lt (by omega)
  constructor
  · intro hmem
    cases g with
    | stray b =>
      -- A stray byte is too large, and so is every byte of a longer character.
      have hb : 0x80 ≤ b.toNat := hg
      rw [List.mem_singleton.1 hmem] at hnat
      omega
    | char d =>
      by_cases hd : d.toNat < 0x80
      · rw [bytes_char_of_ascii hd, List.mem_singleton] at hmem
        have hcd : c.toNat = d.toNat := by
          have := congrArg UInt8.toNat hmem
          rwa [hnat, ascii, UInt8.toNat_ofNat', Nat.mod_eq_of_lt (by omega)] at this
        exact congrArg char (Char.toNat_inj.1 hcd).symm
      · have := le_of_mem_bytes (Nat.le_of_not_lt hd) _ hmem
        omega
  · rintro rfl
    rw [bytes_char_of_ascii hc]
    exact List.mem_singleton_self _

/-- The byte of an ASCII character stands among the bytes of glyphs only as that character. -/
theorem ascii_mem_encode {gs : List Glyph} (hgs : ∀ g ∈ gs, g.IsDecoded) {c : Char}
    (hc : c.toNat < 0x80) : ascii c ∈ encode gs ↔ char c ∈ gs := by
  constructor
  · intro hmem
    obtain ⟨g, hg, hbyte⟩ := List.mem_flatMap.1 hmem
    rwa [(ascii_mem_bytes (hgs g hg) hc).1 hbyte] at hg
  · intro hmem
    exact List.mem_flatMap.2 ⟨char c, hmem, (ascii_mem_bytes (g := char c) trivial hc).2 rfl⟩

end ClassScript.Glyph
