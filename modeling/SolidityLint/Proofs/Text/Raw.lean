import SolidityLint.Text.Raw

/-!
# What raw texts show

A text that is encoded is shown as it is (`display_ofText`). Byte by byte: the first byte of a
character says how many more there are and holds the first bits, and each of the others adds six
bits. The range that the second byte has to keep to is just what is left to a character that is
none of the shorter ones, no half of a surrogate pair and not too large.

So different texts have different encodings. The converse fails: bytes that encode no text may
well be shown as one that is also shown for others (`display_eq_of_stray`).
-/

namespace SolidityLint.RawText

-- ── One byte after the other ─────────────────────────────────────────────────

section Bytes

variable {b : UInt8} {bs : List UInt8} {missing value low high n v : Nat}

/-- A byte that begins a character shows nothing yet. -/
theorem decode_first {p : Begun} (hb : b.toNat = n) (hp : Begun.ofByte? n = some p) :
    decode none (b :: bs) = decode (some p) bs := by
  have hlarge : ¬ n < 0x80 := by
    intro hsmall
    rw [Begun.ofByte?, if_pos (Nat.lt_trans hsmall (by decide))] at hp
    exact nomatch hp
  simp only [decode, readFirst, hb, if_neg hlarge, hp, List.nil_append]

/-- A byte that continues a character adds its six bits to it. -/
theorem decode_more (hb : b.toNat = n + 0x80) (h : low ≤ n + 0x80 ∧ n + 0x80 ≤ high) :
    decode (some ⟨missing + 2, value, low, high⟩) (b :: bs)
      = decode (some ⟨missing + 1, value * 64 + n, 0x80, 0xbf⟩) bs := by
  have hmissing : missing + 2 ≠ 1 := by omega
  simp only [decode, readNext, hb, if_pos h, if_neg hmissing, Nat.add_sub_cancel,
    List.nil_append]
  rfl

/-- The last byte of a character completes it. -/
theorem decode_last (hb : b.toNat = n + 0x80) (h : low ≤ n + 0x80 ∧ n + 0x80 ≤ high) :
    decode (some ⟨1, value, low, high⟩) (b :: bs)
      = Char.ofNat (value * 64 + n) :: decode none bs := by
  simp only [decode, readNext, hb, if_pos h, if_true, Nat.add_sub_cancel, List.singleton_append]

/-- The byte that holds the last six bits of a number. -/
theorem toNat_tailByte (n : Nat) : (UInt8.ofNat (n % 64 + 128)).toNat = n % 64 + 0x80 := by
  rw [UInt8.toNat_ofNat']
  omega

/-- It may stand in every place but the second. -/
theorem tailByte_range (n : Nat) : 0x80 ≤ n % 64 + 0x80 ∧ n % 64 + 0x80 ≤ 0xbf := by
  omega

/-- Two bytes make a character. -/
theorem decode_two (hlow : 0x80 ≤ v) (hhigh : v < 0x800) :
    decode none (UInt8.ofNat (v / 64 % 32 + 192) :: UInt8.ofNat (v % 64 + 128) :: bs)
      = Char.ofNat v :: decode none bs := by
  have hfirst : (UInt8.ofNat (v / 64 % 32 + 192)).toNat = v / 64 + 0xc0 := by
    rw [UInt8.toNat_ofNat']
    omega
  have hbegun : Begun.ofByte? (v / 64 + 0xc0) = some ⟨1, v / 64, 0x80, 0xbf⟩ := by
    simp only [Begun.ofByte?, Begun.secondLow, Begun.secondHigh, Nat.add_sub_cancel]
    grind
  rw [decode_first hfirst hbegun, decode_last (toNat_tailByte v) (tailByte_range v),
    Nat.div_add_mod']

/-- Three bytes make a character that is no half of a surrogate pair. -/
theorem decode_three (hlow : 0x800 ≤ v) (hhigh : v < 0x10000)
    (hhalf : v < 0xd800 ∨ 0xdfff < v) :
    decode none (UInt8.ofNat (v / 4096 % 16 + 224) :: UInt8.ofNat (v / 64 % 64 + 128)
        :: UInt8.ofNat (v % 64 + 128) :: bs)
      = Char.ofNat v :: decode none bs := by
  have hfirst : (UInt8.ofNat (v / 4096 % 16 + 224)).toNat = v / 4096 + 0xe0 := by
    rw [UInt8.toNat_ofNat']
    omega
  have hbegun : Begun.ofByte? (v / 4096 + 0xe0) = some ⟨2, v / 4096,
      Begun.secondLow (v / 4096 + 0xe0), Begun.secondHigh (v / 4096 + 0xe0)⟩ := by
    rw [Begun.ofByte?, if_neg (by omega), if_neg (by omega), if_pos (by omega),
      Nat.add_sub_cancel]
  have hsecond : Begun.secondLow (v / 4096 + 0xe0) ≤ v / 64 % 64 + 0x80 ∧
      v / 64 % 64 + 0x80 ≤ Begun.secondHigh (v / 4096 + 0xe0) := by
    simp only [Begun.secondLow, Begun.secondHigh]
    grind
  have hvalue : (v / 4096 * 64 + v / 64 % 64) * 64 + v % 64 = v := by omega
  rw [decode_first hfirst hbegun, decode_more (toNat_tailByte (v / 64)) hsecond,
    decode_last (toNat_tailByte v) (tailByte_range v), hvalue]

/-- Four bytes make a character that is not too large. -/
theorem decode_four (hlow : 0x10000 ≤ v) (hhigh : v < 0x110000) :
    decode none (UInt8.ofNat (v / 262144 % 8 + 240) :: UInt8.ofNat (v / 4096 % 64 + 128)
        :: UInt8.ofNat (v / 64 % 64 + 128) :: UInt8.ofNat (v % 64 + 128) :: bs)
      = Char.ofNat v :: decode none bs := by
  have hfirst : (UInt8.ofNat (v / 262144 % 8 + 240)).toNat = v / 262144 + 0xf0 := by
    rw [UInt8.toNat_ofNat']
    omega
  have hbegun : Begun.ofByte? (v / 262144 + 0xf0) = some ⟨3, v / 262144,
      Begun.secondLow (v / 262144 + 0xf0), Begun.secondHigh (v / 262144 + 0xf0)⟩ := by
    rw [Begun.ofByte?, if_neg (by omega), if_neg (by omega), if_neg (by omega),
      if_pos (by omega), Nat.add_sub_cancel]
  have hsecond : Begun.secondLow (v / 262144 + 0xf0) ≤ v / 4096 % 64 + 0x80 ∧
      v / 4096 % 64 + 0x80 ≤ Begun.secondHigh (v / 262144 + 0xf0) := by
    simp only [Begun.secondLow, Begun.secondHigh]
    grind
  have hvalue : ((v / 262144 * 64 + v / 4096 % 64) * 64 + v / 64 % 64) * 64 + v % 64 = v := by
    omega
  rw [decode_first hfirst hbegun, decode_more (toNat_tailByte (v / 4096)) hsecond,
    decode_more (toNat_tailByte (v / 64)) (tailByte_range (v / 64)),
    decode_last (toNat_tailByte v) (tailByte_range v), hvalue]

end Bytes

-- ── Encoded texts ────────────────────────────────────────────────────────────

/-- The bytes of a character show the character. -/
theorem decode_utf8EncodeChar (c : Char) (bs : List UInt8) :
    decode none (String.utf8EncodeChar c ++ bs) = c :: decode none bs := by
  have hvalid : c.val.toNat < 0xd800 ∨ 0xdfff < c.val.toNat ∧ c.val.toNat < 0x110000 := c.valid
  have hself : Char.ofNat c.val.toNat = c := Char.ofNat_toNat c
  rw [String.utf8EncodeChar]
  -- a case for each number of bytes
  by_cases hone : c.val.toNat ≤ 127
  · have hbyte : (UInt8.ofNat c.val.toNat).toNat = c.val.toNat := by
      rw [UInt8.toNat_ofNat']
      omega
    have hsmall : c.val.toNat < 0x80 := Nat.lt_succ_of_le hone
    simp only [if_pos hone, List.singleton_append, decode, readFirst, hbyte, if_pos hsmall, hself]
  · simp only [if_neg hone]
    by_cases htwo : c.val.toNat ≤ 2047
    · simp only [if_pos htwo, List.cons_append, List.nil_append]
      rw [decode_two (by omega) (by omega), hself]
    · simp only [if_neg htwo]
      by_cases hthree : c.val.toNat ≤ 65535
      · simp only [if_pos hthree, List.cons_append, List.nil_append]
        rw [decode_three (by omega) (by omega) (by omega), hself]
      · simp only [if_neg hthree, List.cons_append, List.nil_append]
        rw [decode_four (by omega) (by omega), hself]

/-- **An encoded text is decoded to itself.** Character by character, since nothing is begun
    between two of them. -/
theorem decode_flatMap_utf8EncodeChar (cs : List Char) :
    decode none (cs.flatMap String.utf8EncodeChar) = cs := by
  induction cs with
  | nil => rfl
  | cons c cs ih => rw [List.flatMap_cons, decode_utf8EncodeChar, ih]

/-- **A text is shown as it is.** -/
@[simp] theorem display_ofText (s : String) : (ofText s).display = s := by
  rw [display, ofText, decode_flatMap_utf8EncodeChar, String.ofList_toList]

/-- Different texts have different encodings. -/
theorem ofText_injective {s t : String} (h : ofText s = ofText t) : s = t := by
  rw [← display_ofText s, h, display_ofText]

/-- A byte that begins no character is shown as any other such byte is. -/
theorem display_eq_of_stray {b b' : UInt8} (h : 0xf5 ≤ b.toNat) (h' : 0xf5 ≤ b'.toNat)
    (bs : List UInt8) : display ⟨b :: bs⟩ = display ⟨b' :: bs⟩ := by
  have hshown : ∀ {b : UInt8}, 0xf5 ≤ b.toNat →
      decode none (b :: bs) = replacement :: decode none bs := by
    intro b hb
    have hbegun : Begun.ofByte? b.toNat = none := by
      rw [Begun.ofByte?, if_neg (by omega), if_neg (by omega), if_neg (by omega),
        if_neg (by omega)]
    have hlarge : ¬ b.toNat < 0x80 := by omega
    simp only [decode, readFirst, if_neg hlarge, hbegun, List.singleton_append]
  rw [display, display, hshown h, hshown h']

-- ── Bytes as characters ──────────────────────────────────────────────────────

theorem toNat_ofNat_of_byte (b : UInt8) : (Char.ofNat b.toNat).toNat = b.toNat := by
  have hvalid : b.toNat.isValidChar := .inl (Nat.lt_trans b.toNat_lt (by decide))
  rw [Char.ofNat, dif_pos hvalid]
  rfl

/-- Bytes are found again from the characters that stand for them. -/
@[simp] theorem ofUnits_units (p : RawText) : ofUnits p.units = p := by
  have hbytes : (p.bytes.map fun b => Char.ofNat b.toNat).map (fun c => UInt8.ofNat c.toNat)
      = p.bytes := by
    rw [List.map_map]
    refine (List.map_congr_left fun b _ => ?_).trans (List.map_id p.bytes)
    show UInt8.ofNat (Char.ofNat b.toNat).toNat = b
    rw [toNat_ofNat_of_byte, UInt8.ofNat_toNat]
  rw [ofUnits, units, hbytes]

/-- The characters that stand for the bytes of encoded characters. -/
def encoded (cs : List Char) : List Char := units ⟨cs.flatMap String.utf8EncodeChar⟩

theorem units_ofText (s : String) : (ofText s).units = encoded s.toList := rfl

/-- The bytes of an encoded text, taken for characters, are the bytes of the text. -/
theorem ofUnits_encoded (cs : List Char) : ofUnits (encoded cs) = ofText (String.ofList cs) := by
  rw [encoded, ofUnits_units, ofText, String.toList_ofList]

@[simp] theorem encoded_append (cs ds : List Char) :
    encoded (cs ++ ds) = encoded cs ++ encoded ds := by
  simp [encoded, units]

theorem encoded_cons (c : Char) (cs : List Char) : encoded (c :: cs) = encoded [c] ++ encoded cs :=
  encoded_append [c] cs

/-- Different texts have different encodings, since an encoding can be decoded. -/
theorem encoded_injective {cs ds : List Char} (h : encoded cs = encoded ds) : cs = ds := by
  have hraw := congrArg ofUnits h
  rw [ofUnits_encoded, ofUnits_encoded] at hraw
  exact String.ofList_injective (ofText_injective hraw)

/-- A character of the ASCII range stands for its own byte. -/
theorem encoded_singleton {c : Char} (h : c.toNat < 0x80) : encoded [c] = [c] := by
  have hle : c.val.toNat ≤ 127 := Nat.le_of_lt_succ h
  have hbyte : (UInt8.ofNat c.val.toNat).toNat = c.toNat := by
    rw [UInt8.toNat_ofNat']
    exact Nat.mod_eq_of_lt (Nat.lt_trans h (by decide))
  simp only [encoded, units, List.flatMap_singleton, String.utf8EncodeChar, if_pos hle,
    List.map_singleton, hbyte, Char.ofNat_toNat]

/-- All bytes of a character beyond the ASCII range are beyond it. -/
theorem le_toNat_of_mem_encoded {c u : Char} (h : 0x80 ≤ c.toNat) (hu : u ∈ encoded [c]) :
    0x80 ≤ u.toNat := by
  obtain ⟨b, hb, rfl⟩ := List.mem_map.mp hu
  rw [toNat_ofNat_of_byte]
  have hlarge : ¬ c.val.toNat ≤ 127 := Nat.not_le.mpr h
  rw [List.flatMap_singleton, String.utf8EncodeChar] at hb
  simp only [if_neg hlarge] at hb
  -- every byte is a number of less than seven bits and the mark of a byte of several
  split at hb
  · simp only [List.mem_cons, List.not_mem_nil, or_false] at hb
    rcases hb with rfl | rfl <;> · rw [UInt8.toNat_ofNat']; omega
  · split at hb
    · simp only [List.mem_cons, List.not_mem_nil, or_false] at hb
      rcases hb with rfl | rfl | rfl <;> · rw [UInt8.toNat_ofNat']; omega
    · simp only [List.mem_cons, List.not_mem_nil, or_false] at hb
      rcases hb with rfl | rfl | rfl | rfl <;> · rw [UInt8.toNat_ofNat']; omega

/-- A character of the ASCII range is among the bytes exactly if it is among the characters. -/
theorem mem_encoded_iff {u : Char} (hu : u.toNat < 0x80) {cs : List Char} :
    u ∈ encoded cs ↔ u ∈ cs := by
  induction cs with
  | nil => rfl
  | cons c cs ih =>
      rw [encoded_cons, List.mem_append, List.mem_cons, ih]
      refine or_congr_left ?_
      by_cases hc : c.toNat < 0x80
      · rw [encoded_singleton hc, List.mem_singleton]
      · constructor
        · intro hmem
          exact absurd hu (Nat.not_lt.mpr (le_toNat_of_mem_encoded (Nat.not_lt.mp hc) hmem))
        · rintro rfl
          exact absurd hu hc

/-- Characters of the ASCII range stand for their own bytes. -/
theorem encoded_of_ascii {cs : List Char} (h : ∀ c ∈ cs, c.toNat < 0x80) : encoded cs = cs := by
  induction cs with
  | nil => rfl
  | cons c cs ih =>
      obtain ⟨hc, hcs⟩ := List.forall_mem_cons.mp h
      rw [encoded_cons, encoded_singleton hc, ih hcs, List.singleton_append]

/-- No other characters have the same bytes. -/
theorem encoded_eq_iff {cs ds : List Char} (h : ∀ d ∈ ds, d.toNat < 0x80) :
    encoded cs = ds ↔ cs = ds := by
  constructor
  · intro heq
    exact encoded_injective (heq.trans (encoded_of_ascii h).symm)
  · rintro rfl
    exact encoded_of_ascii h

end SolidityLint.RawText
