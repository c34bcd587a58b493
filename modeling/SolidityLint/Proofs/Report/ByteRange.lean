import SolidityLint.Report.Diagnostic

/-!
# Characters and the bytes that encode them

A run of characters is mapped to bytes by going through the boundaries between characters: first
to the start of the run, and from there to its end. The boundary before character `i` is the size
of the encoding of the first `i` characters (`getElem?_byteBoundaries`), and the end is the
boundary `length` places behind the start (`byteRange?_of_drop`). So a run is found exactly if it
ends within the text, and the bytes between its boundaries are its encoding (`byteRange?_eq`).
Runs that follow each other are then mapped to bytes that do.
-/

namespace SolidityLint

theorem size_utf8Encode_cons (c : Char) (cs : List Char) :
    (c :: cs).utf8Encode.size = c.utf8Size + cs.utf8Encode.size := by
  rw [List.utf8Encode_cons, ByteArray.size_append, List.utf8Encode_singleton,
    List.size_toByteArray, String.length_utf8EncodeChar]

/-- Boundary number `i` lies behind the encoding of the first `i` characters, and there is one
    more boundary than there are characters. -/
theorem getElem?_byteBoundaries (before : Nat) (cs : List Char) (i : Nat) :
    (byteBoundaries before cs)[i]?
      = if i ≤ cs.length then some (before + (cs.take i).utf8Encode.size) else none := by
  induction cs generalizing before i with
  | nil =>
      cases i with
      | zero => simp [byteBoundaries]
      | succ i => simp [byteBoundaries]
  | cons c cs ih =>
      cases i with
      | zero => simp [byteBoundaries]
      | succ i =>
          rw [byteBoundaries, List.getElem?_cons_succ, ih, List.length_cons, List.take_succ_cons,
            size_utf8Encode_cons, Nat.add_assoc]
          simp only [Nat.add_le_add_iff_right]

/-- Adjacent runs of characters have adjacent encodings. -/
theorem size_utf8Encode_take_add (cs : List Char) (i j : Nat) :
    (cs.take (i + j)).utf8Encode.size
      = (cs.take i).utf8Encode.size + ((cs.drop i).take j).utf8Encode.size := by
  rw [List.take_add, List.utf8Encode_append, ByteArray.size_append]

/-- The boundaries that are left behind the first `offset` ones. -/
theorem getElem?_drop_byteBoundaries (text : String) (offset k : Nat) :
    ((byteBoundaries 0 text.toList).drop offset)[k]?
      = if offset + k ≤ text.length then
          some ((text.toList.take offset).utf8Encode.size
            + ((text.toList.drop offset).take k).utf8Encode.size)
        else none := by
  rw [List.getElem?_drop, getElem?_byteBoundaries, String.length_toList, Nat.zero_add,
    size_utf8Encode_take_add]

/-- The end of a run is the boundary that stands as far behind its start as the run is long, also
    if the run is empty. -/
theorem byteRange?_of_drop {text : String} {offset first : Nat} {later : List Nat}
    (h : (byteBoundaries 0 text.toList).drop offset = first :: later) (length : Nat) :
    byteRange? text offset length
      = ((first :: later)[length]?).map fun last => (first, last - first) := by
  rw [byteRange?, h]
  cases length with
  | zero => rfl
  | succ n => rfl

/-- **The bytes of a run are found exactly if the run lies within the text.** -/
theorem byteRange?_eq (text : String) (offset length : Nat) :
    byteRange? text offset length
      = if offset + length ≤ text.length then
          some ((text.toList.take offset).utf8Encode.size,
            ((text.toList.drop offset).take length).utf8Encode.size)
        else none := by
  have hstart := getElem?_drop_byteBoundaries text offset 0
  have hstop := getElem?_drop_byteBoundaries text offset length
  cases hleft : (byteBoundaries 0 text.toList).drop offset with
  | nil =>
      -- no boundary is left for the start, let alone for the end
      rw [hleft, List.getElem?_nil] at hstop
      by_cases h : offset + length ≤ text.length
      · rw [if_pos h] at hstop
        exact nomatch hstop
      · rw [if_neg h, byteRange?, hleft]
  | cons first later =>
      rw [hleft] at hstart hstop
      rw [byteRange?_of_drop hleft, hstop]
      by_cases h : offset + length ≤ text.length
      · have hfirst : first = (text.toList.take offset).utf8Encode.size := by
          rw [if_pos (by omega)] at hstart
          simpa using hstart
        rw [if_pos h, if_pos h, Option.map_some, hfirst, Nat.add_sub_cancel_left]
      · rw [if_neg h, if_neg h]
        rfl

/-- A range that is given has the bytes in front of the run and the bytes of the run. -/
theorem byteRange?_eq_some_iff {text : String} {offset length start size : Nat} :
    byteRange? text offset length = some (start, size) ↔
      offset + length ≤ text.length ∧ (text.toList.take offset).utf8Encode.size = start ∧
        ((text.toList.drop offset).take length).utf8Encode.size = size := by
  rw [byteRange?_eq]
  by_cases h : offset + length ≤ text.length
  · simp [h]
  · simp [h]

-- ── The bytes of a run ───────────────────────────────────────────────────────

/-- A text is encoded in two parts, cut at any character. -/
theorem toByteArray_eq_take_drop (text : String) (k : Nat) :
    text.toByteArray = (text.toList.take k).utf8Encode ++ (text.toList.drop k).utf8Encode := by
  rw [← List.utf8Encode_append, List.take_append_drop, String.utf8Encode_toList]

/-- The encoding of the first characters of a text ends at a boundary. -/
theorem isValid_size_take (text : String) (k : Nat) :
    String.Pos.Raw.IsValid text ⟨(text.toList.take k).utf8Encode.size⟩ := by
  rw [String.Pos.Raw.isValid_iff_isValidUTF8_extract_zero]
  have hbytes := toByteArray_eq_take_drop text k
  constructor
  · rw [String.Pos.Raw.le_iff, String.byteIdx_rawEndPos, ← String.size_toByteArray, hbytes,
      ByteArray.size_append]
    exact Nat.le_add_right _ _
  · rw [hbytes, ByteArray.extract_append_eq_left rfl]
    exact ByteArray.isValidUTF8_utf8Encode

/-- The bytes between two boundaries encode the characters between them. -/
theorem extract_toByteArray (text : String) (offset length : Nat) :
    text.toByteArray.extract (text.toList.take offset).utf8Encode.size
        ((text.toList.take offset).utf8Encode.size
          + ((text.toList.drop offset).take length).utf8Encode.size)
      = ((text.toList.drop offset).take length).utf8Encode := by
  rw [← size_utf8Encode_take_add, toByteArray_eq_take_drop text (offset + length),
    ByteArray.extract_append_size_left, List.take_add, List.utf8Encode_append]
  exact ByteArray.extract_append_eq_right rfl ByteArray.size_append

/-- Some bytes of a text are the encoding of the `length` characters behind the first `offset`
    ones: there are as many bytes before them as encode those first characters, they start and end
    between characters, and what they encode are the characters of the run. -/
structure EncodesRun (text : String) (offset length start size : Nat) : Prop where
  start_eq : start = (text.toList.take offset).utf8Encode.size
  size_eq : size = ((text.toList.drop offset).take length).utf8Encode.size
  le_size : start + size ≤ text.utf8ByteSize
  start_isValid : String.Pos.Raw.IsValid text ⟨start⟩
  stop_isValid : String.Pos.Raw.IsValid text ⟨start + size⟩
  bytes_eq : text.toByteArray.extract start (start + size)
    = ((text.toList.drop offset).take length).utf8Encode

/-- The encoding of a run of characters is found at its place, between two boundaries. -/
theorem encodesRun_size (text : String) (offset length : Nat) :
    EncodesRun text offset length (text.toList.take offset).utf8Encode.size
      ((text.toList.drop offset).take length).utf8Encode.size := by
  have hstop := isValid_size_take text (offset + length)
  rw [size_utf8Encode_take_add] at hstop
  exact ⟨rfl, rfl, hstop.le_utf8ByteSize, isValid_size_take text offset, hstop,
    extract_toByteArray text offset length⟩

/-- Bytes of runs that follow each other follow each other, and together they are the bytes of the
    two runs taken as one. -/
theorem byteRange?_add {text : String} {offset length next start size start' size' : Nat}
    (h : byteRange? text offset length = some (start, size))
    (h' : byteRange? text (offset + length) next = some (start', size')) :
    start' = start + size ∧
      byteRange? text offset (length + next) = some (start, size + size') := by
  obtain ⟨-, rfl, rfl⟩ := byteRange?_eq_some_iff.mp h
  obtain ⟨hle, rfl, rfl⟩ := byteRange?_eq_some_iff.mp h'
  refine ⟨size_utf8Encode_take_add text.toList offset length, ?_⟩
  refine byteRange?_eq_some_iff.mpr ⟨by omega, rfl, ?_⟩
  rw [size_utf8Encode_take_add, List.drop_drop]

/-- **A run of characters is mapped to its bytes.** Bytes are found for a run, whatever numbers
    it is given by, if and only if it ends within the text, and what is found are the bytes that
    encode the characters of the run. If another run follows the first, then its bytes follow
    those of the first, and the two runs taken as one are mapped to the bytes of both. -/
theorem byteRange?_encodes (text : String) (offset length : Nat) :
    ((byteRange? text offset length).isSome ↔ offset + length ≤ text.length) ∧
      (∀ start size, byteRange? text offset length = some (start, size) →
        EncodesRun text offset length start size) ∧
      ∀ next start size start' size', byteRange? text offset length = some (start, size) →
        byteRange? text (offset + length) next = some (start', size') →
          start' = start + size ∧
            byteRange? text offset (length + next) = some (start, size + size') := by
  refine ⟨?found, ?encodes, ?adjacent⟩
  case found =>
    rw [byteRange?_eq]
    by_cases h : offset + length ≤ text.length
    · simp [h]
    · simp [h]
  case encodes =>
    intro start size h
    obtain ⟨-, rfl, rfl⟩ := byteRange?_eq_some_iff.mp h
    exact encodesRun_size text offset length
  case adjacent =>
    intro next start size start' size' h h'
    exact byteRange?_add h h'

/-- Four characters, one of them of two bytes, and the nine behind them are mapped to five bytes
    and the nine behind those; a run of the greatest 64-bit length does not wrap around. -/
theorem byteRange?_encodes_accented :
    byteRange? "// é\ncontract A" 0 4 = some (0, 5) ∧
      EncodesRun "// é\ncontract A" 0 4 0 5 ∧
      byteRange? "// é\ncontract A" 4 9 = some (5, 9) ∧
      byteRange? "// é\ncontract A" 0 13 = some (0, 14) ∧
      ¬ (byteRange? "// é\ncontract A" 1 18446744073709551615).isSome := by
  obtain ⟨-, hencodes, hadjacent⟩ := byteRange?_encodes "// é\ncontract A" 0 4
  have hfirst : byteRange? "// é\ncontract A" 0 4 = some (0, 5) := by decide +kernel
  have hsecond : byteRange? "// é\ncontract A" (0 + 4) 9 = some (5, 9) := by decide +kernel
  refine ⟨hfirst, hencodes 0 5 hfirst, hsecond, (hadjacent 9 0 5 5 9 hfirst hsecond).2, ?_⟩
  rw [(byteRange?_encodes "// é\ncontract A" 1 18446744073709551615).1]
  decide

end SolidityLint
