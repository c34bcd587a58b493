import Mathlib.Data.List.TakeDrop
import SolidityLint.Json.Reader
import SolidityLint.Json.Writer

/-!
# Numbers and texts, written and read back

The reader takes a number up to the first character that cannot belong to it, so a number
is read back when what follows cannot continue it (`EndsNumber`). Inside a text the reader
takes one written character at a time (`readText_escape`), whatever its escape, so a text
is read back by induction on its characters, with those read so far as the accumulator.
-/

namespace SolidityLint

-- ── Digits ───────────────────────────────────────────────────────────────────

namespace Digits

theorem ne_of_isDigit {c d : Char} (hd : d.isDigit = true) (hc : c.isDigit = false) : d ≠ c := by
  rintro rfl
  rw [hd] at hc
  exact nomatch hc

theorem isDigit_of_mem_toDigits {n : Nat} {d : Char} (hd : d ∈ Nat.toDigits 10 n) :
    d.isDigit = true :=
  Nat.isDigit_of_mem_toDigits (by decide) (by decide) hd

theorem exists_head_toDigits (n : Nat) :
    ∃ d ds, Nat.toDigits 10 n = d :: ds ∧ d.isDigit = true := by
  cases h : Nat.toDigits 10 n with
  | nil => exact absurd h Nat.toDigits_ne_nil
  | cons d ds => exact ⟨d, ds, rfl, isDigit_of_mem_toDigits (h ▸ List.mem_cons_self)⟩

/-- The value of a digit is read back, in any base up to sixteen. -/
theorem value?_digitChar : ∀ {d : Nat}, d < 16 → value? (Nat.digitChar d) = some d := by
  decide

/-- One more digit at the end shifts the number and adds the digit. -/
theorem toNat_append_digitChar {base d : Nat} (ds : List Char) (h : d < 16) :
    toNat base (ds ++ [Nat.digitChar d]) = toNat base ds * base + d := by
  rw [toNat, List.foldl_append, List.foldl_cons, List.foldl_nil, value?_digitChar h]
  rfl

/-- **A number is read back from its decimal digits.** By induction on the number, whose last
    digit goes first. -/
theorem toNat_toDigits (n : Nat) : toNat 10 (Nat.toDigits 10 n) = n := by
  induction n using Nat.strongRecOn with
  | ind n ih =>
      have hdigit : n % 10 < 16 := by omega
      by_cases hn : n < 10
      · rw [Nat.toDigits_of_lt_base hn, ← List.nil_append [n.digitChar],
          toNat_append_digitChar [] (by omega)]
        exact Nat.zero_add n
      · rw [Nat.toDigits_of_base_le (by decide) (Nat.le_of_not_lt hn),
          toNat_append_digitChar _ hdigit, ih (n / 10) (by omega)]
        omega

/-- Only the number zero is written with a zero in front. -/
theorem tail_eq_nil_of_toDigits {n : Nat} {ds : List Char} (h : Nat.toDigits 10 n = '0' :: ds) :
    ds = [] := by
  induction n using Nat.strongRecOn generalizing ds with
  | ind n ih =>
      by_cases hn : n < 10
      · rw [Nat.toDigits_of_lt_base hn] at h
        exact (List.cons.inj h).2.symm
      · rw [Nat.toDigits_of_base_le (by decide) (Nat.le_of_not_lt hn)] at h
        obtain ⟨c, cs, hhigh, -⟩ := exists_head_toDigits (n / 10)
        rw [hhigh] at h
        obtain rfl : c = '0' := (List.cons.inj h).1
        obtain rfl := ih (n / 10) (by omega) hhigh
        have hzero : n / 10 = 0 := by
          rw [← toNat_toDigits (n / 10), hhigh]
          rfl
        omega

/-- Two hexadecimal digits behind two zeros stand for the number below 256 that they were written
    for. -/
theorem ofHex?_twoHex {n : Nat} (h : n < 256) : ofHex? ('0' :: '0' :: twoHex n) = some n := by
  have hhigh : value? (Nat.digitChar (n / 16)) = some (n / 16) := value?_digitChar (by omega)
  have hlow : value? (Nat.digitChar (n % 16)) = some (n % 16) := value?_digitChar (by omega)
  have hzero : value? '0' = some 0 := rfl
  simp [ofHex?, twoHex, hzero, hhigh, hlow, Nat.div_add_mod']

end Digits

namespace Json

-- ── Numbers ──────────────────────────────────────────────────────────────────

/-- What follows a number does not continue it. -/
def EndsNumber : List Char → Prop
  | [] => True
  | c :: _ => c.isDigit = false ∧ c ≠ '.' ∧ c ≠ 'e' ∧ c ≠ 'E'

/-- Digits are read up to the place where a number may end. -/
theorem spanDigits_append {ds rest : List Char} (hds : ∀ c ∈ ds, c.isDigit = true)
    (hrest : EndsNumber rest) : spanDigits (ds ++ rest) = (ds, rest) := by
  rw [spanDigits, List.span_eq_takeWhile_dropWhile, List.takeWhile_append_of_pos hds,
    List.dropWhile_append_of_pos hds]
  cases rest with
  | nil => simp
  | cons c cs => simp [hrest.1]

namespace Number

/-- The whole part of a number is read back from its digits. They start with a zero only if there
    is no other. -/
theorem readWhole_toDigits (n : Nat) {rest : List Char} (hrest : EndsNumber rest) :
    readWhole (Nat.toDigits 10 n ++ rest) = .ok (Nat.toDigits 10 n, rest) := by
  have hspan : spanDigits (Nat.toDigits 10 n ++ rest) = (Nat.toDigits 10 n, rest) :=
    spanDigits_append (fun _ => Digits.isDigit_of_mem_toDigits) hrest
  have hdigits : digits1 (Nat.toDigits 10 n ++ rest) = .ok (Nat.toDigits 10 n, rest) := by
    obtain ⟨d, ds, hds, -⟩ := Digits.exists_head_toDigits n
    rw [digits1, hspan, hds]
  rw [readWhole, hdigits]
  simp only [bind, Except.bind]
  split
  · next d ds h => exact nomatch Digits.tail_eq_nil_of_toDigits h
  · rfl

/-- Where a number may end, no fraction and no exponent follow. -/
theorem readFraction_of_endsNumber {rest : List Char} (hrest : EndsNumber rest) :
    readFraction rest = .ok (none, rest) := by
  rw [readFraction.eq_def]
  split
  · exact absurd rfl hrest.2.1
  · rfl

theorem readExponent_of_endsNumber {rest : List Char} (hrest : EndsNumber rest) :
    readExponent rest = .ok (none, rest) := by
  cases rest with
  | nil => rfl
  | cons c cs =>
      obtain ⟨-, -, he, hE⟩ := hrest
      rw [readExponent, if_neg]
      rintro (h | h)
      · exact he h
      · exact hE h

/-- A written number is read as one without sign, fraction and exponent. -/
theorem read_toDigits (n : Nat) {rest : List Char} (hrest : EndsNumber rest) :
    read (Nat.toDigits 10 n ++ rest) = .ok (⟨false, Nat.toDigits 10 n, none, none⟩, rest) := by
  rw [read, readWhole_toDigits n hrest]
  · show (readFraction rest >>= _) = _
    rw [readFraction_of_endsNumber hrest]
    show (readExponent rest >>= _) = _
    rw [readExponent_of_endsNumber hrest]
    rfl
  · intro cs hsign
    obtain ⟨d, ds, hds, hd⟩ := Digits.exists_head_toDigits n
    rw [hds] at hsign
    exact Digits.ne_of_isDigit hd rfl (List.cons.inj hsign).1

end Number

/-- **A number of 64 bits is read back**, whatever may follow a number. -/
theorem readNumber_toDigits (m : Mode) (n : UInt64) {rest : List Char} (hrest : EndsNumber rest) :
    readNumber m (Nat.toDigits 10 n.toNat ++ rest) = .ok (.natural n, rest) := by
  have hnatural : Number.natural? ⟨false, Nat.toDigits 10 n.toNat, none, none⟩ = some n := by
    simp [Number.natural?, Digits.toNat_toDigits, n.toNat_lt]
  rw [readNumber, Number.read_toDigits _ hrest]
  simp only [bind, Except.bind, hnatural]
  rfl

-- ── Texts ────────────────────────────────────────────────────────────────────

section Text

variable {m : Mode} {acc rest : List Char}

/-- A character that needs no escape is taken as it is. -/
theorem readText_plain {c : Char} (hquote : c ≠ '"') (hslash : c ≠ '\\') (hplain : ¬ c < ' ') :
    readText m ⟨acc, none, true⟩ (c :: rest) = readText m ⟨c :: acc, none, true⟩ rest := by
  rw [readText.eq_def]
  simp only [if_neg hquote, if_neg hslash, if_neg hplain]
  rfl

/-- A letter behind a backslash is taken for the character it stands for. -/
theorem readText_letter {e c : Char} (hc : unescape? e = some c) :
    readText m ⟨acc, none, true⟩ ('\\' :: e :: rest)
      = readText m ⟨c :: acc, none, true⟩ rest := by
  have hu : e ≠ 'u' := by
    rintro rfl
    exact nomatch hc
  rw [readText.eq_def]
  simp only [Char.reduceEq, if_false, if_true, hu, hc]
  rfl

/-- Four hexadecimal digits behind `\u` are taken for the character with that number. Below the
    surrogates a unit is a character by itself. -/
theorem readText_unit {n : Nat} {d₁ d₂ d₃ d₄ : Char} (hn : Digits.ofHex? [d₁, d₂, d₃, d₄] = some n)
    (hsmall : n < 0xd800) :
    readText m ⟨acc, none, true⟩ ('\\' :: 'u' :: d₁ :: d₂ :: d₃ :: d₄ :: rest)
      = readText m ⟨Char.ofNat n :: acc, none, true⟩ rest := by
  have hpush : PartialText.pushUnit m ⟨acc, none, true⟩ n
      = .ok ⟨Char.ofNat n :: acc, none, true⟩ := by
    unfold PartialText.pushUnit
    rw [if_neg (by omega), if_neg (by omega)]
    rfl
  rw [readText.eq_def]
  simp only [Char.reduceEq, if_false, if_true, hn, hpush]

/-- Every character is read back from how it is written. -/
theorem readText_escape (c : Char) :
    readText m ⟨acc, none, true⟩ (escape c ++ rest) = readText m ⟨c :: acc, none, true⟩ rest := by
  rw [escape]
  split_ifs with hquote hslash hb hf hn hr ht hcontrol
  · subst hquote
    exact readText_letter rfl
  · subst hslash
    exact readText_letter rfl
  · subst hb
    exact readText_letter rfl
  · subst hf
    exact readText_letter rfl
  · subst hn
    exact readText_letter rfl
  · subst hr
    exact readText_letter rfl
  · subst ht
    exact readText_letter rfl
  · have hlt : c.toNat < 32 := hcontrol
    -- control characters are written by number, far below the surrogates
    nth_rewrite 2 [← Char.ofNat_toNat c]
    exact readText_unit (Digits.ofHex?_twoHex (by omega)) (by omega)
  · exact readText_plain hquote hslash hcontrol

/-- A text is read back from its escaped characters, up to the closing quote. By induction on the
    text, with the characters read so far kept aside. -/
theorem readText_flatMap_escape (s : List Char) :
    readText m ⟨acc, none, true⟩ (s.flatMap escape ++ '"' :: rest)
      = .ok (some (String.ofList (acc.reverse ++ s)), rest) := by
  induction s generalizing acc with
  | nil =>
      rw [List.append_nil, List.flatMap_nil, List.nil_append, readText.eq_def]
      rfl
  | cons c s ih =>
      rw [List.flatMap_cons, List.append_assoc, readText_escape, ih, List.reverse_cons,
        List.append_assoc, List.singleton_append]

/-- **A text is read back from how it is written**, whatever characters it holds. -/
theorem readText_writeText (m : Mode) (s : String) (rest : List Char) :
    readText m {} (s.toList.flatMap escape ++ '"' :: rest) = .ok (some s, rest) := by
  rw [readText_flatMap_escape, List.reverse_nil, List.nil_append, String.ofList_toList]

end Text

end Json

end SolidityLint
