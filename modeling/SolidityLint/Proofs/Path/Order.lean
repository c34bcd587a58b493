import SolidityLint.Path.Component

/-!
# The order of paths

Paths are compared by keys, lists of lists of numbers. What the keys stand for: a path comes
before another if its list of components comes first in the order of words, where the root
comes before a leading `.`, this before `..`, this before names, and of two names the one whose
bytes come first. The bytes of a name are those that encode its characters; that they are in
the order of the characters is a property of the encoding (`utf8EncodeChar_append_lt`).
-/

namespace SolidityLint.Path

-- ── Bytes and characters ─────────────────────────────────────────────────────

/-- Bytes come first if their first one does, and if it is the same, what follows it. -/
theorem ofNat_cons_lt {a b : Nat} {u v : List UInt8} (hb : b < 256) (hle : a ≤ b)
    (hrest : a = b → u < v) : UInt8.ofNat a :: u < UInt8.ofNat b :: v := by
  rw [List.cons_lt_cons_iff]
  rcases Nat.lt_or_eq_of_le hle with hlt | rfl
  · left
    rw [UInt8.lt_iff_toNat_lt, UInt8.toNat_ofNat', UInt8.toNat_ofNat']
    omega
  · exact .inr ⟨rfl, hrest rfl⟩

/-- The bytes that encode a character come before those that encode a later one, whatever
    follows them. -/
theorem utf8EncodeChar_append_lt {c d : Char} (h : c < d) (u v : List UInt8) :
    String.utf8EncodeChar c ++ u < String.utf8EncodeChar d ++ v := by
  have hlt : c.val.toNat < d.val.toNat := UInt32.lt_iff_toNat_lt.mp h
  have hd : d.val.toNat < 0x110000 := by
    have hvalid := d.valid
    simp only [UInt32.isValidChar, Nat.isValidChar] at hvalid
    omega
  simp only [String.utf8EncodeChar]
  generalize c.val.toNat = x at hlt ⊢
  generalize d.val.toNat = y at hlt hd ⊢
  -- a character takes one to four bytes, and the more it takes the greater is the first; where
  -- both take as many, the first byte that differs holds the first differing six bits
  by_cases hc₁ : x ≤ 0x7f
  · rw [if_pos hc₁]
    split
    · exact ofNat_cons_lt (by omega) (by omega) (by omega)
    · split
      · exact ofNat_cons_lt (by omega) (by omega) (by omega)
      · split
        · exact ofNat_cons_lt (by omega) (by omega) (by omega)
        · exact ofNat_cons_lt (by omega) (by omega) (by omega)
  rw [if_neg hc₁, if_neg (by omega : ¬ y ≤ 0x7f)]
  by_cases hc₂ : x ≤ 0x7ff
  · rw [if_pos hc₂]
    split
    · exact ofNat_cons_lt (by omega) (by omega) fun _ =>
        ofNat_cons_lt (by omega) (by omega) (by omega)
    · split
      · exact ofNat_cons_lt (by omega) (by omega) (by omega)
      · exact ofNat_cons_lt (by omega) (by omega) (by omega)
  rw [if_neg hc₂, if_neg (by omega : ¬ y ≤ 0x7ff)]
  by_cases hc₃ : x ≤ 0xffff
  · rw [if_pos hc₃]
    split
    · exact ofNat_cons_lt (by omega) (by omega) fun _ =>
        ofNat_cons_lt (by omega) (by omega) fun _ =>
          ofNat_cons_lt (by omega) (by omega) (by omega)
    · exact ofNat_cons_lt (by omega) (by omega) (by omega)
  rw [if_neg hc₃, if_neg (by omega : ¬ y ≤ 0xffff)]
  exact ofNat_cons_lt (by omega) (by omega) fun _ =>
    ofNat_cons_lt (by omega) (by omega) fun _ =>
      ofNat_cons_lt (by omega) (by omega) fun _ =>
        ofNat_cons_lt (by omega) (by omega) (by omega)

/-- The bytes that encode a segment. -/
def Segment.bytes (s : Segment) : List UInt8 := s.flatMap String.utf8EncodeChar

/-- Texts in the order of their characters have their encodings in the order of the bytes. -/
theorem Segment.bytes_lt_of_lt {s t : Segment} (h : s < t) : s.bytes < t.bytes := by
  induction s generalizing t with
  | nil =>
      cases t with
      | nil => exact absurd h (List.lt_irrefl [])
      | cons d t =>
          rw [Segment.bytes, Segment.bytes, List.flatMap_cons]
          cases hd : String.utf8EncodeChar d with
          | nil => exact absurd hd String.utf8EncodeChar_ne_nil
          | cons b bs => exact List.nil_lt_cons _ _
  | cons c s ih =>
      cases t with
      | nil => exact absurd h (List.not_lt_nil _)
      | cons d t =>
          rw [Segment.bytes, Segment.bytes, List.flatMap_cons, List.flatMap_cons]
          rcases List.cons_lt_cons_iff.mp h with hcd | ⟨rfl, hst⟩
          · exact utf8EncodeChar_append_lt hcd _ _
          · exact List.append_left_lt (ih hst)

/-- **Names are in the order of their bytes.** -/
theorem Segment.bytes_lt_iff {s t : Segment} : s.bytes < t.bytes ↔ s < t := by
  refine ⟨fun h => Classical.byContradiction fun hst => ?_, Segment.bytes_lt_of_lt⟩
  rcases List.le_iff_lt_or_eq.mp (List.not_lt.mp hst) with hts | rfl
  · exact List.lt_asymm h (Segment.bytes_lt_of_lt hts)
  · exact List.lt_irrefl _ h

-- ── Components and paths ─────────────────────────────────────────────────────

/-- Keys that tell items apart put lists of items into the order of words. -/
theorem compare_map_eq_lt_iff {α κ : Type} [Ord κ] {key : α → κ} {before : α → α → Prop}
    (hlt : ∀ {a b}, compare (key a) (key b) = .lt ↔ before a b)
    (heq : ∀ {a b}, compare (key a) (key b) = .eq ↔ a = b) {xs ys : List α} :
    compare (xs.map key) (ys.map key) = .lt ↔ List.Lex before xs ys := by
  induction xs generalizing ys with
  | nil =>
      cases ys with
      | nil => exact ⟨nofun, nofun⟩
      | cons y ys => exact ⟨fun _ => .nil, fun _ => rfl⟩
  | cons x xs ih =>
      cases ys with
      | nil => exact ⟨nofun, nofun⟩
      | cons y ys =>
          rw [List.map_cons, List.map_cons, List.compare_cons_cons, Ordering.then_eq_lt, hlt, heq,
            ih, List.cons_lex_cons_iff]

/-- The kinds of components, in their order. -/
def Component.kind : Component → Nat
  | root => 0
  | here => 1
  | up => 2
  | name _ => 3

/-- A component comes before another: by its kind, and of two names by the bytes. -/
inductive Component.Before : Component → Component → Prop where
  | ofKind {a b : Component} (h : a.kind < b.kind) : Before a b
  | ofBytes {s t : Segment} (h : s.bytes < t.bytes) : Before (.name s) (.name t)

/-- A path comes before another, component by component. -/
def Before (p q : String) : Prop := List.Lex Component.Before (components p) (components q)

theorem Component.key_injective : Function.Injective Component.key := by
  intro a b h
  cases a with
  | name s =>
      cases b with
      | name s' =>
          have hmap : s.map Char.toNat = s'.map Char.toNat := (List.cons.inj h).2
          rw [(List.map_inj_right fun _ _ => Char.toNat_inj.mp).mp hmap]
      | _ => simp [Component.key] at h
  | _ => cases b <;> simp_all [Component.key]

theorem key_eq_iff {p q : String} : key p = key q ↔ components p = components q :=
  List.map_inj_right fun _ _ h => Component.key_injective h

/-- Comparing the numbers of the characters gives the order of the encodings. -/
theorem Segment.compare_map_toNat_eq_lt_iff {s t : Segment} :
    compare (s.map Char.toNat) (t.map Char.toNat) = .lt ↔ s.bytes < t.bytes := by
  rw [Segment.bytes_lt_iff]
  refine compare_map_eq_lt_iff ?_ ?_
  · intro c d
    rw [Nat.compare_eq_lt]
    exact UInt32.lt_iff_toNat_lt.symm
  · intro c d
    rw [Nat.compare_eq_eq, Char.toNat_inj]

/-- Components of one kind are equal, unless they are names. -/
theorem Component.eq_or_names_of_kind_eq {a b : Component} (h : a.kind = b.kind) :
    a = b ∨ ∃ s t, a = .name s ∧ b = .name t := by
  cases a with
  | name s =>
      cases b with
      | name t => exact .inr ⟨s, t, rfl, rfl⟩
      | _ => exact nomatch h
  | root =>
      cases b with
      | root => exact .inl rfl
      | _ => exact nomatch h
  | here =>
      cases b with
      | here => exact .inl rfl
      | _ => exact nomatch h
  | up =>
      cases b with
      | up => exact .inl rfl
      | _ => exact nomatch h

/-- A key tells the kind first. -/
theorem Component.compare_key_of_kind_lt {a b : Component} (h : a.kind < b.kind) :
    compare a.key b.key = .lt := by
  have hkey : ∀ c : Component, ∃ letters, c.key = c.kind :: letters := by
    intro c
    cases c with
    | _ => exact ⟨_, rfl⟩
  obtain ⟨as, ha⟩ := hkey a
  obtain ⟨bs, hb⟩ := hkey b
  rw [ha, hb, List.compare_cons_cons, Nat.compare_eq_lt.mpr h]
  rfl

theorem Component.compare_key_name {s t : Segment} :
    compare (Component.name s).key (Component.name t).key
      = compare (s.map Char.toNat) (t.map Char.toNat) := by
  rw [Component.key, Component.key, List.compare_cons_cons]
  rfl

/-- **Keys are compared as components are**: by kind, and names by their bytes. -/
theorem Component.compare_key_eq_lt_iff {a b : Component} :
    compare a.key b.key = .lt ↔ a.Before b := by
  constructor
  · intro h
    rcases Nat.lt_trichotomy a.kind b.kind with hlt | heq | hgt
    · exact .ofKind hlt
    · rcases Component.eq_or_names_of_kind_eq heq with rfl | ⟨s, t, rfl, rfl⟩
      · have hself : compare a.key a.key = .eq := Std.ReflCmp.compare_self
        exact nomatch h.symm.trans hself
      · rw [Component.compare_key_name, Segment.compare_map_toNat_eq_lt_iff] at h
        exact .ofBytes h
    · have hswap : compare a.key b.key = (compare b.key a.key).swap := Std.OrientedCmp.eq_swap
      rw [hswap, Component.compare_key_of_kind_lt hgt] at h
      exact nomatch h
  · intro h
    cases h with
    | ofKind hkind => exact Component.compare_key_of_kind_lt hkind
    | ofBytes hbytes =>
        rw [Component.compare_key_name, Segment.compare_map_toNat_eq_lt_iff]
        exact hbytes

/-- **The key of a path tells its place in the order of paths.** -/
theorem compare_key_eq_lt_iff {p q : String} : compare (key p) (key q) = .lt ↔ Before p q := by
  refine compare_map_eq_lt_iff Component.compare_key_eq_lt_iff ?_
  intro a b
  rw [Std.LawfulEqOrd.compare_eq_iff_eq, Component.key_injective.eq_iff]

end SolidityLint.Path
