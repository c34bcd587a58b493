import Mathlib.Data.List.Basic
import SolidityLint.Proofs.Path.Source
import SolidityLint.Proofs.Text.Raw

/-!
# Paths that encode texts

A path is bytes. What has a meaning in it are slashes and dots, and the encoding of a text has
these where the text has them, as bytes of their own, and nowhere else. So it makes no difference
whether a text is cut into its components and then encoded or the other way around, and the same
goes for its extension and its source: `RawText.source_ofText` says that the source of a path
that encodes a text encodes the source of the text. Two such paths have the same components
exactly if the texts have (`RawText.same_ofText`).
-/

namespace SolidityLint.Path

open Segment (here up)
open RawText (encoded encoded_append encoded_cons encoded_singleton encoded_of_ascii
  encoded_eq_iff encoded_injective mem_encoded_iff)

variable {cs d : List Char} {name extension : Segment}

-- ── What has a meaning in a path ─────────────────────────────────────────────

theorem ascii_here : ∀ c ∈ here, c.toNat < 0x80 := by simp [here]

theorem ascii_up : ∀ c ∈ up, c.toNat < 0x80 := by simp [up]

theorem ascii_treeExtension : ∀ c ∈ treeExtension, c.toNat < 0x80 := by simp [treeExtension]

-- ── Components ───────────────────────────────────────────────────────────────

/-- Joined segments are encoded one by one, because the slash is one byte. -/
theorem encoded_join (segments : List Segment) :
    encoded (join segments) = join (segments.map encoded) := by
  induction segments with
  | nil => rfl
  | cons s rest ih =>
      cases rest with
      | nil => rfl
      | cons t rest =>
          have hslash : encoded ['/'] = ['/'] := encoded_singleton (by decide)
          rw [join, encoded_append, encoded_cons, hslash, ih]
          rfl

/-- The encoding of a text is cut where the text is. -/
theorem split_encoded (cs : List Char) : split (encoded cs) = (split cs).map encoded := by
  have hjoin : encoded cs = join ((split cs).map encoded) := by
    rw [← encoded_join, join_split]
  rw [hjoin]
  refine split_join ?_ ?_
  · intro hnil
    exact split_ne_nil cs (List.map_eq_nil_iff.mp hnil)
  · intro s hs
    obtain ⟨t, ht, rfl⟩ := List.mem_map.mp hs
    rw [mem_encoded_iff (by decide)]
    exact not_slash_mem_of_mem_split ht

/-- The component that names the encoding of what a component names. -/
def Component.encode : Component → Component
  | .name s => .name (encoded s)
  | c => c

theorem Component.encode_injective {c c' : Component} (h : c.encode = c'.encode) : c = c' := by
  cases c with
  | root | here | up => cases c' with
    | root | here | up | name => first | rfl | exact nomatch h
  | name s => cases c' with
    | root | here | up => exact nomatch h
    | name t => rw [encoded_injective (Component.name.inj h)]

/-- An encoded segment is a step of the same kind. -/
theorem ofSegment?_encoded (s : Segment) :
    Component.ofSegment? (encoded s) = (Component.ofSegment? s).map Component.encode := by
  have hnil : encoded s = [] ↔ s = [] := encoded_eq_iff (by simp)
  have hhere : encoded s = here ↔ s = here := encoded_eq_iff ascii_here
  have hup : encoded s = up ↔ s = up := encoded_eq_iff ascii_up
  simp only [Component.ofSegment?, hnil, hhere, hup]
  split
  · rfl
  · split
    · rfl
    · rfl

theorem steps_encoded (cs : List Char) :
    steps (encoded cs) = (steps cs).map Component.encode := by
  rw [steps, split_encoded, List.filterMap_map, steps, List.map_filterMap]
  exact List.filterMap_congr fun s _ => ofSegment?_encoded s

/-- The encoding of a text starts with a slash only if the text does. -/
theorem head_encoded_cons {c u : Char} {us : List Char} (hc : c ≠ '/')
    (h : encoded (c :: cs) = u :: us) : u ≠ '/' := by
  rintro rfl
  rw [encoded_cons] at h
  cases hone : encoded [c] with
  | nil => exact absurd ((encoded_eq_iff (by simp)).mp hone) (List.cons_ne_nil c [])
  | cons v vs =>
      rw [hone] at h
      obtain rfl := (List.cons.inj h).1
      have hmem : '/' ∈ [c] := (mem_encoded_iff (by decide)).mp (hone ▸ List.mem_cons_self)
      exact hc (List.mem_singleton.mp hmem).symm

/-- **The components of an encoded text are the encoded components of the text.** -/
theorem componentsOf_encoded (cs : List Char) :
    componentsOf (encoded cs) = (componentsOf cs).map Component.encode := by
  cases cs with
  | nil => rfl
  | cons c cs =>
      by_cases hc : c = '/'
      · subst hc
        have hslash : encoded ('/' :: cs) = '/' :: encoded cs := by
          rw [encoded_cons, encoded_singleton (by decide), List.singleton_append]
        rw [hslash, componentsOf_slash_cons, componentsOf_slash_cons, steps_encoded]
        rfl
      · have hhere : (split (encoded (c :: cs))).head? = some here
            ↔ (split (c :: cs)).head? = some here := by
          rw [split_encoded, List.head?_map]
          cases (split (c :: cs)).head? with
          | none => simp
          | some s =>
              rw [Option.map_some, Option.some_inj, Option.some_inj]
              exact encoded_eq_iff ascii_here
        have hsteps := steps_encoded (c :: cs)
        cases hencoded : encoded (c :: cs) with
        | nil => exact absurd ((encoded_eq_iff (by simp)).mp hencoded) (List.cons_ne_nil c cs)
        | cons u us =>
            rw [hencoded] at hhere hsteps
            rw [componentsOf_cons_of_ne (head_encoded_cons hc hencoded),
              componentsOf_cons_of_ne hc, List.map_append, hsteps]
            simp only [hhere]
            refine congrArg (· ++ _) ?_
            split
            · rfl
            · rfl

-- ── Names and extensions ─────────────────────────────────────────────────────

/-- The file name of an encoded path is the encoded file name. -/
theorem fileNameOf?_encoded (cs : List Char) :
    fileNameOf? (encoded cs) = (fileNameOf? cs).map encoded := by
  rw [fileNameOf?, componentsOf_encoded, List.getLast?_map, fileNameOf?]
  cases (componentsOf cs).getLast? with
  | none => rfl
  | some last => cases last with
    | root | here | up | name => rfl

/-- The encoding of a name is cut at the last dot of the name. -/
theorem splitExtension_encoded (name : Segment) :
    splitExtension (encoded name)
      = (encoded (splitExtension name).1, (splitExtension name).2.map encoded) := by
  by_cases hup : name = up
  · subst hup
    have hup : encoded up = up := encoded_of_ascii ascii_up
    rw [hup]
    exact Prod.ext hup.symm rfl
  by_cases hdot : '.' ∈ name
  · obtain ⟨stem, extension, hplain, rfl⟩ := exists_append_dot hdot
    have hencoded : encoded (stem ++ '.' :: extension)
        = encoded stem ++ '.' :: encoded extension := by
      rw [encoded_append, encoded_cons, encoded_singleton (by decide), List.singleton_append]
    have hup' : encoded stem ++ '.' :: encoded extension ≠ up := by
      rw [← hencoded]
      exact fun heq => hup ((encoded_eq_iff ascii_up).mp heq)
    have hplain' : '.' ∉ encoded extension := by
      rw [mem_encoded_iff (by decide)]
      exact hplain
    have hstem : encoded stem = [] ↔ stem = [] := encoded_eq_iff (by simp)
    rw [hencoded, splitExtension_append _ hplain' hup', splitExtension_append _ hplain hup]
    by_cases hnil : stem = []
    · rw [if_pos (hstem.mpr hnil), if_pos hnil, ← hencoded]
      rfl
    · rw [if_neg (fun heq => hnil (hstem.mp heq)), if_neg hnil]
      rfl
  · have hdot' : '.' ∉ encoded name := by
      rw [mem_encoded_iff (by decide)]
      exact hdot
    rw [splitExtension_of_not_mem hdot', splitExtension_of_not_mem hdot]
    rfl

theorem extensionOf?_encoded (cs : List Char) :
    extensionOf? (encoded cs) = (extensionOf? cs).map encoded := by
  rw [extensionOf?, fileNameOf?_encoded, extensionOf?]
  cases fileNameOf? cs with
  | none => rfl
  | some name =>
      show (splitExtension (encoded name)).2 = (splitExtension name).2.map encoded
      rw [splitExtension_encoded]

/-- A path has the extension of a syntax tree exactly if its encoding has. -/
theorem extensionOf?_encoded_eq_iff :
    extensionOf? (encoded cs) = some treeExtension ↔ extensionOf? cs = some treeExtension := by
  rw [extensionOf?_encoded]
  cases extensionOf? cs with
  | none => simp
  | some extension =>
      rw [Option.map_some, Option.some_inj, Option.some_inj]
      exact encoded_eq_iff ascii_treeExtension

-- ── The two cuts ─────────────────────────────────────────────────────────────

/-- A directory text stays one when it is encoded. -/
theorem IsDirectory.encoded (h : IsDirectory d) : IsDirectory (encoded d) := by
  rcases h with rfl | ⟨d', rfl⟩
  · exact .inl rfl
  · refine .inr ⟨RawText.encoded d', ?_⟩
    rw [encoded_append, encoded_singleton (by decide)]

theorem IsName.encoded (h : IsName name) : IsName (encoded name) where
  ne_nil heq := h.ne_nil ((encoded_eq_iff (by simp)).mp heq)
  ne_here heq := h.ne_here ((encoded_eq_iff ascii_here).mp heq)
  ne_up heq := h.ne_up ((encoded_eq_iff ascii_up).mp heq)
  no_slash hmem := h.no_slash ((mem_encoded_iff (by decide)).mp hmem)

/-- What may trail a file name, slashes and dots, is encoded as it stands. -/
theorem Trail.ascii {t : List Char} (h : Trail t) : ∀ c ∈ t, c.toNat < 0x80 := by
  induction h with
  | nil => simp
  | slash _ ih => exact List.forall_mem_cons.mpr ⟨by decide, ih⟩
  | here _ ih =>
      exact List.forall_mem_cons.mpr ⟨by decide, List.forall_mem_cons.mpr ⟨by decide, ih⟩⟩

/-- Cutting after the stem of a file name can be done before or after encoding. -/
theorem cutAfterStem_encoded (cs : List Char) :
    cutAfterStem (encoded cs) = encoded (cutAfterStem cs) := by
  cases hname : fileNameOf? cs with
  | none =>
      have hname' : fileNameOf? (encoded cs) = none := by rw [fileNameOf?_encoded, hname]; rfl
      rw [cutAfterStem, hname', cutAfterStem, hname]
  | some name =>
      obtain ⟨d, trail, hd, hisName, htrail, rfl⟩ := fileNameOf?_eq_some_iff.mp hname
      rw [cutAfterStem_append hd hisName htrail, encoded_append, encoded_append, encoded_append,
        encoded_of_ascii htrail.ascii, cutAfterStem_append hd.encoded hisName.encoded htrail,
        splitExtension_encoded]

/-- What is cut off the end of a text is cut off its encoding, if it is of the ASCII range. -/
theorem take_encoded {tail : List Char} (htail : ∀ c ∈ tail, c.toNat < 0x80) {n : Nat}
    (hn : n ≤ tail.length) :
    (encoded (cs ++ tail)).take ((encoded (cs ++ tail)).length - n)
      = encoded ((cs ++ tail).take ((cs ++ tail).length - n)) := by
  have hkept : ∀ {xs : List Char},
      (xs ++ tail).take ((xs ++ tail).length - n) = xs ++ tail.take (tail.length - n) := by
    intro xs
    have hlength : (xs ++ tail).length - n = xs.length + (tail.length - n) := by
      rw [List.length_append]
      omega
    rw [hlength, List.take_length_add_append]
  have hascii : ∀ c ∈ tail.take (tail.length - n), c.toNat < 0x80 := by
    intro c hc
    exact htail c (List.mem_of_mem_take hc)
  rw [encoded_append, encoded_of_ascii htail, hkept, hkept, encoded_append,
    encoded_of_ascii hascii]

/-- **The source of an encoded text is the encoded source of the text.** -/
theorem sourceOfChars_encoded (cs : List Char) :
    sourceOfChars (encoded cs) = encoded (sourceOfChars cs) := by
  by_cases hextension : extensionOf? cs = some treeExtension
  · rw [sourceOfChars, if_pos (extensionOf?_encoded_eq_iff.mpr hextension), sourceOfChars,
      if_pos hextension, ← cutAfterStem_encoded]
    -- what the first cut takes away is part of the extension and what trails it
    obtain ⟨name, ⟨d, trail, -, -, htrail, rfl⟩, stem, -, -, rfl⟩ :=
      extensionOf?_eq_some_iff.mp hextension
    have htail : ∀ c ∈ treeExtension ++ trail, c.toNat < 0x80 :=
      List.forall_mem_append.mpr ⟨ascii_treeExtension, htrail.ascii⟩
    have hlength : treeExtension.length ≤ (treeExtension ++ trail).length := by
      rw [List.length_append]
      exact Nat.le_add_right ..
    have hsplit : d ++ (stem ++ '.' :: treeExtension) ++ trail
        = (d ++ stem ++ ['.']) ++ (treeExtension ++ trail) := by simp
    rw [hsplit, take_encoded htail hlength]
  · rw [sourceOfChars, if_neg (fun h => hextension (extensionOf?_encoded_eq_iff.mp h)),
      sourceOfChars, if_neg hextension]

end SolidityLint.Path

namespace SolidityLint.RawText

/-- **The source of a path that is a text** is the source of the text. -/
theorem source_ofText (s : String) : (ofText s).source = ofText (Path.sourceOf s) := by
  rw [source, units_ofText, Path.sourceOfChars_encoded, ofUnits_encoded, Path.sourceOf]

/-- The source of a text path is shown as the source of the text. -/
theorem display_source_ofText (s : String) : (ofText s).source.display = Path.sourceOf s := by
  rw [source_ofText, display_ofText]

/-- Whether two paths have the same components. -/
def same (p q : RawText) : Bool := Path.componentsOf p.units == Path.componentsOf q.units

/-- Two texts have the same components exactly if their encodings have. -/
theorem same_ofText (s t : String) : same (ofText s) (ofText t) = Path.same s t := by
  rw [same, units_ofText, units_ofText, Path.componentsOf_encoded, Path.componentsOf_encoded]
  rw [Bool.eq_iff_iff, beq_iff_eq, Path.same, beq_iff_eq]
  constructor
  · intro h
    exact List.map_injective_iff.mpr (fun _ _ => Path.Component.encode_injective) h
  · intro h
    exact congrArg (List.map Path.Component.encode) h

end SolidityLint.RawText
