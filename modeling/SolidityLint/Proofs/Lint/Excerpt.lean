import SolidityLint.Proofs.Lint.Traversal
import SolidityLint.Proofs.Report.ByteRange
import SolidityLint.Proofs.Rule.Builtin
import SolidityLint.Proofs.Tree.Objects

/-!
# From the range of an object to the excerpt of its source

A parser gives the range of an object by its first and its last character. On the way to
the excerpt that a diagnostic shows, the range becomes a start and a length in the node, is
copied into the location of every violation on that node, and is turned into bytes when the
source is at hand. Columns count from zero in the object and from one in the location, and
a length of zero stands for a range that is not known.

The three stages meet here: what a node that carries an object says about its place
(`Carries.location_eq` and its neighbours), what a diagnostic makes of a location
(`Diagnostic.ofViolation_shows`), and which object a violation is about.
-/

namespace SolidityLint

open Json (Value)

-- ── Which object a violation is about ────────────────────────────────────────

/-- Whatever is reported on a node is located at that node, in the file of the job. -/
theorem RuleSet.location_of_mem_reportsOn {g : Registry} {job : Job} {s : RuleSet}
    (hs : g.instantiate job = .ok s) {t : Tree} {i : Nat} {n : Node} (hn : t.get? i = some n)
    {w : Violation} (hw : w ∈ s.reportsOn t i) : w.location = Location.ofNode job.fileName n := by
  obtain ⟨-, rfl⟩ := Registry.instantiate_eq_ok_iff.mp hs
  obtain ⟨hi, rfl⟩ := Array.getElem?_eq_some_iff.mp hn
  rw [RuleSet.reportsOn, Tree.focus?_of_lt hi] at hw
  exact RuleSet.location_of_mem_dispatch hw

-- ── Where an object stands ───────────────────────────────────────────────────

section Carries

variable {ms : List (String × Value)} {n : Node} {line column first last : UInt64}

theorem StartsAt.unique {line' column' : UInt64} (h : StartsAt ms line column)
    (h' : StartsAt ms line' column') : line = line' ∧ column = column' := by
  have heq := (Import.start?_eq_some_iff.mpr h).symm.trans (Import.start?_eq_some_iff.mpr h')
  exact Prod.mk.inj (Option.some.inj heq)

theorem Ranges.unique {first' last' : UInt64} (h : Ranges ms first last)
    (h' : Ranges ms first' last') : first = first' ∧ last = last' := by
  have heq := (Import.range?_eq_some_iff.mpr h).symm.trans (Import.range?_eq_some_iff.mpr h')
  exact Prod.mk.inj (Option.some.inj heq)

/-- A location says the same as an object about its place: columns count from one, and the
    run of characters is given by its length. -/
structure Location.Agrees (l : Location) (line column first last : UInt64) : Prop where
  line_eq : l.line = line
  column_eq : l.column.toNat = column.toNat + 1
  offset_eq : l.offset = first
  length_eq : l.length.toNat = last.toNat - first.toNat + 1

/-- The location of a node agrees with the start and the range of its object. -/
theorem Carries.location_eq (h : Carries ms n) (file : String) (hat : StartsAt ms line column)
    (hr : Ranges ms first last) (hle : first ≤ last) :
    (Location.ofNode file n).Agrees line column first last := by
  have hspan := h.span
  rw [Location.ofNode]
  cases hs : n.span with
  | none =>
      rw [hs] at hspan
      exact absurd hat (hspan line column)
  | some s =>
      rw [hs] at hspan
      obtain ⟨column', hat', hcolumn, hextent⟩ := hspan
      obtain ⟨hline, rfl⟩ := hat'.unique hat
      rcases hextent with ⟨last', hr', -, hlength⟩ | ⟨hno, -, -⟩
      · obtain ⟨hfirst, rfl⟩ := hr'.unique hr
        exact ⟨hline, hcolumn, hfirst, hfirst ▸ hlength⟩
      · exact absurd hle (hno first last hr)

/-- Without a start, or without a range that is in order, the location has no length. -/
theorem Carries.length_eq_zero (h : Carries ms n) (file : String)
    (hno : (¬ ∃ line column, StartsAt ms line column) ∨
      ¬ ∃ first last, Ranges ms first last ∧ first ≤ last) :
    (Location.ofNode file n).length = 0 := by
  have hspan := h.span
  rw [Location.ofNode]
  cases hs : n.span with
  | none => rfl
  | some s =>
      rw [hs] at hspan
      obtain ⟨column, hat, -, hextent⟩ := hspan
      rcases hno with hno | hno
      · exact absurd ⟨s.line, column, hat⟩ hno
      · rcases hextent with ⟨last, hr, hle, -⟩ | ⟨-, -, hlength⟩
        · exact absurd ⟨s.offset, last, hr, hle⟩ hno
        · exact hlength

/-- Columns are counted from one, so that column 0 tells that there was no start. -/
theorem Carries.column_eq_zero_iff (h : Carries ms n) (file : String) :
    (Location.ofNode file n).column = 0 ↔ ¬ ∃ line column, StartsAt ms line column := by
  have hspan := h.span
  rw [Location.ofNode]
  cases hs : n.span with
  | none =>
      rw [hs] at hspan
      refine ⟨fun _ => ?_, fun _ => rfl⟩
      rintro ⟨line, column, hat⟩
      exact hspan line column hat
  | some s =>
      rw [hs] at hspan
      obtain ⟨column, hat, hcolumn, -⟩ := hspan
      constructor
      · intro hzero
        have hnat : s.column.toNat = 0 := by
          rw [show s.column = 0 from hzero]
          rfl
        omega
      · intro hno
        exact absurd ⟨s.line, column, hat⟩ hno

end Carries

-- ── What a diagnostic shows ──────────────────────────────────────────────────

namespace Diagnostic

variable {v : Violation}

/-- The marked bytes lie within the text, start and end between characters, and encode the
    characters from `first` to `last`, both included. -/
structure Shows (d : Diagnostic) (text : String) (first last : Nat) : Prop where
  le_size : d.offset + d.length ≤ text.utf8ByteSize
  start_isValid : String.Pos.Raw.IsValid text ⟨d.offset⟩
  stop_isValid : String.Pos.Raw.IsValid text ⟨d.offset + d.length⟩
  bytes_eq : text.toByteArray.extract d.offset (d.offset + d.length)
    = ((text.toList.drop first).take (last + 1 - first)).utf8Encode

theorem source_of_length_zero (h : v.location.length = 0) (source : Option String) :
    (ofViolation v source).source = none := by
  cases source with
  | none => rfl
  | some text => simp [ofViolation, h]

/-- Without an excerpt the run of characters is left as it is. -/
theorem eq_of_source_none {source : Option String} (h : (ofViolation v source).source = none) :
    (ofViolation v source).offset = v.location.offset.toNat ∧
      (ofViolation v source).length = v.location.length.toNat := by
  revert h
  rw [ofViolation]
  split
  · intro h
    exact nomatch h
  · intro _
    exact ⟨rfl, rfl⟩

/-- With a text at hand a violation is shown in bytes of it if its range ends within, and else as
    it was recorded and without the text. -/
theorem ofViolation_some (h : v.location.length ≠ 0) (text : String) :
    ofViolation v (some text)
      = if v.location.offset.toNat + v.location.length.toNat ≤ text.length then
          ⟨"[" ++ v.rule ++ "] " ++ v.message, v.nodeType,
            (text.toList.take v.location.offset.toNat).utf8Encode.size,
            ((text.toList.drop v.location.offset.toNat).take
              v.location.length.toNat).utf8Encode.size, some v.location.file, some text⟩
        else
          ⟨"[" ++ v.rule ++ "] " ++ v.message, v.nodeType, v.location.offset.toNat,
            v.location.length.toNat, none, none⟩ := by
  rw [ofViolation, Option.bind_some, if_neg h, byteRange?_eq]
  by_cases hfits : v.location.offset.toNat + v.location.length.toNat ≤ text.length
  · rw [if_pos hfits, if_pos hfits]
  · rw [if_neg hfits, if_neg hfits]

/-- **A range is shown exactly if it ends within the text, and then as the same characters.** -/
theorem ofViolation_shows {line column first last : UInt64} (hle : first ≤ last)
    (h : v.location.Agrees line column first last) (text : String) :
    (ofViolation v (some text)).source
        = (if last.toNat < text.length then some v.location.file else none) ∧
      (ofViolation v (some text)).text = (if last.toNat < text.length then some text else none) ∧
      (last.toNat < text.length →
        (ofViolation v (some text)).Shows text first.toNat last.toNat) := by
  have hle' : first.toNat ≤ last.toNat := hle
  have hoffset : v.location.offset.toNat = first.toNat := congrArg UInt64.toNat h.offset_eq
  have hlength : v.location.length.toNat = last.toNat + 1 - first.toNat := by
    have hlen := h.length_eq
    omega
  have hpos : v.location.length ≠ 0 := by
    intro hzero
    rw [hzero] at hlength
    have hzero' : (0 : UInt64).toNat = 0 := rfl
    omega
  have hfits : v.location.offset.toNat + v.location.length.toNat ≤ text.length
      ↔ last.toNat < text.length := by
    omega
  rw [ofViolation_some hpos, hoffset, hlength]
  rw [hoffset, hlength] at hfits
  by_cases hlast : last.toNat < text.length
  · rw [if_pos (hfits.mpr hlast), if_pos hlast, if_pos hlast]
    refine ⟨rfl, rfl, fun _ => ?_⟩
    have hrun := encodesRun_size text first.toNat (last.toNat + 1 - first.toNat)
    exact ⟨hrun.le_size, hrun.start_isValid, hrun.stop_isValid, hrun.bytes_eq⟩
  · rw [if_neg (fun hle => hlast (hfits.mp hle)), if_neg hlast, if_neg hlast]
    exact ⟨rfl, rfl, fun hlt => absurd hlt hlast⟩

end Diagnostic

/-- **A range reaches the reader as the same characters.** Linting an imported tree finds
    what the rules record on its nodes, which stand for the typed objects of the value one
    by one. Let a violation be recorded on the node of an object. If the object says where it
    starts and gives a range that does not run backwards, the violation is located there; its
    diagnostic shows a source if and only if the range ends within it, and then that source and
    in it exactly the characters of the range, and without a source it marks the range as it is.
    If the object does not, the length is zero, and no source is ever shown. The column is zero
    if and only if the object does not say where it starts. -/
theorem lintTree_shows_ranges {v : Value} {t : Tree} (h : Tree.ofValue v = .ok t)
    {g : Registry} {job : Job} {s : RuleSet} (hs : g.instantiate job = .ok s) :
    lintTree g job t = .ok ⟨(List.range t.size).flatMap (s.reportsOn t), 1⟩ ∧
      t.size = (typedObjects v).length ∧
      ∀ i ms, (typedObjects v)[i]? = some ms → ∀ w ∈ s.reportsOn t i,
        (∀ line column first last, StartsAt ms line column → Ranges ms first last →
          first ≤ last → w.location.Agrees line column first last ∧
            (∀ text, (Diagnostic.ofViolation w (some text)).source
                = (if last.toNat < text.length then some job.fileName else none) ∧
              (Diagnostic.ofViolation w (some text)).text
                = (if last.toNat < text.length then some text else none) ∧
              (last.toNat < text.length →
                (Diagnostic.ofViolation w (some text)).Shows text first.toNat last.toNat)) ∧
            ∀ source, (Diagnostic.ofViolation w source).source = none →
              (Diagnostic.ofViolation w source).offset = first.toNat ∧
                (Diagnostic.ofViolation w source).length = last.toNat - first.toNat + 1) ∧
        ((¬ ∃ line column, StartsAt ms line column) ∨
            (¬ ∃ first last, Ranges ms first last ∧ first ≤ last) →
          w.location.length = 0 ∧
            ∀ source, (Diagnostic.ofViolation w source).source = none) ∧
        (w.location.column = 0 ↔ ¬ ∃ line column, StartsAt ms line column) := by
  obtain ⟨hsize, hcarries⟩ := Tree.exists_carries_of_ofValue h
  obtain ⟨-, -, hwalk⟩ := Tree.walk_of_ofValue h
  refine ⟨?_, hsize, ?_⟩
  · rw [lintTree_eq, hs, ← hwalk, ← RuleSet.walk]
    rfl
  intro i ms hms w hw
  obtain ⟨n, hn, hcarries⟩ := hcarries hms
  -- all that follows is about the location, which is that of the node
  have hlocation := RuleSet.location_of_mem_reportsOn hs hn hw
  refine ⟨?_, ?_, ?_⟩
  · intro line column first last hat hr hle
    have hagrees : w.location.Agrees line column first last :=
      hlocation ▸ hcarries.location_eq job.fileName hat hr hle
    refine ⟨hagrees, fun text => ?_, fun source hsource => ?_⟩
    · have hfile : w.location.file = job.fileName := by rw [hlocation, Location.file_ofNode]
      rw [← hfile]
      exact Diagnostic.ofViolation_shows hle hagrees text
    · obtain ⟨hoffset, hlength⟩ := Diagnostic.eq_of_source_none hsource
      exact ⟨by rw [hoffset, hagrees.offset_eq], by rw [hlength, hagrees.length_eq]⟩
  · intro hno
    have hzero : w.location.length = 0 :=
      hlocation ▸ hcarries.length_eq_zero job.fileName hno
    exact ⟨hzero, fun source => Diagnostic.source_of_length_zero hzero source⟩
  · rw [hlocation]
    exact hcarries.column_eq_zero_iff job.fileName

/-- The library function is reported from its tenth to its nineteenth character, and shown in
    every text that has twenty. -/
theorem lintTree_shows_ranges_libraryValue :
    ∃ t s, Tree.ofValue Tree.libraryValue = .ok t ∧
      Registry.builtin.instantiate { fileName := "a.sol" } = .ok s ∧
      ∃ w ∈ s.reportsOn t 2, w.location = ⟨"a.sol", 3, 5, 10, 10⟩ ∧
        ∀ text, 19 < text.length →
          (Diagnostic.ofViolation w (some text)).source = some "a.sol" ∧
            (Diagnostic.ofViolation w (some text)).text = some text ∧
            (Diagnostic.ofViolation w (some text)).Shows text 10 19 := by
  obtain ⟨-, -, hobjects⟩ := lintTree_shows_ranges (v := Tree.libraryValue) rfl
    (Registry.instantiate_builtin { fileName := "a.sol" })
  refine ⟨_, _, rfl, Registry.instantiate_builtin _,
    ⟨LeadingUnderscore.id, "FunctionDefinition", ⟨"a.sol", 3, 5, 10, 10⟩,
      LeadingUnderscore.onLibraryFunction⟩, ?reported, rfl, fun text htext => ?shown⟩
  case reported => decide +kernel
  case shown =>
    obtain ⟨-, hshown, -⟩ := (hobjects 2 _ rfl _ (List.mem_singleton.mpr rfl)).1 3 4 10 19
      ⟨_, _, rfl, rfl, rfl, rfl⟩ ⟨[], rfl⟩ (by decide)
    obtain ⟨hsource, hattached, hshows⟩ := hshown text
    exact ⟨hsource.trans (if_pos htext), hattached.trans (if_pos htext), hshows htext⟩

end SolidityLint
