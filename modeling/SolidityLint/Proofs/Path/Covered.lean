import SolidityLint.Proofs.Path.Normal
import SolidityLint.Rule.Instance

/-!
# Which files are left alone

Whether a file is left alone is decided on its resolved path. What that comes to for the
path as it was written can be said without a stack: read from the end, every `..` waits for
the nearest name in front of it that no other `..` has taken, and what is left in the end are
the names that were not taken and the `..` that still wait (`Remainder`).

Reading from the end is one more way of simplifying the segments (`reduces_remainder`), and
all ways lead to the same end, so the two agree (`resolve_eq_remainder`). A pattern accepts a
resolved path exactly when it matches the text of it (`accepts_iff_matches_text`), since a
normal path is found again in its text.
-/

namespace SolidityLint

namespace Path

open Segment (here up)

-- ── Reading segments from the end ────────────────────────────────────────────

/-- What is left of the segments of a relative path: a number of `..` without a name to
    cancel, and behind them names without a `..` that cancels them. -/
structure Remainder where
  ups : Nat
  names : List Segment
  deriving DecidableEq, Repr

namespace Remainder

/-- What is left with one more segment in front. A name is cancelled if a `..` waits for one. -/
def prepend (s : Segment) (r : Remainder) : Remainder :=
  if s = here then r
  else if s = up then ⟨r.ups + 1, r.names⟩
  else
    match r.ups with
    | 0 => ⟨0, s :: r.names⟩
    | ups + 1 => ⟨ups, r.names⟩

/-- What is left, as a list of segments. -/
def segments (r : Remainder) : List Segment := List.replicate r.ups up ++ r.names

theorem prepend_here (r : Remainder) : r.prepend here = r := if_pos rfl

theorem prepend_up (r : Remainder) : r.prepend up = ⟨r.ups + 1, r.names⟩ := rfl

/-- A name is left if no `..` waits for it. -/
theorem prepend_name_zero {s : Segment} (hhere : s ≠ here) (hup : s ≠ up) (names : List Segment) :
    prepend s ⟨0, names⟩ = ⟨0, s :: names⟩ := by
  rw [prepend, if_neg hhere, if_neg hup]

/-- If one does, both are gone. -/
theorem prepend_name_succ {s : Segment} (hhere : s ≠ here) (hup : s ≠ up) (ups : Nat)
    (names : List Segment) : prepend s ⟨ups + 1, names⟩ = ⟨ups, names⟩ := by
  rw [prepend, if_neg hhere, if_neg hup]

/-- No segment `.` or `..` is left among the names. -/
theorem names_prepend {r : Remainder} (h : ∀ t ∈ r.names, t ≠ here ∧ t ≠ up) (s : Segment) :
    ∀ t ∈ (r.prepend s).names, t ≠ here ∧ t ≠ up := by
  by_cases hhere : s = here
  · rw [hhere, prepend_here]
    exact h
  by_cases hup : s = up
  · rw [hup, prepend_up]
    exact h
  obtain ⟨ups, names⟩ := r
  cases ups with
  | zero =>
      rw [prepend_name_zero hhere hup]
      exact List.forall_mem_cons.mpr ⟨⟨hhere, hup⟩, h⟩
  | succ ups =>
      rw [prepend_name_succ hhere hup]
      exact h

end Remainder

/-- What is left of the segments of a relative path, read from the end. -/
def remainder (segments : List Segment) : Remainder :=
  segments.foldr Remainder.prepend ⟨0, []⟩

/-- A step in a relative path is a step behind any further segment. This fails at the root, where
    a `..` may go only in front. -/
theorem Step.cons {segments segments' : List Segment} (h : Step false segments segments')
    (s : Segment) : Step false (s :: segments) (s :: segments') := by
  cases h with
  | here before after => exact .here (s :: before) after
  | cancel before hhere hup after => exact .cancel (s :: before) hhere hup after
  | root habsolute => exact nomatch habsolute

/-- A segment in front takes at most one step to find its place. -/
theorem reduces_prepend (s : Segment) (r : Remainder) :
    Reduces false (s :: r.segments) (r.prepend s).segments := by
  by_cases hhere : s = here
  · rw [hhere, Remainder.prepend_here]
    exact .single (.here [] r.segments)
  by_cases hup : s = up
  · rw [hup, Remainder.prepend_up]
    exact .refl
  obtain ⟨ups, names⟩ := r
  cases ups with
  | zero =>
      rw [Remainder.prepend_name_zero hhere hup]
      exact .refl
  | succ ups =>
      rw [Remainder.prepend_name_succ hhere hup]
      exact .single (.cancel [] hhere hup (List.replicate ups up ++ names))

/-- **A list of segments reduces to what is left of it when it is read from the end.** -/
theorem reduces_remainder (segments : List Segment) :
    Reduces false segments (remainder segments).segments := by
  induction segments with
  | nil => exact .refl
  | cons s rest ih =>
      have hrest : Reduces false (s :: rest) (s :: (remainder rest).segments) :=
        ih.lift (s :: ·) fun _ _ hstep => hstep.cons s
      exact hrest.trans (reduces_prepend s (remainder rest))

/-- What is left are names: no `.` and no `..` is among them. -/
theorem names_remainder (segments : List Segment) :
    ∀ s ∈ (remainder segments).names, s ≠ here ∧ s ≠ up := by
  induction segments with
  | nil => exact nofun
  | cons s rest ih => exact Remainder.names_prepend ih s

/-- Reading from the end finds what the pass from the front finds. -/
theorem resolve_eq_remainder {segments : List Segment} (h : ∀ s ∈ segments, s ≠ []) :
    resolve false segments = (remainder segments).segments := by
  have hirreducible : Irreducible false (remainder segments).segments :=
    irreducible_append nofun (names_remainder segments)
  exact (eq_resolve_of_irreducible (reduces_remainder segments) hirreducible h).symm

/-- A relative path resolves to what is left of its segments. -/
theorem ofText_of_relative {p : String} (h : isRooted p = false) :
    Resolved.ofText p = ⟨false, (remainder (segmentsOf p)).segments⟩ := by
  rw [ofText_eq, h, resolve_eq_remainder fun s hs => ne_nil_of_mem_segmentsOf hs]

end Path

-- ── Patterns and texts ───────────────────────────────────────────────────────

namespace Pattern

variable {p : Pattern} {r : Path.Resolved}

/-- A text matches a pattern: it is the directory and one or more segments below it, none of
    which starts with a dot, with a slash in front of each. -/
def Matches (p : Pattern) (text : String) : Prop :=
  ∃ names : List Path.Segment, names ≠ [] ∧ (∀ s ∈ names, '/' ∉ s ∧ s.head? ≠ some '.') ∧
    text.toList = Path.join (p.directory :: names)

theorem isHidden_eq_true_iff {s : Path.Segment} : isHidden s = true ↔ s.head? = some '.' := by
  rw [isHidden.eq_def]
  split
  · exact ⟨fun _ => rfl, fun _ => rfl⟩
  · next hdot =>
    refine ⟨nofun, fun h => ?_⟩
    obtain ⟨cs, rfl⟩ := List.head?_eq_some_iff.mp h
    exact absurd rfl (hdot cs)

/-- No name is hidden just if none starts with a dot. -/
theorem all_not_isHidden_iff {names : List Path.Segment} :
    (names.all fun s => !isHidden s) = true ↔ ∀ s ∈ names, s.head? ≠ some '.' := by
  rw [List.all_eq_true]
  refine forall₂_congr fun s _ => ?_
  rw [Bool.not_eq_true', ← Bool.not_eq_true, isHidden_eq_true_iff]

/-- A pattern accepts a relative path into its directory, at any depth, past no hidden name. -/
theorem accepts_eq_true_iff :
    p.accepts r = true ↔ r.absolute = false ∧ ∃ names, r.segments = p.directory :: names ∧
      names ≠ [] ∧ ∀ s ∈ names, s.head? ≠ some '.' := by
  rw [accepts, Bool.and_eq_true, Bool.not_eq_true']
  refine and_congr_right fun _ => ?_
  split
  · next first second rest hsegments =>
    rw [hsegments, Bool.and_eq_true, beq_iff_eq, all_not_isHidden_iff]
    constructor
    · rintro ⟨rfl, hnames⟩
      exact ⟨second :: rest, rfl, List.cons_ne_nil second rest, hnames⟩
    · rintro ⟨names, heq, -, hnames⟩
      obtain ⟨rfl, rfl⟩ := List.cons.inj heq
      exact ⟨rfl, hnames⟩
  · next hfew =>
    refine ⟨nofun, ?_⟩
    rintro ⟨names, heq, hne, -⟩
    cases names with
    | nil => exact absurd rfl hne
    | cons second rest => exact absurd heq (hfew p.directory second rest)

/-- A pattern for a plain directory accepts a normal path exactly when it matches its text. -/
theorem accepts_iff_matches_text (hslash : '/' ∉ p.directory) (hdir : p.directory ≠ [])
    (hr : r.IsNormal) : p.accepts r = true ↔ p.Matches r.text := by
  rw [accepts_eq_true_iff]
  constructor
  · rintro ⟨habsolute, names, hsegments, hne, hnames⟩
    refine ⟨names, hne, fun s hs => ⟨(hr.plain s ?_).1, hnames s hs⟩, ?_⟩
    · rw [hsegments]
      exact List.mem_cons_of_mem p.directory hs
    · rw [Path.Resolved.text, habsolute, hsegments, String.toList_ofList]
      rfl
  · rintro ⟨names, hne, hnames, htext⟩
    have hsplit : Path.split r.text.toList = p.directory :: names := by
      rw [htext]
      refine Path.split_join (List.cons_ne_nil p.directory names) ?_
      exact List.forall_mem_cons.mpr ⟨hslash, fun s hs => (hnames s hs).1⟩
    have hsegments : r.segments ≠ [] := by
      -- the text of nothing is `/` or `.`, and neither has a directory with something below it
      intro hnil
      rw [Path.Resolved.IsNormal.text_of_segments_nil hnil] at hsplit
      cases hroot : r.absolute with
      | true =>
          rw [hroot] at hsplit
          exact hdir (List.cons.inj hsplit).1.symm
      | false =>
          rw [hroot] at hsplit
          exact hne (List.cons.inj hsplit).2.symm
    rw [hr.split_text hsegments] at hsplit
    cases hroot : r.absolute with
    | true =>
        rw [hroot] at hsplit
        exact absurd (List.cons.inj hsplit).1.symm hdir
    | false =>
        rw [hroot] at hsplit
        exact ⟨rfl, names, hsplit, hne, fun s hs => (hnames s hs).2⟩

end Pattern

namespace Ignore

open SolidityLint.Path (isRooted segmentsOf remainder normalize)

/-- A file is left alone if the one pattern there is accepts its resolved path. -/
theorem covers_eq_accepts (file : String) :
    covers file = (Pattern.mk "test".toList).accepts (Path.Resolved.ofText file) :=
  Bool.or_false _

/-- What is left of a path is `test` and further segments only if no `..` is left over. -/
theorem remainder_eq_of_segments {r : Path.Remainder} {names : List Path.Segment}
    (h : r.segments = "test".toList :: names) : r = ⟨0, "test".toList :: names⟩ := by
  obtain ⟨ups, kept⟩ := r
  cases ups with
  | zero =>
      obtain rfl : kept = "test".toList :: names := h
      rfl
  | succ ups =>
      have hup : Path.Segment.up = "test".toList := (List.cons.inj h).1
      exact absurd hup (by decide)

/-- **The decision to leave a file alone is exact.** A file is left alone if and only if its
    path is relative and what is left of it, once every `.` is dropped and every `..` has
    cancelled the nearest name before it that was not cancelled yet, is `test` and one or
    more names that do not start with a dot, without a `..` left over. This is to say that a
    pattern matches the text of its normal form. So all relative spellings of which the same
    is left are treated alike by every rule. -/
theorem covers_iff_remainder (file : String) :
    (covers file = true ↔ isRooted file = false ∧ ∃ names,
        remainder (segmentsOf file) = ⟨0, "test".toList :: names⟩ ∧ names ≠ [] ∧
          ∀ s ∈ names, s.head? ≠ some '.') ∧
      (covers file = true ↔ ∃ p ∈ patterns, p.Matches (normalize file)) ∧
      ∀ file', isRooted file = false → isRooted file' = false →
        remainder (segmentsOf file') = remainder (segmentsOf file) →
          ∀ d : Descriptor, d.ignores file' = d.ignores file := by
  refine ⟨?_, ?_, ?_⟩
  · rw [covers_eq_accepts, Pattern.accepts_eq_true_iff]
    refine and_congr_right fun hrooted => ?_
    rw [Path.ofText_of_relative hrooted]
    refine exists_congr fun names => and_congr_left fun _ => ⟨remainder_eq_of_segments, ?_⟩
    intro h
    show (remainder (segmentsOf file)).segments = _
    rw [h]
    rfl
  · rw [covers_eq_accepts, Pattern.accepts_iff_matches_text (by decide) (by decide)
      (Path.isNormal_ofText file)]
    exact ⟨fun h => ⟨_, List.mem_singleton_self _, h⟩,
      fun ⟨p, hp, h⟩ => List.mem_singleton.mp hp ▸ h⟩
  · intro file' hfile hfile' hsame d
    have hcovers : covers file' = covers file := by
      rw [covers_eq_accepts, covers_eq_accepts, Path.ofText_of_relative hfile,
        Path.ofText_of_relative hfile', hsame]
    rw [Descriptor.ignores, Descriptor.ignores, hcovers]

-- the second `..` has only `a` left to cancel; a hidden entry is not below its directory
example : covers "a/b/..\\..//test/./x" = true ∧ covers "test/.git/x" = false ∧
    covers "a/../../test/x" = false := by decide +kernel

end Ignore

end SolidityLint
