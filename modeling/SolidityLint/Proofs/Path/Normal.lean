import Mathlib.Logic.Relation
import SolidityLint.Path.Normal
import SolidityLint.Proofs.Path.Segment

/-!
# The lexical normal form is unique

The segments of a path can be simplified one step at a time, anywhere in the list: a `.`
goes, a name goes together with the `..` behind it, and at the root a `..` goes (`Step`).
Different orders of steps lead to the same end, and it is the one that `resolve` finds in
one pass.

The pass keeps a stack, and `Settled` is its invariant: names on top of a run of `..`, and
no run at all below the root. Two facts about a single segment carry the rest. Putting a
segment on the stack is a reduction of the list at hand (`reduces_keep`), so every list
reduces to what the pass makes of it. And no step changes what the pass makes of a list
(`resolve_eq_of_step`). So a list that no step applies to and that was reached by any steps
whatever is what the pass makes of it, which is what it makes of the list at the start.
-/

namespace SolidityLint.Path

open Segment (here up)

variable {absolute : Bool} {kept segments : List Segment}

/-- The segments of a path that are not empty. -/
def segmentsOf (p : String) : List Segment :=
  (split (unify p.toList)).filter fun s => decide (s ≠ [])

/-- Whether a path starts at the root. -/
def isRooted (p : String) : Bool := isAbsolute (unify p.toList)

/-- One step in simplifying the segments of a path. -/
inductive Step (absolute : Bool) : List Segment → List Segment → Prop where
  | here (before after : List Segment) :
      Step absolute (before ++ here :: after) (before ++ after)
  | cancel (before : List Segment) {name : Segment} (hhere : name ≠ here) (hup : name ≠ up)
      (after : List Segment) : Step absolute (before ++ name :: up :: after) (before ++ after)
  | root (h : absolute = true) (after : List Segment) : Step absolute (up :: after) after

/-- Any number of steps. -/
abbrev Reduces (absolute : Bool) : List Segment → List Segment → Prop :=
  Relation.ReflTransGen (Step absolute)

/-- No step applies. -/
def Irreducible (absolute : Bool) (segments : List Segment) : Prop :=
  ∀ segments', ¬ Step absolute segments segments'

/-- A list that no step applies to reduces to itself only. -/
theorem Irreducible.eq_of_reduces {segments' : List Segment} (h : Irreducible absolute segments)
    (hred : Reduces absolute segments segments') : segments' = segments := by
  rcases hred.cases_head with heq | ⟨next, hstep, -⟩
  · exact heq.symm
  · exact absurd hstep (h next)

-- ── The stack ────────────────────────────────────────────────────────────────

theorem keep_nil (absolute : Bool) (kept : List Segment) : keep absolute kept [] = kept :=
  if_pos (.inl rfl)

theorem keep_here (absolute : Bool) (kept : List Segment) : keep absolute kept here = kept :=
  if_pos (.inr rfl)

theorem keep_name {s : Segment} (hnil : s ≠ []) (hhere : s ≠ here) (hup : s ≠ up) :
    keep absolute kept s = s :: kept := by
  rw [keep.eq_def, if_neg (not_or.mpr ⟨hnil, hhere⟩), if_neg hup]

theorem keep_up_nil : keep false [] up = [up] := rfl

theorem keep_up_up : keep false (up :: kept) up = up :: up :: kept := rfl

/-- A `..` takes the name below it off the stack. -/
theorem keep_up_name {s : Segment} (hup : s ≠ up) : keep absolute (s :: kept) up = kept := by
  have hne : ¬ (up = [] ∨ up = here) := by decide
  rw [keep, if_neg hne, if_pos rfl]
  exact if_neg hup

/-- A stack as the pass leaves it: names on top of a run of `..`, which is empty if the path
    starts at the root. -/
inductive Settled (absolute : Bool) : List Segment → Prop where
  | ups (k : Nat) (h : absolute = true → k = 0) : Settled absolute (List.replicate k up)
  | name {kept : List Segment} (hkept : Settled absolute kept) {s : Segment} (hnil : s ≠ [])
      (hhere : s ≠ here) (hup : s ≠ up) : Settled absolute (s :: kept)

theorem Settled.nil (absolute : Bool) : Settled absolute [] := .ups 0 fun _ => rfl

theorem Settled.replicate_up (k : Nat) : Settled false (List.replicate k up) := .ups k nofun

/-- The stack stays settled, whatever segment comes. -/
theorem Settled.keep (h : Settled absolute kept) (s : Segment) :
    Settled absolute (keep absolute kept s) := by
  by_cases hnil : s = []
  · rw [hnil, keep_nil]
    exact h
  by_cases hhere : s = here
  · rw [hhere, keep_here]
    exact h
  by_cases hup : s = up
  · subst hup
    cases h with
    | name hkept _ _ hname =>
        rw [keep_up_name hname]
        exact hkept
    | ups k hk =>
        cases absolute with
        | true =>
            obtain rfl := hk rfl
            exact Settled.nil true
        | false =>
            cases k with
            | zero => exact Settled.replicate_up 1
            | succ k => exact Settled.replicate_up (k + 2)
  · rw [keep_name hnil hhere hup]
    exact h.name hnil hhere hup

theorem Settled.foldl_keep (segments : List Segment) :
    ∀ {kept : List Segment}, Settled absolute kept →
      Settled absolute (segments.foldl (Path.keep absolute) kept) := by
  induction segments with
  | nil => exact fun h => h
  | cons s rest ih => exact fun h => ih (h.keep s)

/-- What the pass leaves is settled, since it starts with nothing. -/
theorem settled_resolve (absolute : Bool) (segments : List Segment) :
    Settled absolute (resolve absolute segments).reverse := by
  rw [resolve, List.reverse_reverse]
  exact (Settled.nil absolute).foldl_keep segments

/-- What is on a settled stack, from the bottom to the top. -/
theorem Settled.exists_names (h : Settled absolute kept) :
    ∃ k names, kept.reverse = List.replicate k up ++ names ∧ (absolute = true → k = 0) ∧
      ∀ s ∈ names, s ≠ [] ∧ s ≠ here ∧ s ≠ up := by
  induction h with
  | ups k hk =>
      exact ⟨k, [], by rw [List.reverse_replicate, List.append_nil], hk, nofun⟩
  | @name kept hkept s hnil hhere hup ih =>
      obtain ⟨k, names, heq, hk, hnames⟩ := ih
      refine ⟨k, names ++ [s], ?_, hk, ?_⟩
      · rw [List.reverse_cons, heq, List.append_assoc]
      · intro t ht
        rcases List.mem_append.mp ht with ht | ht
        · exact hnames t ht
        · rw [List.mem_singleton.mp ht]
          exact ⟨hnil, hhere, hup⟩

/-- No step applies to a run of `..` with names behind it, unless the run is at the root. -/
theorem irreducible_append {k : Nat} {names : List Segment} (hk : absolute = true → k = 0)
    (hnames : ∀ s ∈ names, s ≠ here ∧ s ≠ up) :
    Irreducible absolute (List.replicate k up ++ names) := by
  have hup : up ∉ names := fun hmem => (hnames up hmem).2 rfl
  intro segments' hstep
  generalize hlist : List.replicate k up ++ names = list at hstep
  cases hstep with
  | here before after =>
      have hmem : here ∈ List.replicate k up ++ names := by
        rw [hlist]
        exact List.mem_append_right before List.mem_cons_self
      rcases List.mem_append.mp hmem with hmem | hmem
      · exact absurd (List.eq_of_mem_replicate hmem) (by decide)
      · exact (hnames here hmem).1 rfl
  | @cancel before name _ hname after =>
      -- the name stands among the names, and then so does the `..` behind it
      rcases List.append_eq_append_iff.mp hlist with ⟨mid, -, hmid⟩ | ⟨mid, hrun, hmid⟩
      · rw [hmid] at hup
        exact hup (List.mem_append_right mid (List.mem_cons_of_mem name List.mem_cons_self))
      · cases mid with
        | nil =>
            rw [List.nil_append] at hmid
            rw [← hmid] at hup
            exact hup (List.mem_cons_of_mem name List.mem_cons_self)
        | cons x mid =>
            obtain ⟨rfl, -⟩ := List.cons.inj hmid
            have hmem : name ∈ List.replicate k up := by
              rw [hrun]
              exact List.mem_append_right before List.mem_cons_self
            exact hname (List.eq_of_mem_replicate hmem)
  | root habsolute after =>
      obtain rfl := hk habsolute
      rw [List.replicate_zero, List.nil_append] at hlist
      rw [hlist] at hup
      exact hup List.mem_cons_self

/-- **No step applies to what the pass leaves.** -/
theorem irreducible_resolve (absolute : Bool) (segments : List Segment) :
    Irreducible absolute (resolve absolute segments) := by
  obtain ⟨k, names, heq, hk, hnames⟩ := (settled_resolve absolute segments).exists_names
  rw [List.reverse_reverse] at heq
  rw [heq]
  exact irreducible_append hk fun s hs => (hnames s hs).2

-- ── The pass is a reduction ──────────────────────────────────────────────────

/-- Putting a segment on the stack takes at most one step. -/
theorem reduces_keep (h : Settled absolute kept) {s : Segment} (hs : s ≠ [])
    (rest : List Segment) :
    Reduces absolute (kept.reverse ++ s :: rest) ((keep absolute kept s).reverse ++ rest) := by
  by_cases hhere : s = here
  · rw [hhere, keep_here]
    exact .single (.here kept.reverse rest)
  by_cases hup : s = up
  · subst hup
    cases h with
    | @name kept _ t _ hthere htup =>
        rw [keep_up_name htup, List.reverse_cons, List.append_assoc]
        exact .single (.cancel kept.reverse hthere htup rest)
    | ups k hk =>
        cases absolute with
        | true =>
            obtain rfl := hk rfl
            exact .single (.root rfl rest)
        | false =>
            -- a `..` with nothing to cancel stays where it is
            have hkeep : keep false (List.replicate k up) up = up :: List.replicate k up := by
              cases k with
              | zero => exact keep_up_nil
              | succ k => exact keep_up_up
            rw [hkeep, List.reverse_cons, List.append_assoc]
            exact .refl
  · rw [keep_name hs hhere hup, List.reverse_cons, List.append_assoc]
    exact .refl

/-- What is on the stack, with the segments to come behind it, reduces to what the pass leaves.
    One segment at a time is `reduces_keep`. -/
theorem reduces_foldl_keep (hsegments : ∀ s ∈ segments, s ≠ []) :
    ∀ {kept : List Segment}, Settled absolute kept →
      Reduces absolute (kept.reverse ++ segments)
        (segments.foldl (keep absolute) kept).reverse := by
  induction segments with
  | nil =>
      intro kept _
      rw [List.append_nil]
      exact .refl
  | cons s rest ih =>
      intro kept hkept
      obtain ⟨hs, hrest⟩ := List.forall_mem_cons.mp hsegments
      exact (reduces_keep hkept hs rest).trans (ih hrest (hkept.keep s))

/-- **A list of segments reduces to what the pass makes of it.** -/
theorem reduces_resolve (absolute : Bool) (hsegments : ∀ s ∈ segments, s ≠ []) :
    Reduces absolute segments (resolve absolute segments) :=
  reduces_foldl_keep hsegments (Settled.nil absolute)

-- ── Steps do not matter to the pass ──────────────────────────────────────────

/-- **No step changes what the pass makes of a list.** -/
theorem resolve_eq_of_step {segments' : List Segment} (h : Step absolute segments segments')
    (hsegments : ∀ s ∈ segments, s ≠ []) :
    resolve absolute segments' = resolve absolute segments := by
  cases h with
  | here before after =>
      rw [resolve, resolve, List.foldl_append, List.foldl_append, List.foldl_cons, keep_here]
  | @cancel before name hhere hup after =>
      have hnil : name ≠ [] := hsegments name (List.mem_append_right before List.mem_cons_self)
      rw [resolve, resolve, List.foldl_append, List.foldl_append, List.foldl_cons,
        List.foldl_cons, keep_name hnil hhere hup, keep_up_name hup]
  | root habsolute after =>
      subst habsolute
      rfl

/-- A step only takes segments away. -/
theorem Step.subset {segments' : List Segment} (h : Step absolute segments segments') :
    segments' ⊆ segments := by
  cases h with
  | here before after =>
      exact ((List.sublist_cons_self Segment.here after).append_left before).subset
  | @cancel before name _ _ after =>
      exact (((List.sublist_cons_self up after).cons name).append_left before).subset
  | root _ => exact List.subset_cons_self up segments'

theorem Reduces.subset {segments' : List Segment} (h : Reduces absolute segments segments') :
    segments' ⊆ segments := by
  induction h with
  | refl => exact List.Subset.refl segments
  | tail _ hstep ih => exact List.Subset.trans hstep.subset ih

/-- Any number of steps leaves alone what the pass makes of the list. -/
theorem resolve_eq_of_reduces {segments' : List Segment} (h : Reduces absolute segments segments')
    (hsegments : ∀ s ∈ segments, s ≠ []) :
    resolve absolute segments' = resolve absolute segments := by
  induction h with
  | refl => rfl
  | tail hred hstep ih =>
      have hne := fun s hs => hsegments s (Reduces.subset hred hs)
      exact (resolve_eq_of_step hstep hne).trans ih

/-- **Every way of simplifying a list ends where the pass does.** -/
theorem eq_resolve_of_irreducible {segments' : List Segment}
    (h : Reduces absolute segments segments') (hend : Irreducible absolute segments')
    (hsegments : ∀ s ∈ segments, s ≠ []) : segments' = resolve absolute segments := by
  have hne : ∀ s ∈ segments', s ≠ [] := fun s hs => hsegments s (Reduces.subset h hs)
  rw [← resolve_eq_of_reduces h hsegments]
  exact (hend.eq_of_reduces (reduces_resolve absolute hne)).symm

-- ── Texts ────────────────────────────────────────────────────────────────────

theorem resolve_nil_cons (absolute : Bool) (segments : List Segment) :
    resolve absolute ([] :: segments) = resolve absolute segments := by
  rw [resolve, resolve, List.foldl_cons, keep_nil]

/-- Empty segments can be left out before the pass. -/
theorem resolve_filter (absolute : Bool) (segments : List Segment) :
    resolve absolute (segments.filter fun s => decide (s ≠ [])) = resolve absolute segments := by
  rw [resolve, resolve]
  generalize ([] : List Segment) = kept
  induction segments generalizing kept with
  | nil => rfl
  | cons s rest ih =>
      by_cases hs : s = []
      · rw [hs, List.filter_cons_of_neg (by simp), List.foldl_cons, keep_nil]
        exact ih kept
      · rw [List.filter_cons_of_pos (by simp [hs]), List.foldl_cons, List.foldl_cons]
        exact ih _

/-- A path is resolved by its segments that are not empty. -/
theorem ofText_eq (p : String) :
    Resolved.ofText p = ⟨isRooted p, resolve (isRooted p) (segmentsOf p)⟩ := by
  rw [segmentsOf, resolve_filter]
  rfl

theorem ne_nil_of_mem_segmentsOf {p : String} {s : Segment} (hs : s ∈ segmentsOf p) : s ≠ [] :=
  of_decide_eq_true (List.mem_filter.mp hs).2

/-- A resolved path whose segments can be told from its text, and that is as simple as it
    can be. -/
structure Resolved.IsNormal (r : Resolved) : Prop where
  settled : Settled r.absolute r.segments.reverse
  plain : ∀ s ∈ r.segments, '/' ∉ s ∧ '\\' ∉ s

/-- Only one separator is left. -/
theorem backslash_not_mem_unify (cs : List Char) : '\\' ∉ unify cs := by
  intro h
  obtain ⟨c, -, hc⟩ := List.mem_map.mp h
  by_cases hb : c = '\\'
  · rw [if_pos hb] at hc
    exact absurd hc (by decide)
  · rw [if_neg hb] at hc
    exact hb hc

theorem unify_eq_self {cs : List Char} (h : '\\' ∉ cs) : unify cs = cs := by
  rw [unify]
  refine (List.map_congr_left fun c hc => ?_).trans (List.map_id cs)
  exact if_neg fun heq : c = '\\' => h (heq ▸ hc)

/-- **A resolved path is normal.** Its segments come from a split, so no separator is in them. -/
theorem isNormal_ofText (p : String) : (Resolved.ofText p).IsNormal where
  settled := settled_resolve _ _
  plain s hs := by
    rw [ofText_eq] at hs
    have hred := reduces_resolve (isRooted p) fun s hs => ne_nil_of_mem_segmentsOf (p := p) hs
    have hmem : s ∈ split (unify p.toList) := (List.mem_filter.mp (Reduces.subset hred hs)).1
    refine ⟨not_slash_mem_of_mem_split hmem, fun hb => ?_⟩
    exact backslash_not_mem_unify p.toList (mem_of_mem_split hmem hb)

namespace Resolved.IsNormal

variable {r : Resolved}

theorem ne_nil (h : r.IsNormal) {s : Segment} (hs : s ∈ r.segments) : s ≠ [] := by
  obtain ⟨k, names, heq, -, hnames⟩ := h.settled.exists_names
  rw [List.reverse_reverse] at heq
  rw [heq] at hs
  rcases List.mem_append.mp hs with hs | hs
  · rw [List.eq_of_mem_replicate hs]
    exact nofun
  · exact (hnames s hs).1

/-- A normal path is resolved already: no step applies to it. -/
theorem resolve_eq (h : r.IsNormal) : resolve r.absolute r.segments = r.segments := by
  obtain ⟨k, names, heq, hk, hnames⟩ := h.settled.exists_names
  rw [List.reverse_reverse] at heq
  have hirreducible := irreducible_append hk fun s hs => (hnames s hs).2
  rw [← heq] at hirreducible
  exact hirreducible.eq_of_reduces (reduces_resolve r.absolute fun s hs => h.ne_nil hs)

theorem backslash_not_mem_text (h : r.IsNormal) : '\\' ∉ r.text.toList := by
  have hjoin : '\\' ∉ join r.segments := by
    intro hmem
    rcases mem_join hmem with heq | ⟨s, hs, hb⟩
    · exact absurd heq (by decide)
    · exact (h.plain s hs).2 hb
  rw [Resolved.text, String.toList_ofList]
  split
  · intro hmem
    rcases List.mem_cons.mp hmem with heq | hmem
    · exact absurd heq (by decide)
    · exact hjoin hmem
  · split
    · decide
    · exact hjoin

/-- Cut at its slashes, the text gives the segments back; at the root an empty piece comes
    first. -/
theorem split_text (h : r.IsNormal) (hne : r.segments ≠ []) :
    split r.text.toList = if r.absolute then [] :: r.segments else r.segments := by
  have hjoin := split_join hne fun s hs => (h.plain s hs).1
  rw [Resolved.text, String.toList_ofList]
  cases r.absolute with
  | true =>
      show split ('/' :: join r.segments) = [] :: r.segments
      rw [split, if_pos rfl, hjoin]
  | false =>
      rw [if_neg Bool.false_ne_true, if_neg Bool.false_ne_true,
        if_neg (by rw [List.isEmpty_iff]; exact hne)]
      exact hjoin

/-- A path without segments is shown as `/` or `.`. -/
theorem text_of_segments_nil (hnil : r.segments = []) :
    r.text = if r.absolute then "/" else "." := by
  rw [Resolved.text, hnil]
  cases r.absolute with
  | true => rfl
  | false => rfl

/-- The text of a normal path shows whether it starts at the root. -/
theorem isAbsolute_text (h : r.IsNormal) : isAbsolute r.text.toList = r.absolute := by
  rw [Resolved.text, String.toList_ofList]
  cases r.absolute with
  | true => rfl
  | false =>
      rw [if_neg Bool.false_ne_true]
      cases hsegments : r.segments with
      | nil => rfl
      | cons s rest =>
          have hs : s ∈ r.segments := hsegments ▸ List.mem_cons_self
          cases hchars : s with
          | nil => exact absurd hchars (h.ne_nil hs)
          | cons c cs =>
              have hc : c ≠ '/' := by
                rintro rfl
                exact (h.plain s hs).1 (hchars ▸ List.mem_cons_self)
              -- the text starts as its first segment does
              have hstart : ∃ tail, join ((c :: cs) :: rest) = c :: tail := by
                cases rest with
                | nil => exact ⟨cs, rfl⟩
                | cons t rest => exact ⟨_, rfl⟩
              obtain ⟨tail, htail⟩ := hstart
              show isAbsolute (join ((c :: cs) :: rest)) = false
              rw [htail, isAbsolute]
              rintro _ heq
              exact hc (List.cons.inj heq).1

/-- **A normal path is found again in its text.** -/
theorem ofText_text (h : r.IsNormal) : Resolved.ofText r.text = r := by
  have hunify : unify r.text.toList = r.text.toList := unify_eq_self h.backslash_not_mem_text
  have hrooted : isRooted r.text = r.absolute := by
    rw [isRooted, hunify]
    exact h.isAbsolute_text
  have hresolve : resolve r.absolute (segmentsOf r.text) = r.segments := by
    rw [segmentsOf, resolve_filter, hunify]
    by_cases hnil : r.segments = []
    · rw [text_of_segments_nil hnil, hnil]
      cases r.absolute with
      | true => rfl
      | false => rfl
    · rw [h.split_text hnil]
      split
      · rw [resolve_nil_cons]
        exact h.resolve_eq
      · exact h.resolve_eq
  rw [ofText_eq, hrooted, hresolve]

end Resolved.IsNormal

/-- **Normalizing finds the one lexical normal form.** However the segments of a path are
    simplified, if no further step applies, the path is normalized to the text of what is
    left; and they can be simplified to such an end, which is the same in all ways. Cut at its
    slashes, the text has no segment that is empty or `.`, and `..` only in a run at the front
    of a relative path, except that nothing at all is written `.` or, at the root, `/`. No
    back slash is left, and normalizing once more changes nothing. -/
theorem normalize_eq_text_of_irreducible (p : String) :
    (∀ segments, Reduces (isRooted p) (segmentsOf p) segments →
      Irreducible (isRooted p) segments →
        normalize p = (Resolved.mk (isRooted p) segments).text) ∧
      (∃ segments, (Reduces (isRooted p) (segmentsOf p) segments ∧
          Irreducible (isRooted p) segments ∧
          ∀ segments', Reduces (isRooted p) (segmentsOf p) segments' →
            Irreducible (isRooted p) segments' → segments' = segments) ∧
        (segments = [] → normalize p = if isRooted p then "/" else ".") ∧
        (segments ≠ [] → split (normalize p).toList
          = if isRooted p then [] :: segments else segments) ∧
        ∃ k names, segments = List.replicate k up ++ names ∧ (isRooted p = true → k = 0) ∧
          ∀ s ∈ names, s ≠ [] ∧ s ≠ here ∧ s ≠ up) ∧
      '\\' ∉ (normalize p).toList ∧
      normalize (normalize p) = normalize p := by
  have hne : ∀ s ∈ segmentsOf p, s ≠ [] := fun s hs => ne_nil_of_mem_segmentsOf hs
  have hnormal := isNormal_ofText p
  have hend : ∀ segments, Reduces (isRooted p) (segmentsOf p) segments →
      Irreducible (isRooted p) segments → segments = (Resolved.ofText p).segments := by
    intro segments hred hirr
    rw [ofText_eq]
    exact eq_resolve_of_irreducible hred hirr hne
  refine ⟨?_, ⟨(Resolved.ofText p).segments, ⟨?_, ?_, hend⟩, ?_, ?_, ?_⟩, ?_, ?_⟩
  · intro segments hred hirr
    rw [hend segments hred hirr]
    rfl
  · rw [ofText_eq]
    exact reduces_resolve _ hne
  · exact irreducible_resolve _ _
  · exact Resolved.IsNormal.text_of_segments_nil
  · exact hnormal.split_text
  · obtain ⟨k, names, heq, hk, hnames⟩ := hnormal.settled.exists_names
    rw [List.reverse_reverse] at heq
    exact ⟨k, names, heq, hk, hnames⟩
  · exact hnormal.backslash_not_mem_text
  · rw [normalize, normalize, hnormal.ofText_text]

-- `a` goes with the first `..`, and the second has nothing left to cancel
example : normalize "a\\..//../b/./c/" = "../b/c" := by decide +kernel

end SolidityLint.Path
