import SolidityLint.Proofs.Check.ClosedForm
import SolidityLint.Proofs.Path.Encoded
import SolidityLint.Proofs.Report.Order

/-!
# The order of the files

By its closed form (`checkFiles_eq_ok_iff`) a run reports what was found in the files, one
after the other, sorted. Whether it succeeds, and how many files it counts, is plainly the
same for files given in another order.

The sort is stable and does not look at rules or messages, so a list of violations at one
place comes out in the order in which it came in. But such a list belongs to one file: what
is found in a file is located there, and files that are recorded under different names are at
different places. So place by place the order of the files is lost (`flatMap_eq_of_perm`), and
with it the sorted list does not depend on it.

A file is recorded under the text that the path of its source shows. For paths that are texts,
different sources have different names. For others they need not: bytes that are no text show
the same replacement (`RawText.display_eq_of_stray`), and then the order of the files does matter
(`checkFiles_disagree_strays`).
-/

namespace SolidityLint

-- ── Another order of the files ───────────────────────────────────────────────

/-- Where at most one list is not empty, the order of the lists does not matter. -/
theorem flatMap_eq_of_perm {α β : Type} {f : α → List β} {xs ys : List α} (h : xs.Perm ys) :
    xs.Pairwise (fun a b => f a = [] ∨ f b = []) → xs.flatMap f = ys.flatMap f := by
  induction h with
  | nil => exact fun _ => rfl
  | cons a _ ih =>
      intro hxs
      rw [List.flatMap_cons, List.flatMap_cons, ih (List.pairwise_cons.mp hxs).2]
  | swap a b zs =>
      intro hxs
      rw [List.flatMap_cons, List.flatMap_cons, List.flatMap_cons, List.flatMap_cons]
      rcases (List.pairwise_cons.mp hxs).1 a List.mem_cons_self with hb | ha
      · rw [hb, List.nil_append, List.nil_append]
      · rw [ha, List.nil_append, List.nil_append]
  | trans h₁ _ ih₁ ih₂ =>
      intro hxs
      rw [ih₁ hxs]
      exact ih₂ ((h₁.pairwise_iff fun hab => hab.symm).mp hxs)

/-- No place is in two files that are recorded under different names. -/
theorem filter_foundIn_eq_nil {fs : FileSystem} {config : Config} {p q : RawText}
    (h : Path.same p.source.display q.source.display = false) (u : Violation) :
    (foundIn fs config p).filter u.samePlace = [] ∨
      (foundIn fs config q).filter u.samePlace = [] := by
  cases hp : (foundIn fs config p).filter u.samePlace with
  | nil => exact .inl rfl
  | cons v vs =>
      cases hq : (foundIn fs config q).filter u.samePlace with
      | nil => exact .inr rfl
      | cons w ws =>
          obtain ⟨hv, huv⟩ := List.mem_filter.mp (hp ▸ List.mem_cons_self (a := v))
          obtain ⟨hw, huw⟩ := List.mem_filter.mp (hq ▸ List.mem_cons_self (a := w))
          rw [Violation.samePlace_iff, Violation.comparePlace_eq_eq_iff] at huv huw
          -- `v` and `w` both stand at the place of `u`, which is in one file only
          have hcomponents : Path.components p.source.display
              = Path.components q.source.display := by
            rw [← file_of_mem_foundIn hv, ← file_of_mem_foundIn hw, ← huv.1, huw.1]
          rw [Path.same, hcomponents, beq_self_eq_true] at h
          exact Bool.noConfusion h

section Distinct

variable {ps qs : List RawText}

/-- Files that are recorded under different names yield the same sorted report in any order. -/
theorem sort_foundIn_eq_of_perm (fs : FileSystem) (config : Config)
    (hdistinct : ps.Pairwise fun p q => Path.same p.source.display q.source.display = false)
    (h : ps.Perm qs) (n : UInt64) :
    Report.sort ⟨ps.flatMap (foundIn fs config), n⟩
      = Report.sort ⟨qs.flatMap (foundIn fs config), n⟩ := by
  have hviolations : (Report.sort ⟨ps.flatMap (foundIn fs config), n⟩).violations
      = (Report.sort ⟨qs.flatMap (foundIn fs config), n⟩).violations := by
    refine Report.sort_violations_eq fun u => ?_
    show (ps.flatMap (foundIn fs config)).filter u.samePlace
      = (qs.flatMap (foundIn fs config)).filter u.samePlace
    -- a stable sort is fixed by what it finds at each place, and there only one file counts
    rw [List.filter_flatMap, List.filter_flatMap]
    exact flatMap_eq_of_perm h (hdistinct.imp fun hpq => filter_foundIn_eq_nil hpq u)
  exact congrArg (Report.mk · n) hviolations

/-- With a configuration at hand, files in any two orders yield the same report or both times
    none. Which of them fails first may differ, and whether one does cannot. -/
theorem checkFiles_agree_of_perm (fs : FileSystem) (config : Config)
    (hdistinct : ps.Pairwise fun p q => Path.same p.source.display q.source.display = false)
    (h : ps.Perm qs) : Outcome.Agree (checkFiles fs config ps) (checkFiles fs config qs) := by
  refine Outcome.agree_of_ok_iff fun r => ?_
  rw [checkFiles_eq_ok_iff, checkFiles_eq_ok_iff, h.length_eq,
    sort_foundIn_eq_of_perm fs config hdistinct h]
  refine and_congr_left fun _ => ?_
  constructor
  · intro hall p hp
    exact hall p (h.mem_iff.mpr hp)
  · intro hall p hp
    exact hall p (h.mem_iff.mp hp)

end Distinct

/-- Texts are recorded as they are, so it is enough that their sources are different paths. -/
theorem checkFiles_agree_of_perm_ofText (fs : FileSystem) (config : Config) {ps qs : List String}
    (hdistinct : ps.Pairwise fun p q =>
      RawText.same (RawText.ofText p).source (RawText.ofText q).source = false)
    (h : ps.Perm qs) :
    Outcome.Agree (checkFiles fs config (ps.map RawText.ofText))
      (checkFiles fs config (qs.map RawText.ofText)) := by
  refine checkFiles_agree_of_perm fs config ?_ (h.map RawText.ofText)
  refine List.pairwise_map.mpr (hdistinct.imp fun {p q} hpq => ?_)
  rw [RawText.source_ofText, RawText.source_ofText, RawText.same_ofText] at hpq
  rw [RawText.display_source_ofText, RawText.display_source_ofText]
  exact hpq

end SolidityLint
