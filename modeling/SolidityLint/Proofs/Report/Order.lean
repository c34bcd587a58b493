import SolidityLint.Proofs.Path.Order
import SolidityLint.Report.Basic

/-!
# The order of places and the stable sort

Violations are compared by the components of their file, then by line and column. This is
a total preorder, and two violations are at the same place exactly when all three agree:
two spellings of one path count as one file, and nothing else does.

Sorting a report keeps, for every place, the violations at that place as they stood. A
sorted list is determined by these sublists (`eq_of_sorted_of_filter_eq`), so two lists of
violations are sorted into the same list as soon as they agree place by place.
-/

namespace SolidityLint

namespace Violation

/-- The order of places is made of three orders, one after the other. -/
theorem comparePlace_eq :
    comparePlace = compareLex (compareOn fun v => Path.key v.location.file)
      (compareLex (compareOn fun v => v.location.line.toNat)
        (compareOn fun v => v.location.column.toNat)) := rfl

instance : Std.TransCmp comparePlace := by
  rw [comparePlace_eq]
  infer_instance

/-- Two violations are at one place if file, line and column are the same, the file by its
    components. -/
theorem comparePlace_eq_eq_iff {v w : Violation} :
    v.comparePlace w = .eq ↔
      Path.components v.location.file = Path.components w.location.file ∧
        v.location.line = w.location.line ∧ v.location.column = w.location.column := by
  simp only [comparePlace, Ordering.then_eq_eq, Std.LawfulEqOrd.compare_eq_iff_eq,
    Path.key_eq_iff, UInt64.toNat_inj]

theorem mayPrecede_trans (u v w : Violation) :
    u.mayPrecede v = true → v.mayPrecede w = true → u.mayPrecede w = true :=
  Std.TransCmp.isLE_trans

/-- Of two violations one may precede the other. -/
theorem mayPrecede_total (v w : Violation) : (v.mayPrecede w || w.mayPrecede v) = true := by
  have hswap : w.comparePlace v = (v.comparePlace w).swap := Std.OrientedCmp.eq_swap
  rw [mayPrecede, mayPrecede, hswap]
  cases v.comparePlace w <;> rfl

/-- Whether two violations are at the same place. -/
def samePlace (v w : Violation) : Bool := v.comparePlace w = .eq

theorem samePlace_iff {v w : Violation} : v.samePlace w = true ↔ v.comparePlace w = .eq :=
  decide_eq_true_iff

theorem samePlace_self (v : Violation) : v.samePlace v = true :=
  samePlace_iff.mpr Std.ReflCmp.compare_self

theorem samePlace_of_mayPrecede {v w : Violation} (h₁ : v.mayPrecede w = true)
    (h₂ : w.mayPrecede v = true) : v.samePlace w = true := by
  have hswap : w.comparePlace v = (v.comparePlace w).swap := Std.OrientedCmp.eq_swap
  rw [mayPrecede] at h₁ h₂
  rw [samePlace_iff]
  rw [hswap] at h₂
  cases h : v.comparePlace w with
  | eq => rfl
  | lt => rw [h] at h₂; exact nomatch h₂
  | gt => rw [h] at h₁; exact nomatch h₁

/-- Violations at the place of a third may stand in either order. -/
theorem mayPrecede_of_samePlace {u v w : Violation} (hv : u.samePlace v = true)
    (hw : u.samePlace w = true) : v.mayPrecede w = true := by
  rw [samePlace_iff, comparePlace_eq_eq_iff] at hv hw
  have heq : v.comparePlace w = .eq := by
    rw [comparePlace_eq_eq_iff, ← hv.1, ← hv.2.1, ← hv.2.2]
    exact hw
  rw [mayPrecede, heq]
  rfl

-- ── Sorted lists ─────────────────────────────────────────────────────────────

/-- Lists that agree place by place hold the same violations. -/
theorem mem_of_filter_eq {vs ws : List Violation}
    (h : ∀ u : Violation, vs.filter u.samePlace = ws.filter u.samePlace) {v : Violation}
    (hv : v ∈ vs) : v ∈ ws := by
  have hmem : v ∈ vs.filter v.samePlace := List.mem_filter.mpr ⟨hv, samePlace_self v⟩
  rw [h v] at hmem
  exact (List.mem_filter.mp hmem).1

/-- The first of a sorted list may precede whatever the list holds. -/
theorem mayPrecede_of_mem_cons {v w : Violation} {vs : List Violation}
    (hs : (v :: vs).Pairwise fun a b => mayPrecede a b = true) (hw : w ∈ v :: vs) :
    v.mayPrecede w = true := by
  rcases List.mem_cons.mp hw with rfl | hmem
  · exact mayPrecede_of_samePlace (samePlace_self w) (samePlace_self w)
  · exact (List.pairwise_cons.mp hs).1 w hmem

/-- **A sorted list is determined by its sublists place by place.** -/
theorem eq_of_sorted_of_filter_eq {vs ws : List Violation}
    (hv : vs.Pairwise fun a b => mayPrecede a b = true)
    (hw : ws.Pairwise fun a b => mayPrecede a b = true)
    (h : ∀ u : Violation, vs.filter u.samePlace = ws.filter u.samePlace) : vs = ws := by
  induction vs generalizing ws with
  | nil =>
      cases ws with
      | nil => rfl
      | cons w ws =>
          exact absurd (mem_of_filter_eq (fun u => (h u).symm) List.mem_cons_self)
            List.not_mem_nil
  | cons v vs ih =>
      cases ws with
      | nil => exact absurd (mem_of_filter_eq h List.mem_cons_self) List.not_mem_nil
      | cons w ws =>
          -- each first element occurs in the other list, so they are at one place
          have hvmem : v ∈ w :: ws := mem_of_filter_eq h List.mem_cons_self
          have hwmem : w ∈ v :: vs := mem_of_filter_eq (fun u => (h u).symm) List.mem_cons_self
          have hsame : v.samePlace w = true := samePlace_of_mayPrecede
            (mayPrecede_of_mem_cons hv hwmem) (mayPrecede_of_mem_cons hw hvmem)
          have hvw : v = w := by
            have hfirst := h v
            rw [List.filter_cons_of_pos (samePlace_self v),
              List.filter_cons_of_pos hsame] at hfirst
            exact (List.cons.inj hfirst).1
          obtain rfl := hvw
          refine congrArg (v :: ·) (ih (List.pairwise_cons.mp hv).2 (List.pairwise_cons.mp hw).2 ?_)
          intro u
          have hu := h u
          by_cases huv : u.samePlace v = true
          · rw [List.filter_cons_of_pos huv, List.filter_cons_of_pos huv] at hu
            exact (List.cons.inj hu).2
          · rw [List.filter_cons_of_neg huv, List.filter_cons_of_neg huv] at hu
            exact hu

end Violation

-- ── Sorting a report ─────────────────────────────────────────────────────────

namespace Report

theorem sorted_sort (r : Report) :
    r.sort.violations.Pairwise fun a b => Violation.mayPrecede a b = true :=
  List.pairwise_mergeSort Violation.mayPrecede_trans Violation.mayPrecede_total r.violations

/-- Sorting loses no violation and makes none up. -/
theorem sort_perm (r : Report) : r.sort.violations.Perm r.violations :=
  List.mergeSort_perm r.violations Violation.mayPrecede

/-- Sorting is stable: at every place it leaves the violations as they stood. -/
theorem filter_sort (r : Report) (u : Violation) :
    r.sort.violations.filter u.samePlace = r.violations.filter u.samePlace := by
  have hpairwise : (r.violations.filter u.samePlace).Pairwise
      fun a b => Violation.mayPrecede a b = true := by
    rw [List.pairwise_iff_forall_sublist]
    intro a b hsub
    have ha := List.mem_filter.mp (hsub.subset List.mem_cons_self)
    have hb := List.mem_filter.mp (hsub.subset (List.mem_cons_of_mem _ List.mem_cons_self))
    exact Violation.mayPrecede_of_samePlace ha.2 hb.2
  have hsub : (r.violations.filter u.samePlace).Sublist r.sort.violations :=
    List.sublist_mergeSort Violation.mayPrecede_trans Violation.mayPrecede_total hpairwise
      List.filter_sublist
  have hfilter := hsub.filter u.samePlace
  rw [List.filter_filter] at hfilter
  simp only [Bool.and_self] at hfilter
  refine (hfilter.eq_of_length ?_).symm
  exact ((r.sort_perm.filter u.samePlace).length_eq).symm

/-- `ws` is `vs` brought into the order of places without touching what is at one place. -/
structure StablySorted (vs ws : List Violation) : Prop where
  perm : ws.Perm vs
  sorted : ws.Pairwise fun a b => Violation.mayPrecede a b = true
  stable : ∀ u : Violation, ws.filter u.samePlace = vs.filter u.samePlace

/-- **Sorting is stable**: violations at one place stay in the order in which they were found. -/
theorem stablySorted_sort (r : Report) : StablySorted r.violations r.sort.violations :=
  ⟨r.sort_perm, r.sorted_sort, r.filter_sort⟩

/-- Reports that agree place by place are sorted into the same list. -/
theorem sort_violations_eq {r s : Report}
    (h : ∀ u : Violation, r.violations.filter u.samePlace = s.violations.filter u.samePlace) :
    r.sort.violations = s.sort.violations := by
  refine Violation.eq_of_sorted_of_filter_eq r.sorted_sort s.sorted_sort fun u => ?_
  rw [filter_sort, filter_sort, h u]

end Report

end SolidityLint
