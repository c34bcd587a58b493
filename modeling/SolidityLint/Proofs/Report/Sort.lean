import SolidityLint.Proofs.Path.Component
import SolidityLint.Proofs.Report.Order

/-!
# Sorting a report

The comparison by place is a total preorder: it is read the other way round when its sides are
swapped, it can be chained, and it finds no difference exactly where there is none in place.
A list that is in order and has been left alone at every place is determined by the list it
came from, so there is one way to sort a report, and sorting it again changes nothing.
-/

namespace SolidityLint

/-- `cmp` compares violations by place: by the components of the file, then by line, then by
    column. -/
structure Violation.ComparesPlaces (cmp : Violation → Violation → Ordering) : Prop where
  /-- Any two violations can be compared, and either way round to the same effect. -/
  total : ∀ u v, cmp v u = (cmp u v).swap
  trans : ∀ u v w, (cmp u v).isLE → (cmp v w).isLE → (cmp u w).isLE
  /-- There is no difference exactly where all that counts is the same. -/
  eq_iff : ∀ u v, cmp u v = .eq ↔
    Path.components u.location.file = Path.components v.location.file ∧
      u.location.line = v.location.line ∧ u.location.column = v.location.column
  lt_iff : ∀ u v, cmp u v = .lt ↔
    Path.Before u.location.file v.location.file ∨
      Path.components u.location.file = Path.components v.location.file ∧
        (u.location.line < v.location.line ∨
          u.location.line = v.location.line ∧ u.location.column < v.location.column)

/-- A violation comes first by its file, then by its line, then by its column. -/
theorem Violation.comparePlace_eq_lt_iff {u v : Violation} :
    u.comparePlace v = .lt ↔
      Path.Before u.location.file v.location.file ∨
        Path.components u.location.file = Path.components v.location.file ∧
          (u.location.line < v.location.line ∨
            u.location.line = v.location.line ∧ u.location.column < v.location.column) := by
  rw [comparePlace, Ordering.then_eq_lt, Ordering.then_eq_lt, Path.compare_key_eq_lt_iff,
    Std.LawfulEqOrd.compare_eq_iff_eq, Path.key_eq_iff, Nat.compare_eq_lt, Nat.compare_eq_eq,
    Nat.compare_eq_lt, UInt64.toNat_inj, ← UInt64.lt_iff_toNat_lt, ← UInt64.lt_iff_toNat_lt]

theorem Violation.comparesPlaces_comparePlace : ComparesPlaces comparePlace where
  total _ _ := Std.OrientedCmp.eq_swap
  trans _ _ _ := Std.TransCmp.isLE_trans
  eq_iff _ _ := comparePlace_eq_eq_iff
  lt_iff _ _ := comparePlace_eq_lt_iff

namespace Report

/-- **There is only one stably sorted list.** -/
theorem StablySorted.unique {vs ws ws' : List Violation} (h : StablySorted vs ws)
    (h' : StablySorted vs ws') : ws = ws' := by
  refine Violation.eq_of_sorted_of_filter_eq h.sorted h'.sorted fun u => ?_
  rw [h.stable, h'.stable]

/-- A sorted report stays as it is. -/
theorem sort_sort (r : Report) : r.sort.sort = r.sort := by
  have hself : StablySorted r.sort.violations r.sort.violations :=
    ⟨.refl _, r.sorted_sort, fun _ => rfl⟩
  have hviolations := r.sort.stablySorted_sort.unique hself
  show Report.mk r.sort.sort.violations r.filesChecked = ⟨r.sort.violations, r.filesChecked⟩
  rw [hviolations]

/-- **A report is sorted in the one way that is stable, by a total preorder.** Violations are
    compared by file, line and column, and files by their components: slashes next to each
    other, a `.` between slashes and a slash or `/.` at the end do not count, so that `a/b`
    comes before `a-b/c` though as a text it does not. Sorting keeps the number of files and
    all violations, puts them in this order and leaves those at one place as they stood;
    sorting again changes nothing, and no other list is sorted and stable. -/
theorem sort_eq_only_stablySorted (r : Report) :
    Violation.ComparesPlaces Violation.comparePlace ∧
      (∀ p q, Path.components (p ++ "//" ++ q) = Path.components (p ++ "/" ++ q) ∧
        Path.components (p ++ "/./" ++ q) = Path.components (p ++ "/" ++ q)) ∧
      (∀ p, p ≠ "" → Path.components (p ++ "/") = Path.components p ∧
        Path.components (p ++ "/.") = Path.components p) ∧
      (Path.Before "a/b" "a-b/c" ∧ "a-b/c" < "a/b") ∧
      r.sort.filesChecked = r.filesChecked ∧
      StablySorted r.violations r.sort.violations ∧
      r.sort.sort = r.sort ∧
      ∀ ws, StablySorted r.violations ws → ws = r.sort.violations := by
  refine ⟨Violation.comparesPlaces_comparePlace, fun p q => ⟨?_, ?_⟩, fun p hp => ⟨?_, ?_⟩,
    ⟨?_, ?_⟩, rfl, r.stablySorted_sort, r.sort_sort, fun ws hws => ?_⟩
  · exact Path.components_slash_slash p q
  · exact Path.components_here_slash p q
  · exact Path.components_append_slash hp
  · exact Path.components_append_here hp
  · exact Path.compare_key_eq_lt_iff.mp (by decide +kernel)
  · decide
  · exact hws.unique r.stablySorted_sort

end Report

end SolidityLint
