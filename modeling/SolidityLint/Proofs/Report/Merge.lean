import SolidityLint.Report.Basic

/-!
# Merging reports

Reports are merged from left to right as long as the number of files fits in 64 bits. The
outcome has a closed form: it is decided by the sum of the numbers of files alone, and the
violations are those of the reports, one after the other.

So reports may be merged in any bracketing: each gives what merging from left to right gives
(`Bracketing.merged?_eq`), and they fail together.
-/

namespace SolidityLint.Report

/-- How many files reports are about, as a natural number. -/
def filesTotal : List Report → Nat
  | [] => 0
  | r :: rs => r.filesChecked.toNat + filesTotal rs

/-- Merging reports into one that is there already. -/
theorem foldlM_merge?_eq (a : Report) (rs : List Report) :
    rs.foldlM merge? a
      = if a.filesChecked.toNat + filesTotal rs < UInt64.size then
          some ⟨a.violations ++ rs.flatMap Report.violations,
            UInt64.ofNat (a.filesChecked.toNat + filesTotal rs)⟩
        else none := by
  induction rs generalizing a with
  | nil =>
      have hfits : a.filesChecked.toNat + filesTotal [] < UInt64.size := a.filesChecked.toNat_lt
      rw [if_pos hfits, List.flatMap_nil, List.append_nil]
      show some a = some ⟨a.violations, UInt64.ofNat a.filesChecked.toNat⟩
      rw [UInt64.ofNat_toNat]
  | cons r rs ih =>
      rw [List.foldlM_cons, merge?, filesTotal]
      by_cases hfits : a.filesChecked.toNat + r.filesChecked.toNat < UInt64.size
      · rw [if_pos hfits]
        show rs.foldlM merge? _ = _
        have hsum : (a.filesChecked + r.filesChecked).toNat
            = a.filesChecked.toNat + r.filesChecked.toNat := by
          rw [UInt64.toNat_add]
          exact Nat.mod_eq_of_lt hfits
        rw [ih, hsum, List.flatMap_cons, List.append_assoc, Nat.add_assoc]
      · rw [if_neg hfits, if_neg (by omega)]
        rfl

/-- **The merge of reports in closed form.** -/
theorem mergeAll?_eq (rs : List Report) :
    mergeAll? rs
      = if filesTotal rs < UInt64.size then
          some ⟨rs.flatMap Report.violations, UInt64.ofNat (filesTotal rs)⟩
        else none := by
  have hfiles : empty.filesChecked.toNat = 0 := rfl
  have hviolations : empty.violations = [] := rfl
  rw [mergeAll?, foldlM_merge?_eq, hfiles, hviolations, Nat.zero_add, List.nil_append]

-- ── Bracketings ──────────────────────────────────────────────────────────────

theorem filesTotal_append (rs ss : List Report) :
    filesTotal (rs ++ ss) = filesTotal rs + filesTotal ss := by
  induction rs with
  | nil => rw [List.nil_append, filesTotal, Nat.zero_add]
  | cons r rs ih => rw [List.cons_append, filesTotal, filesTotal, ih, Nat.add_assoc]

/-- Merging a list fails just if there are more files than can be counted. -/
theorem mergeAll?_eq_none_iff {rs : List Report} :
    mergeAll? rs = none ↔ UInt64.size - 1 < filesTotal rs := by
  have hpos : 0 < UInt64.size := by decide
  rw [mergeAll?_eq]
  by_cases hfits : filesTotal rs < UInt64.size
  · rw [if_pos hfits]
    exact ⟨nofun, fun hover => by omega⟩
  · rw [if_neg hfits]
    exact ⟨fun _ => by omega, fun _ => rfl⟩

theorem mergeAll?_singleton (r : Report) : mergeAll? [r] = some r := by
  have hfits : filesTotal [r] < UInt64.size := r.filesChecked.toNat_lt
  rw [mergeAll?_eq, if_pos hfits, List.flatMap_singleton]
  show some (mk r.violations (UInt64.ofNat r.filesChecked.toNat)) = some r
  rw [UInt64.ofNat_toNat]

/-- The reports of two lists may be merged list by list first. -/
theorem mergeAll?_append (rs ss : List Report) :
    mergeAll? (rs ++ ss)
      = (mergeAll? rs).bind fun a => (mergeAll? ss).bind fun b => a.merge? b := by
  simp only [mergeAll?_eq, filesTotal_append, List.flatMap_append]
  -- if one part counts too many files, so does the whole
  by_cases hrs : filesTotal rs < UInt64.size
  · by_cases hss : filesTotal ss < UInt64.size
    · rw [if_pos hrs, if_pos hss, Option.bind_some, Option.bind_some, merge?,
        UInt64.toNat_ofNat_of_lt' hrs, UInt64.toNat_ofNat_of_lt' hss, UInt64.ofNat_add]
    · rw [if_pos hrs, if_neg hss, Option.bind_some, Option.bind_none, if_neg (by omega)]
  · rw [if_neg hrs, Option.bind_none, if_neg (by omega)]

/-- A way to merge reports two by two. -/
inductive Bracketing where
  | report (r : Report)
  | merge (x y : Bracketing)

namespace Bracketing

/-- The reports that are merged, from left to right. -/
def reports : Bracketing → List Report
  | report r => [r]
  | merge x y => x.reports ++ y.reports

/-- What comes of merging as the brackets say. -/
def merged? : Bracketing → Option Report
  | report r => some r
  | merge x y => x.merged?.bind fun a => y.merged?.bind fun b => a.merge? b

/-- **However reports are bracketed, merging them is merging the list of them.** -/
theorem merged?_eq (x : Bracketing) : x.merged? = mergeAll? x.reports := by
  induction x with
  | report r => exact (mergeAll?_singleton r).symm
  | merge x y ihx ihy => rw [merged?, reports, mergeAll?_append, ihx, ihy]

end Bracketing

/-- Merging is associative, failures included. -/
theorem merge?_assoc (a b c : Report) :
    ((a.merge? b).bind fun ab => ab.merge? c) = (b.merge? c).bind fun bc => a.merge? bc := by
  have hleft := Bracketing.merged?_eq (.merge (.merge (.report a) (.report b)) (.report c))
  have hright := Bracketing.merged?_eq (.merge (.report a) (.merge (.report b) (.report c)))
  exact hleft.trans hright.symm

/-- The empty report can be left out. -/
theorem empty_merge? (r : Report) : empty.merge? r = some r := by
  rw [← mergeAll?_singleton r]
  exact (Option.bind_fun_some _).symm

theorem merge?_empty (r : Report) : r.merge? empty = some r := by
  have hfits : r.filesChecked.toNat + empty.filesChecked.toNat < UInt64.size :=
    r.filesChecked.toNat_lt
  rw [merge?, if_pos hfits]
  show some (mk (r.violations ++ []) (r.filesChecked + 0)) = some r
  rw [List.append_nil, UInt64.add_zero]

end SolidityLint.Report
