import Mathlib.Algebra.GroupWithZero.Nat
import Mathlib.Data.List.Sort
import Mathlib.Data.String.Basic
import SolidityLint.Proofs.Report.Merge
import SolidityLint.Proofs.Report.Order

/-!
# Counting by rule

Violations are counted one by one into a list that is kept sorted by rule id. What such a list
has to tell about the ids that were counted is said by `Tallies`: its ids ascend, an id is
found with the number of its occurrences, or not at all if it has none, and all numbers
together are as many as there were ids. Counting one more violation keeps this up
(`Tallies.countOne`), so it holds of every report. There is only one list that tallies given
ids, and their order is of no account (`Tallies.eq_of_perm`); so sorting a report does not
change its counts. Occurrences add up when lists are put behind each other, and so do the
counts of reports that are merged.
-/

namespace SolidityLint.Report

-- ── Lists sorted by id ───────────────────────────────────────────────────────

/-- The ids of counts ascend. -/
def Ascending (counts : List (String × Nat)) : Prop := counts.Pairwise fun p q => p.1 < q.1

theorem Ascending.lt_of_lt_head {r : String} {m : Nat} {rest : List (String × Nat)}
    (h : Ascending ((r, m) :: rest)) {rule : String} (hlt : rule < r) :
    ∀ p ∈ (r, m) :: rest, rule < p.1 :=
  List.forall_mem_cons.mpr ⟨hlt, fun p hp => hlt.trans ((List.pairwise_cons.mp h).1 p hp)⟩

theorem lookup_cons_eq (r : String) (n : Nat) (counts : List (String × Nat)) (rule : String) :
    ((r, n) :: counts).lookup rule = if rule = r then some n else counts.lookup rule := by
  rw [List.lookup_cons]
  by_cases heq : rule = r
  · rw [if_pos heq, beq_iff_eq.mpr heq]
  · rw [if_neg heq, beq_false_of_ne heq]

/-- A rule that is less than all that are counted is not counted yet. -/
theorem lookup_eq_none_of_lt {counts : List (String × Nat)} {rule : String}
    (h : ∀ p ∈ counts, rule < p.1) : counts.lookup rule = none := by
  rw [List.lookup_eq_none_iff]
  intro p hp
  exact bne_iff_ne.mpr (h p hp).ne

/-- In ascending counts every rule stands once, so that a count is in the list just if it is
    found. -/
theorem Ascending.mem_iff {counts : List (String × Nat)} (h : Ascending counts) {rule : String}
    {n : Nat} : (rule, n) ∈ counts ↔ counts.lookup rule = some n := by
  induction counts with
  | nil => exact ⟨nofun, nofun⟩
  | cons p rest ih =>
      obtain ⟨r, m⟩ := p
      obtain ⟨hr, hrest⟩ := List.pairwise_cons.mp h
      rw [List.mem_cons, Prod.mk.injEq, lookup_cons_eq]
      by_cases heq : rule = r
      · subst heq
        have hnot : (rule, n) ∉ rest := fun hmem => lt_irrefl rule (hr _ hmem)
        rw [if_pos rfl]
        constructor
        · rintro (⟨-, rfl⟩ | hmem)
          · rfl
          · exact absurd hmem hnot
        · intro hsome
          exact .inl ⟨rfl, (Option.some.inj hsome).symm⟩
      · rw [if_neg heq, ← ih hrest]
        constructor
        · rintro (⟨hrule, -⟩ | hmem)
          · exact absurd hrule heq
          · exact hmem
        · exact .inr

-- ── Counting one more ────────────────────────────────────────────────────────

theorem fst_of_mem_countOne {rule : String} {counts : List (String × Nat)} {p : String × Nat}
    (hp : p ∈ countOne rule counts) : p.1 = rule ∨ ∃ q ∈ counts, p.1 = q.1 := by
  induction counts with
  | nil =>
      obtain rfl := List.mem_singleton.mp hp
      exact .inl rfl
  | cons q rest ih =>
      obtain ⟨r, m⟩ := q
      rw [countOne] at hp
      split at hp
      · rcases List.mem_cons.mp hp with rfl | hp
        · exact .inr ⟨(r, m), List.mem_cons_self, rfl⟩
        · exact .inr ⟨p, List.mem_cons_of_mem _ hp, rfl⟩
      · split at hp
        · rcases List.mem_cons.mp hp with rfl | hp
          · exact .inl rfl
          · exact .inr ⟨p, hp, rfl⟩
        · rcases List.mem_cons.mp hp with rfl | hp
          · exact .inr ⟨(r, m), List.mem_cons_self, rfl⟩
          · rcases ih hp with hrule | ⟨q, hq, hpq⟩
            · exact .inl hrule
            · exact .inr ⟨q, List.mem_cons_of_mem _ hq, hpq⟩

/-- Counting once more keeps the rules in order. -/
theorem Ascending.countOne {counts : List (String × Nat)} (h : Ascending counts) (rule : String) :
    Ascending (countOne rule counts) := by
  induction counts with
  | nil => exact List.pairwise_singleton _ _
  | cons p rest ih =>
      obtain ⟨r, m⟩ := p
      obtain ⟨hr, hrest⟩ := List.pairwise_cons.mp h
      rw [Report.countOne]
      by_cases heq : rule = r
      · rw [if_pos heq]
        exact List.pairwise_cons.mpr ⟨hr, hrest⟩
      rw [if_neg heq]
      by_cases hlt : rule < r
      · rw [if_pos hlt]
        exact List.pairwise_cons.mpr ⟨h.lt_of_lt_head hlt, h⟩
      · rw [if_neg hlt]
        refine List.pairwise_cons.mpr ⟨?_, ih hrest⟩
        intro q hq
        rcases fst_of_mem_countOne hq with hrule | ⟨q', hq', heq'⟩
        · rw [hrule]
          exact lt_of_le_of_ne (not_lt.mp hlt) (Ne.symm heq)
        · rw [heq']
          exact hr q' hq'

/-- Counting one more violation of a rule changes the count of this rule and no other. -/
theorem Ascending.lookup_countOne {counts : List (String × Nat)} (h : Ascending counts)
    (rule x : String) :
    (Report.countOne rule counts).lookup x
      = if x = rule then some ((counts.lookup rule).getD 0 + 1) else counts.lookup x := by
  induction counts with
  | nil =>
      rw [Report.countOne, lookup_cons_eq]
      rfl
  | cons p rest ih =>
      obtain ⟨r, m⟩ := p
      obtain ⟨hr, hrest⟩ := List.pairwise_cons.mp h
      rw [Report.countOne]
      by_cases heq : rule = r
      · subst heq
        rw [if_pos rfl, lookup_cons_eq, lookup_cons_eq, lookup_cons_eq, if_pos rfl]
        by_cases hx : x = rule
        · rw [if_pos hx, if_pos hx, Option.getD_some]
        · rw [if_neg hx, if_neg hx, if_neg hx]
      rw [if_neg heq]
      by_cases hlt : rule < r
      · have hnone : ((r, m) :: rest).lookup rule = none :=
          lookup_eq_none_of_lt (h.lt_of_lt_head hlt)
        rw [if_pos hlt, lookup_cons_eq, hnone, Option.getD_none]
      · rw [if_neg hlt, lookup_cons_eq, lookup_cons_eq, lookup_cons_eq, if_neg heq, ih hrest]
        by_cases hx : x = r
        · rw [if_pos hx, if_pos hx, if_neg (hx ▸ Ne.symm heq)]
        · rw [if_neg hx, if_neg hx]

theorem sum_countOne (rule : String) (counts : List (String × Nat)) :
    ((countOne rule counts).map Prod.snd).sum = (counts.map Prod.snd).sum + 1 := by
  induction counts with
  | nil => rfl
  | cons p rest ih =>
      obtain ⟨r, m⟩ := p
      rw [countOne]
      split
      · simp only [List.map_cons, List.sum_cons]
        omega
      split
      · simp only [List.map_cons, List.sum_cons]
        omega
      · simp only [List.map_cons, List.sum_cons, ih]
        omega

-- ── Counting a list ──────────────────────────────────────────────────────────

/-- `counts` tell how often each id is among `rules`. -/
structure Tallies (rules : List String) (counts : List (String × Nat)) : Prop where
  ascending : Ascending counts
  lookup_eq : ∀ rule,
    counts.lookup rule = if rules.count rule = 0 then none else some (rules.count rule)
  sum_eq : (counts.map Prod.snd).sum = rules.length

namespace Tallies

variable {rules rules' : List String} {counts counts' : List (String × Nat)}

theorem nil : Tallies [] [] := ⟨.nil, fun _ => rfl, rfl⟩

/-- A rule is found with the number of times that it stands in the list, or not at all. -/
theorem getD_lookup (h : Tallies rules counts) (rule : String) :
    (counts.lookup rule).getD 0 = rules.count rule := by
  rw [h.lookup_eq]
  by_cases hzero : rules.count rule = 0
  · rw [if_pos hzero, Option.getD_none, hzero]
  · rw [if_neg hzero, Option.getD_some]

/-- A tally lists just the rules that occur, each with its number. -/
theorem mem_iff (h : Tallies rules counts) {rule : String} {n : Nat} :
    (rule, n) ∈ counts ↔ 0 < n ∧ n = rules.count rule := by
  rw [h.ascending.mem_iff, h.lookup_eq]
  by_cases hzero : rules.count rule = 0
  · rw [if_pos hzero]
    exact ⟨nofun, fun ⟨hpos, hn⟩ => by omega⟩
  · rw [if_neg hzero, Option.some.injEq]
    omega

/-- One more violation is one more occurrence of its rule. -/
theorem countOne (h : Tallies rules counts) (rule : String) :
    Tallies (rules ++ [rule]) (Report.countOne rule counts) where
  ascending := h.ascending.countOne rule
  lookup_eq x := by
    rw [h.ascending.lookup_countOne, h.getD_lookup, List.count_append]
    by_cases hx : x = rule
    · subst hx
      rw [if_pos rfl, List.count_singleton_self, if_neg (Nat.succ_ne_zero _)]
    · have hcount : [rule].count x = 0 :=
        List.count_eq_zero_of_not_mem fun hmem => hx (List.mem_singleton.mp hmem)
      rw [if_neg hx, h.lookup_eq, hcount, Nat.add_zero]
  sum_eq := by rw [sum_countOne, h.sum_eq, List.length_append, List.length_singleton]

/-- Counting violation after violation tallies their rules as well. By induction, one violation
    being `Tallies.countOne`. -/
theorem foldl_countOne (h : Tallies rules counts) (vs : List Violation) :
    Tallies (rules ++ vs.map Violation.rule)
      (vs.foldl (fun counts v => Report.countOne v.rule counts) counts) := by
  induction vs generalizing rules counts with
  | nil =>
      rw [List.map_nil, List.append_nil]
      exact h
  | cons v vs ih =>
      rw [List.map_cons, List.append_cons]
      exact ih (h.countOne v.rule)

/-- Ids have one list of counts, and it does not depend on their order. -/
theorem eq_of_perm (h : Tallies rules counts) (h' : Tallies rules' counts')
    (hperm : rules.Perm rules') : counts = counts' := by
  have hirrefl : Std.Irrefl fun p q : String × Nat => p.1 < q.1 := ⟨fun p => lt_irrefl p.1⟩
  have hantisymm : Std.Antisymm fun p q : String × Nat => p.1 < q.1 :=
    ⟨fun p q hpq hqp => absurd hqp hpq.asymm⟩
  -- two ascending lists with the same members are equal
  refine h.ascending.eq_of_mem_iff h'.ascending fun p => ?_
  obtain ⟨rule, n⟩ := p
  rw [h.mem_iff, h'.mem_iff, hperm.count_eq]

end Tallies

-- ── The counts of a report ───────────────────────────────────────────────────

/-- **The counts of a report tally the rules of its violations.** -/
theorem tallies_countByRule (r : Report) :
    Tallies (r.violations.map Violation.rule) r.countByRule :=
  Tallies.nil.foldl_countOne r.violations

/-- Sorting does not change the counts, since a tally does not depend on the order. -/
theorem countByRule_sort (r : Report) : r.sort.countByRule = r.countByRule :=
  r.sort.tallies_countByRule.eq_of_perm r.tallies_countByRule (r.sort_perm.map Violation.rule)

/-- How often a rule was broken; one that is not counted was not. -/
def timesBroken (r : Report) (rule : String) : Nat := (r.countByRule.lookup rule).getD 0

theorem timesBroken_eq (r : Report) (rule : String) :
    r.timesBroken rule = (r.violations.map Violation.rule).count rule :=
  r.tallies_countByRule.getD_lookup rule

/-- Merged reports have their numbers added, rule by rule. -/
theorem timesBroken_merge? {a b c : Report} (h : a.merge? b = some c) (rule : String) :
    c.timesBroken rule = a.timesBroken rule + b.timesBroken rule := by
  rw [merge?, Option.ite_none_right_eq_some, Option.some.injEq] at h
  obtain ⟨-, rfl⟩ := h
  rw [timesBroken_eq, timesBroken_eq, timesBroken_eq, List.map_append, List.count_append]

/-- So have any number of reports, however they are bracketed. -/
theorem Bracketing.timesBroken_merged? {x : Bracketing} {c : Report} (h : x.merged? = some c)
    (rule : String) : c.timesBroken rule = (x.reports.map fun r => r.timesBroken rule).sum := by
  induction x generalizing c with
  | report r =>
      obtain rfl := Option.some.inj h
      exact (Nat.add_zero _).symm
  | merge x y ihx ihy =>
      obtain ⟨a, ha, h⟩ := Option.bind_eq_some_iff.mp h
      obtain ⟨b, hb, h⟩ := Option.bind_eq_some_iff.mp h
      rw [timesBroken_merge? h, ihx ha, ihy hb, reports, List.map_append, List.sum_append]

/-- The number in the summary is the sum of the counts. -/
theorem summary_eq (r : Report) :
    r.summary = "Found " ++ toString (r.countByRule.map Prod.snd).sum ++ " violation(s) in "
      ++ Violation.decimal r.filesChecked ++ " file(s)" := by
  rw [r.tallies_countByRule.sum_eq, List.length_map, summary]

/-- **Merging, counting and sorting go together.** Merging is associative and the report on no
    files is its identity. However a chain of reports is bracketed, the outcome is the same, and
    there is none exactly when their files are too many for 64 bits. Every rule that was broken
    is counted once, in ascending order of ids, with the number of its violations, which is not
    zero; the numbers add up to that of the summary. What reports count for a rule adds up when
    they are merged, and sorting changes no count. -/
theorem countByRule_merge?_sort :
    (∀ a b c : Report,
      ((a.merge? b).bind fun ab => ab.merge? c) = (b.merge? c).bind fun bc => a.merge? bc) ∧
    (∀ a : Report, empty.merge? a = some a ∧ a.merge? empty = some a) ∧
    (∀ x : Bracketing, x.merged? = mergeAll? x.reports ∧
      (x.merged? = none ↔ UInt64.size - 1 < filesTotal x.reports)) ∧
    (∀ r : Report,
      (r.countByRule.Pairwise fun p q => p.1 < q.1) ∧
      (∀ rule n, (rule, n) ∈ r.countByRule ↔
        0 < n ∧ n = (r.violations.map Violation.rule).count rule) ∧
      (r.countByRule.map Prod.snd).sum = r.violations.length ∧
      r.summary = "Found " ++ toString (r.countByRule.map Prod.snd).sum ++ " violation(s) in "
        ++ Violation.decimal r.filesChecked ++ " file(s)") ∧
    (∀ a b c : Report, a.merge? b = some c →
      ∀ rule, c.timesBroken rule = a.timesBroken rule + b.timesBroken rule) ∧
    (∀ (x : Bracketing) (c : Report), x.merged? = some c →
      ∀ rule, c.timesBroken rule = (x.reports.map fun r => r.timesBroken rule).sum) ∧
    ∀ r : Report, r.sort.countByRule = r.countByRule := by
  refine ⟨merge?_assoc, fun a => ⟨empty_merge? a, merge?_empty a⟩, fun x => ⟨x.merged?_eq, ?_⟩,
    fun r => ⟨r.tallies_countByRule.ascending, fun _ _ => r.tallies_countByRule.mem_iff, ?_,
      r.summary_eq⟩,
    fun _ _ _ h => timesBroken_merge? h, fun _ _ h => Bracketing.timesBroken_merged? h,
    countByRule_sort⟩
  · rw [x.merged?_eq, mergeAll?_eq_none_iff]
  · rw [r.tallies_countByRule.sum_eq, List.length_map]

end SolidityLint.Report
