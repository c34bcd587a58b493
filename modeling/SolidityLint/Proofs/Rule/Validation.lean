import SolidityLint.Proofs.Rule.Registration

/-!
# The first defect of a list of rules

Rules are looked over in their order, and the table of a rule from its first entry to its
last, with what was met so far at hand. What such a pass goes over without a word can be
said without the pass: known categories of which no two are the same (`Listable`), and rules
that have an id of their own and a listable table (`WellFormed`).

The two passes work alike. They go over what is in order and only remember it
(`checkCategories_append`, `checkRules_append`). A list that is not in order stops being so
at one of its items (`exists_break`), and there the pass stops too, with what is wrong with
that item behind those before it (`Defect`).
-/

namespace SolidityLint

/-- The categories that a rule lists, in the order of its table. -/
def Rule.categories (r : Rule) : List NodeType := r.handlers.map Prod.fst

namespace Registry

/-- What holds of the empty list and not of `xs` stops holding at an item of `xs`. -/
theorem exists_break {α : Type} {P : List α → Prop} {xs : List α} (hnil : P []) (h : ¬ P xs) :
    ∃ before x after, xs = before ++ x :: after ∧ P before ∧ ¬ P (before ++ [x]) := by
  suffices hgeneral : ∀ {met : List α}, P met → ¬ P (met ++ xs) →
      ∃ before x after, xs = before ++ x :: after ∧ P (met ++ before) ∧
        ¬ P (met ++ before ++ [x]) from hgeneral hnil h
  clear hnil h
  induction xs with
  | nil =>
      intro met hmet hxs
      rw [List.append_nil] at hxs
      exact absurd hmet hxs
  | cons x xs ih =>
      intro met hmet hxs
      by_cases hx : P (met ++ [x])
      · rw [List.append_cons] at hxs
        obtain ⟨before, y, after, rfl, hbefore, hy⟩ := ih hx hxs
        rw [← List.append_cons] at hbefore hy
        exact ⟨x :: before, y, after, rfl, hbefore, hy⟩
      · refine ⟨[], x, xs, rfl, ?_, ?_⟩
        · rwa [List.append_nil]
        · rwa [List.append_nil]

-- ── Tables ───────────────────────────────────────────────────────────────────

/-- Categories that a rule can list: all are known, and no two are the same. -/
structure Listable (ts : List NodeType) : Prop where
  known : NodeType.unknown ∉ ts
  nodup : ts.Nodup

theorem listable_nil : Listable [] := ⟨List.not_mem_nil, List.nodup_nil⟩

/-- A known category that is not listed yet can be listed next. -/
theorem Listable.concat {ts : List NodeType} {t : NodeType} (h : Listable ts)
    (hknown : t ≠ .unknown) (ht : t ∉ ts) : Listable (ts ++ [t]) where
  known hmem := by
    rcases List.mem_append.mp hmem with hmem | hmem
    · exact h.known hmem
    · exact hknown (List.mem_singleton.mp hmem).symm
  nodup := by
    refine List.nodup_append.mpr ⟨h.nodup, List.pairwise_singleton _ _, ?_⟩
    rintro u hu w hw rfl
    rw [List.mem_singleton.mp hw] at hu
    exact ht hu

/-- Looking over categories finds nothing wrong if they can be listed and none was listed
    before. -/
theorem checkCategories_eq_ok_iff {id : String} {ts before : List NodeType} :
    checkCategories id before ts = .ok () ↔ Listable ts ∧ ∀ t ∈ ts, t ∉ before := by
  induction ts generalizing before with
  | nil => exact ⟨fun _ => ⟨listable_nil, nofun⟩, fun _ => rfl⟩
  | cons t ts ih =>
      rw [checkCategories, List.forall_mem_cons]
      by_cases hunknown : t = .unknown
      · rw [if_pos hunknown]
        refine ⟨nofun, fun h => ?_⟩
        exact absurd (hunknown ▸ List.mem_cons_self) h.1.known
      rw [if_neg hunknown]
      by_cases hmem : t ∈ before
      · rw [if_pos hmem]
        exact ⟨nofun, fun h => absurd hmem h.2.1⟩
      rw [if_neg hmem, ih]
      constructor
      · rintro ⟨⟨hknown, hnodup⟩, hnew⟩
        refine ⟨⟨?_, List.nodup_cons.mpr ⟨?_, hnodup⟩⟩, hmem, ?_⟩
        · intro h
          rcases List.mem_cons.mp h with h | h
          · exact hunknown h.symm
          · exact hknown h
        · intro ht
          exact hnew t ht List.mem_cons_self
        · intro u hu hbefore
          exact hnew u hu (List.mem_cons_of_mem t hbefore)
      · rintro ⟨⟨hknown, hnodup⟩, -, hnew⟩
        obtain ⟨ht, hts⟩ := List.nodup_cons.mp hnodup
        refine ⟨⟨fun h => hknown (List.mem_cons_of_mem t h), hts⟩, ?_⟩
        intro u hu hbefore
        rcases List.mem_cons.mp hbefore with rfl | hbefore
        · exact ht hu
        · exact hnew u hu hbefore

/-- What is in order is gone over and remembered. -/
theorem checkCategories_append {id : String} {before ts : List NodeType}
    (h : checkCategories id before ts = .ok ()) (us : List NodeType) :
    checkCategories id before (ts ++ us) = checkCategories id (ts.reverse ++ before) us := by
  induction ts generalizing before with
  | nil => rfl
  | cons t ts ih =>
      rw [checkCategories] at h
      rw [List.cons_append, checkCategories]
      by_cases hunknown : t = .unknown
      · rw [if_pos hunknown] at h
        exact nomatch h
      rw [if_neg hunknown] at h ⊢
      by_cases hmem : t ∈ before
      · rw [if_pos hmem] at h
        exact nomatch h
      rw [if_neg hmem] at h ⊢
      rw [ih h, List.reverse_cons, List.append_assoc]
      rfl

/-- The check passes over categories that may be listed, and keeps them as seen. -/
theorem checkCategories_of_listable {id : String} {ts : List NodeType} (h : Listable ts)
    (us : List NodeType) :
    checkCategories id [] (ts ++ us) = checkCategories id ts.reverse us := by
  have hok : checkCategories id [] ts = .ok () :=
    checkCategories_eq_ok_iff.mpr ⟨h, fun _ _ => List.not_mem_nil⟩
  rw [checkCategories_append hok, List.append_nil]

theorem checkRule_of_id_ne {r : Rule} (h : r.descriptor.id ≠ "") :
    checkRule r = checkCategories r.descriptor.id [] r.categories :=
  if_pos (decide_eq_true h)

/-- A rule without an id is rejected before its table is looked at. -/
theorem checkRule_of_id_eq {r : Rule} (h : r.descriptor.id = "") :
    checkRule r = .error (.missingRuleId r.description) :=
  if_neg (by rw [Descriptor.isNamed, decide_eq_true_iff]; exact fun hne => hne h)

/-- A rule passes by itself if it has an id and a listable table. -/
theorem checkRule_eq_ok_iff {r : Rule} :
    checkRule r = .ok () ↔ r.descriptor.id ≠ "" ∧ Listable r.categories := by
  by_cases hid : r.descriptor.id = ""
  · rw [checkRule_of_id_eq hid]
    exact ⟨nofun, fun h => absurd hid h.1⟩
  · rw [checkRule_of_id_ne hid, checkCategories_eq_ok_iff]
    constructor
    · intro h
      exact ⟨hid, h.1⟩
    · intro h
      exact ⟨h.2, fun _ _ => List.not_mem_nil⟩

-- ── Lists of rules ───────────────────────────────────────────────────────────

/-- Rules that can be registered together, said without looking them over. -/
structure WellFormed (rules : List Rule) : Prop where
  /-- Every rule has an id. -/
  named : ∀ r ∈ rules, r.descriptor.id ≠ ""
  /-- No rule lists the category of unknown nodes. -/
  known : ∀ r ∈ rules, NodeType.unknown ∉ r.categories
  /-- No rule lists a category twice. -/
  nodup_categories : ∀ r ∈ rules, r.categories.Nodup
  /-- No two rules have the same id. -/
  nodup_ids : (ids rules).Nodup

/-- **The check accepts just the well-formed lists of rules.** -/
theorem registrable_iff_wellFormed {rules : List Rule} : Registrable rules ↔ WellFormed rules := by
  constructor
  · rintro ⟨hchecked, hnodup⟩
    have hsound := fun r hr => checkRule_eq_ok_iff.mp (hchecked r hr)
    exact ⟨fun r hr => (hsound r hr).1, fun r hr => (hsound r hr).2.known,
      fun r hr => (hsound r hr).2.nodup, hnodup⟩
  · rintro ⟨hnamed, hknown, hcategories, hnodup⟩
    exact ⟨fun r hr => checkRule_eq_ok_iff.mpr ⟨hnamed r hr, hknown r hr, hcategories r hr⟩, hnodup⟩

namespace WellFormed

theorem nil : WellFormed [] := ⟨nofun, nofun, nofun, List.nodup_nil⟩

theorem take {rules : List Rule} (h : WellFormed rules) (k : Nat) : WellFormed (rules.take k) where
  named r hr := h.named r (List.mem_of_mem_take hr)
  known r hr := h.known r (List.mem_of_mem_take hr)
  nodup_categories r hr := h.nodup_categories r (List.mem_of_mem_take hr)
  nodup_ids := h.nodup_ids.sublist ((List.take_sublist k rules).map _)

/-- One rule more is in order if it is so by itself and brings an id of its own. -/
theorem concat {rules : List Rule} {r : Rule} (h : WellFormed rules) (hnamed : r.descriptor.id ≠ "")
    (hr : Listable r.categories) (hid : r.descriptor.id ∉ ids rules) :
    WellFormed (rules ++ [r]) where
  named := List.forall_mem_append.mpr ⟨h.named, List.forall_mem_singleton.mpr hnamed⟩
  known := List.forall_mem_append.mpr ⟨h.known, List.forall_mem_singleton.mpr hr.known⟩
  nodup_categories :=
    List.forall_mem_append.mpr ⟨h.nodup_categories, List.forall_mem_singleton.mpr hr.nodup⟩
  nodup_ids := by
    rw [ids, List.map_append]
    refine List.nodup_append.mpr ⟨h.nodup_ids, List.pairwise_singleton _ _, ?_⟩
    rintro a ha b hb rfl
    rw [List.mem_singleton.mp hb] at ha
    exact hid ha

end WellFormed

/-- Rules that are in order are gone over, and their ids are remembered. -/
theorem checkRules_append {before : List String} {rules : List Rule}
    (h : checkRules before rules = .ok ()) (rest : List Rule) :
    checkRules before (rules ++ rest) = checkRules ((ids rules).reverse ++ before) rest := by
  induction rules generalizing before with
  | nil => rfl
  | cons r rules ih =>
      rw [checkRules] at h
      rw [List.cons_append, checkRules]
      cases hr : checkRule r with
      | error e =>
          rw [hr] at h
          cases h
      | ok u =>
          rw [hr] at h
          by_cases hmem : r.descriptor.id ∈ before
          · simp only [if_pos hmem] at h
            cases h
          · simp only [if_neg hmem] at h ⊢
            rw [ih h, ids_cons, List.reverse_cons, List.append_assoc]
            rfl

/-- The check passes over well-formed rules, and keeps their ids as seen. -/
theorem checkRules_of_wellFormed {rules : List Rule} (h : WellFormed rules) (rest : List Rule) :
    checkRules [] (rules ++ rest) = checkRules (ids rules).reverse rest := by
  obtain ⟨hchecked, hnodup⟩ := registrable_iff_wellFormed.mpr h
  have hok : checkRules [] rules = .ok () :=
    checkRules_eq_ok_iff.mpr ⟨hchecked, hnodup, fun _ _ => List.not_mem_nil⟩
  rw [checkRules_append hok, List.append_nil]

-- ── What is wrong with a rule ────────────────────────────────────────────────

/-- What is wrong with a rule behind other rules. A missing id comes before the table, of the
    table the first entry that is unknown or repeats an earlier one counts, and an id that an
    earlier rule has comes last. -/
inductive Defect (before : List Rule) (r : Rule) : RegistryError → Prop where
  | unnamed (hid : r.descriptor.id = "") : Defect before r (.missingRuleId r.description)
  | unknownCategory (hid : r.descriptor.id ≠ "") {ts us : List NodeType}
      (hcategories : r.categories = ts ++ .unknown :: us) (hts : Listable ts) :
      Defect before r (.unknownNodeType r.descriptor.id)
  | repeatedCategory (hid : r.descriptor.id ≠ "") {ts us : List NodeType} {t : NodeType}
      (hcategories : r.categories = ts ++ t :: us) (hts : Listable ts) (ht : t ∈ ts) :
      Defect before r (.duplicateHandler r.descriptor.id t)
  | repeatedId (hid : r.descriptor.id ≠ "") (hcategories : Listable r.categories)
      (hmem : r.descriptor.id ∈ ids before) : Defect before r (.duplicateRuleId r.descriptor.id)

/-- The pass over the rules stops at the first defect, whatever comes after it. -/
theorem build_of_defect {before : List Rule} {r : Rule} {e : RegistryError}
    (hbefore : WellFormed before) (h : Defect before r e) (after : List Rule) :
    build (before ++ r :: after) = .error e := by
  have hcheck : checkRules (ids before).reverse (r :: after) = .error e := by
    rw [checkRules]
    cases h with
    | unnamed hid => rw [checkRule_of_id_eq hid]
    | unknownCategory hid hcategories hts =>
        rw [checkRule_of_id_ne hid, hcategories, checkCategories_of_listable hts, checkCategories,
          if_pos rfl]
    | repeatedCategory hid hcategories hts ht =>
        have hknown : _ ≠ NodeType.unknown := fun heq => hts.known (heq ▸ ht)
        rw [checkRule_of_id_ne hid, hcategories, checkCategories_of_listable hts, checkCategories,
          if_neg hknown, if_pos (List.mem_reverse.mpr ht)]
    | repeatedId hid hcategories hmem =>
        rw [checkRule_eq_ok_iff.mpr ⟨hid, hcategories⟩]
        exact if_pos (List.mem_reverse.mpr hmem)
  rw [build, checkRules_of_wellFormed hbefore, hcheck]

/-- A rule behind which the rules are no longer in order has a defect. -/
theorem exists_defect {before : List Rule} {r : Rule} (hbefore : WellFormed before)
    (h : ¬ WellFormed (before ++ [r])) : ∃ e, Defect before r e := by
  by_cases hid : r.descriptor.id = ""
  · exact ⟨_, .unnamed hid⟩
  by_cases hcategories : Listable r.categories
  · by_cases hmem : r.descriptor.id ∈ ids before
    · exact ⟨_, .repeatedId hid hcategories hmem⟩
    · exact absurd (hbefore.concat hid hcategories hmem) h
  · obtain ⟨ts, t, us, heq, hts, hbreak⟩ := exists_break listable_nil hcategories
    by_cases hunknown : t = .unknown
    · subst hunknown
      exact ⟨_, .unknownCategory hid heq hts⟩
    · by_cases ht : t ∈ ts
      · exact ⟨_, .repeatedCategory hid heq hts ht⟩
      · exact absurd (hts.concat hunknown ht) hbreak

/-- **Validation accepts exactly the rules that are in order, and reports the first defect.**
    Rules are registered if and only if all have an id, no table lists the category of
    unknown nodes or a category twice, and no two rules have the same id; they are then kept
    as they are. Any other list is refused for its first rule with which the rules up to
    there are not in order, and the error is the defect of that rule. -/
theorem build_reports_first_defect (rules : List Rule) :
    (∀ g, build rules = .ok g ↔ WellFormed rules ∧ g = ⟨rules⟩) ∧
      ∀ e, build rules = .error e ↔
        ∃ i r, rules[i]? = some r ∧
          (WellFormed (rules.take i) ∧ ¬ WellFormed (rules.take (i + 1))) ∧
          (∀ j, WellFormed (rules.take j) ∧ ¬ WellFormed (rules.take (j + 1)) → i ≤ j) ∧
          Defect (rules.take i) r e := by
  have hok : ∀ g, build rules = .ok g ↔ WellFormed rules ∧ g = ⟨rules⟩ := by
    intro g
    rw [← registrable_iff_wellFormed]
    exact build_eq_ok_iff
  refine ⟨hok, fun e => ⟨fun herror => ?_, ?_⟩⟩
  · have hnot : ¬ WellFormed rules := fun h => nomatch herror.symm.trans ((hok _).mpr ⟨h, rfl⟩)
    obtain ⟨before, r, after, rfl, hbefore, hbreak⟩ := exists_break WellFormed.nil hnot
    obtain ⟨e', hdefect⟩ := exists_defect hbefore hbreak
    obtain rfl := Except.error.inj (herror.symm.trans (build_of_defect hbefore hdefect after))
    have htake : (before ++ r :: after).take before.length = before := List.take_left
    have htake' : (before ++ r :: after).take (before.length + 1) = before ++ [r] := by
      rw [List.append_cons, List.take_left' (by rw [List.length_append]; rfl)]
    refine ⟨before.length, r, ?_, ?_, ?_, ?_⟩
    · rw [List.getElem?_append_right (Nat.le_refl _), Nat.sub_self, List.getElem?_cons_zero]
    · rw [htake, htake']
      exact ⟨hbefore, hbreak⟩
    · rintro j ⟨-, hj⟩
      -- what ends before `r` is a part of the rules before it
      refine Nat.le_of_not_lt fun hlt => hj ?_
      have hpart := hbefore.take (j + 1)
      rw [← htake, List.take_take, Nat.min_eq_left hlt] at hpart
      exact hpart
    · rw [htake]
      exact hdefect
  · rintro ⟨i, r, hr, ⟨hbefore, -⟩, -, hdefect⟩
    obtain ⟨hi, rfl⟩ := List.getElem?_eq_some_iff.mp hr
    have hsplit : rules.take i ++ rules[i] :: rules.drop (i + 1) = rules := by
      rw [← List.drop_eq_getElem_cons hi, List.take_append_drop]
    rw [← hsplit]
    exact build_of_defect hbefore hdefect _

-- the second rule has the id of the first, but what its table lists twice comes before that
example (h : Handler) :
    build [{ descriptor := ⟨"a", false⟩, handlers := [] },
        { descriptor := ⟨"a", false⟩, handlers := [(.block, h), (.mapping, h), (.block, h)] },
        { descriptor := ⟨"", false⟩, handlers := [] }]
      = .error (.duplicateHandler "a" .block) := rfl

end Registry

end SolidityLint
