import SolidityLint.Proofs.Rule.Setup
import SolidityLint.Proofs.Rule.Validation
import SolidityLint.Rule.Builtin

/-!
# A registry that was built can be used

That a rule has an id is asked twice: once when it is registered, and again whenever it is
set up for a file. The second question matters only for rules that go by another identity
than the one they were registered with. As long as they do not, all rules of a registry can
be set up for every file, and an id finds the rule that has it. If they do, setting up fails
exactly when one of them has no id any more, and the first that has none is named
(`instantiate_eq_error_iff`).

Rules are set up beside a reporter, which may hold anything by then. Setting up adds nothing to
it, whether it succeeds or fails, and does not look at it (`Registry.silent_setUp`).
-/

namespace SolidityLint

namespace Registry

-- ── When rules cannot be set up ──────────────────────────────────────────────

theorem ofRule_of_id_ne (job : Job) {r : Rule} (h : r.descriptor.id ≠ "") :
    Instance.ofRule job r = .ok (Instance.bound job r) :=
  Instance.ofRule_of_isNamed job (decide_eq_true h)

/-- A rule without an id has no instance, and the error shows its description. -/
theorem ofRule_of_id_eq (job : Job) {r : Rule} (h : r.descriptor.id = "") :
    Instance.ofRule job r = .error (.missingRuleId r.description) :=
  if_neg (by rw [Descriptor.isNamed, decide_eq_true_iff]; exact fun hne => hne h)

/-- Setting up stops at the first rule without an id, whatever comes after it. -/
theorem instantiate_eq_error {before : List Rule} {r : Rule}
    (hbefore : ∀ r' ∈ before, r'.descriptor.id ≠ "") (hr : r.descriptor.id = "")
    (after : List Rule) (job : Job) :
    instantiate ⟨before ++ r :: after⟩ job = .error (.missingRuleId r.description) := by
  rw [instantiate_eq, Outcome.mapM_eq_error (ofRule_of_id_eq job hr)]
  · rfl
  · intro r' hr'
    exact ⟨_, ofRule_of_id_ne job (hbefore r' hr')⟩

/-- If all rules have ids, every one of them gets its instance, in order. -/
theorem instantiate_of_named {g : Registry} (h : ∀ r ∈ g.rules, r.descriptor.id ≠ "")
    (job : Job) : g.instantiate job = .ok ⟨g.rules.map (Instance.bound job)⟩ :=
  instantiate_eq_ok_iff.mpr ⟨fun r hr => ofRule_of_id_ne job (h r hr), rfl⟩

/-- **Rules that cannot be set up**: one of them has no id, and the first such rule is named. -/
theorem instantiate_eq_error_iff {g : Registry} {job : Job} {e : SetupError} :
    g.instantiate job = .error e ↔
      ∃ before r after, g.rules = before ++ r :: after ∧ (∀ r' ∈ before, r'.descriptor.id ≠ "") ∧
        r.descriptor.id = "" ∧ e = .missingRuleId r.description := by
  obtain ⟨rules⟩ := g
  constructor
  · intro herror
    have hnot : ¬ ∀ r ∈ rules, r.descriptor.id ≠ "" := fun hnamed =>
      nomatch herror.symm.trans (instantiate_of_named hnamed job)
    obtain ⟨before, r, after, rfl, hbefore, hbreak⟩ :=
      exists_break (P := fun rules : List Rule => ∀ r ∈ rules, r.descriptor.id ≠ "") nofun hnot
    by_cases hr : r.descriptor.id = ""
    · have hnamed := instantiate_eq_error hbefore hr after job
      exact ⟨before, r, after, rfl, hbefore, hr, Except.error.inj (herror.symm.trans hnamed)⟩
    · refine absurd (List.forall_mem_append.mpr ⟨hbefore, ?_⟩) hbreak
      exact List.forall_mem_singleton.mpr hr
  · rintro ⟨before, r, after, hrules, hbefore, hr, rfl⟩
    obtain rfl : rules = before ++ r :: after := hrules
    exact instantiate_eq_error hbefore hr after job

/-- Setting up fails just if some rule has no id. -/
theorem exists_instantiate_eq_error_iff {g : Registry} {job : Job} :
    (∃ e, g.instantiate job = .error e) ↔ ∃ r ∈ g.rules, r.descriptor.id = "" := by
  constructor
  · rintro ⟨e, he⟩
    obtain ⟨before, r, after, hrules, -, hr, -⟩ := instantiate_eq_error_iff.mp he
    refine ⟨r, ?_, hr⟩
    rw [hrules]
    exact List.mem_append_right _ List.mem_cons_self
  · rintro ⟨r, hmem, hr⟩
    cases hset : g.instantiate job with
    | error e => exact ⟨e, rfl⟩
    | ok s =>
        have hok := (instantiate_eq_ok_iff.mp hset).1 r hmem
        exact nomatch hok.symm.trans (ofRule_of_id_eq job hr)

-- ── Rules that go by other identities ────────────────────────────────────────

section Redescribed

variable {g : Registry} {identities : List Descriptor}

theorem descriptors_redescribe (h : identities.length = g.rules.length) :
    (g.redescribe identities).rules.map Rule.descriptor = identities := by
  rw [redescribe, List.map_zipWith]
  refine List.ext_getElem ?_ fun i _ _ => ?_
  · rw [List.length_zipWith, h, Nat.min_self]
  · rw [List.getElem_zipWith]

theorem descriptions_redescribe (h : identities.length = g.rules.length) :
    (g.redescribe identities).rules.map Rule.description = g.rules.map Rule.description := by
  rw [redescribe, List.map_zipWith]
  refine List.ext_getElem ?_ fun i _ _ => ?_
  · rw [List.length_zipWith, h, Nat.min_self, List.length_map]
  · rw [List.getElem_zipWith, List.getElem_map]

theorem exists_redescribed_unnamed_iff (h : identities.length = g.rules.length) :
    (∃ r ∈ (g.redescribe identities).rules, r.descriptor.id = "") ↔
      ∃ d ∈ identities, d.id = "" := by
  constructor
  · rintro ⟨r, hr, hid⟩
    refine ⟨r.descriptor, ?_, hid⟩
    rw [← descriptors_redescribe h]
    exact List.mem_map_of_mem hr
  · rintro ⟨d, hd, hid⟩
    rw [← descriptors_redescribe h] at hd
    obtain ⟨r, hr, rfl⟩ := List.mem_map.mp hd
    exact ⟨r, hr, hid⟩

/-- The first rule whose new identity has no id is named, by the description it always had. -/
theorem instantiate_redescribe_eq_error {before after : List Descriptor} {d : Descriptor}
    {r : Rule} (h : (before ++ d :: after).length = g.rules.length)
    (hbefore : ∀ d' ∈ before, d'.id ≠ "") (hd : d.id = "")
    (hr : g.rules[before.length]? = some r) (job : Job) :
    (g.redescribe (before ++ d :: after)).instantiate job
      = .error (.missingRuleId r.description) := by
  obtain ⟨rs, rest, hrules, rfl, hrest⟩ := List.map_eq_append_iff.mp (descriptors_redescribe h)
  obtain ⟨r', rs', rfl, rfl, rfl⟩ := List.map_eq_cons_iff.mp hrest
  rw [List.length_map] at hr
  have hdescription : r'.description = r.description := by
    have hall : ((rs ++ r' :: rs').map Rule.description)[rs.length]?
        = (g.rules.map Rule.description)[rs.length]? := by
      rw [← hrules, descriptions_redescribe h]
    rw [List.getElem?_map, List.getElem?_map, hr, List.getElem?_append_right (Nat.le_refl _),
      Nat.sub_self] at hall
    exact Option.some.inj hall
  rw [← hdescription]
  refine instantiate_eq_error_iff.mpr ⟨rs, r', rs', hrules, fun r₀ hr₀ => ?_, hd, rfl⟩
  exact hbefore _ (List.mem_map_of_mem hr₀)

end Redescribed

-- ── Registries that were built ───────────────────────────────────────────────

/-- **A registry that was built can be used for every file.** Its rules can be set up, one
    instance a rule and in the order of the rules; the instance of a rule has the id of the
    rule, and leaves the file alone if the rule is not global and the file is to be left
    alone. A rule is found under its own id, and under any other string no rule. If the
    rules go by other identities later on, setting them up fails exactly when one of these
    has no id, with the description of the first rule for which this is so. Whatever a
    reporter holds, setting rules up adds nothing to it. -/
theorem usable_of_build {rules : List Rule} {g : Registry} (h : build rules = .ok g)
    (job : Job) :
    (∃ s, g.instantiate job = .ok s ∧ s.instances.length = rules.length ∧
      ∀ (i : Nat) (r : Rule), rules[i]? = some r → ∃ n : Instance, s.instances[i]? = some n ∧
        n.rule = r ∧ n.context.ruleId = r.descriptor.id ∧
        (n.context.ignored = true ↔
          r.descriptor.isGlobal = false ∧ Ignore.covers job.fileName = true)) ∧
      (∀ id, (∀ (i : Nat) (r : Rule), rules[i]? = some r →
          (g.find? id = some r ↔ id = r.descriptor.id)) ∧
        ((∀ r ∈ rules, id ≠ r.descriptor.id) → g.find? id = none)) ∧
      (∀ identities : List Descriptor, identities.length = rules.length →
        ((∃ e, (g.redescribe identities).instantiate job = .error e) ↔
          ∃ d ∈ identities, d.id = "") ∧
        ∀ before d after r, identities = before ++ d :: after → (∀ d' ∈ before, d'.id ≠ "") →
          d.id = "" → rules[before.length]? = some r →
            (g.redescribe identities).instantiate job = .error (.missingRuleId r.description)) ∧
      ∀ (g' : Registry) (recorded : List Violation),
        (g'.setUp job).run.run recorded = (g'.instantiate job, recorded) := by
  have hset := instantiate_of_build h job
  obtain ⟨hrules, rfl⟩ := build_eq_ok_iff.mp h
  refine ⟨⟨_, hset, List.length_map _, fun i r hr => ?_⟩, fun id => ⟨fun i r hr => ?_, ?_⟩,
    fun identities hlength => ⟨?_, ?_⟩, fun g' => g'.silent_setUp job⟩
  · refine ⟨Instance.bound job r, ?_, rfl, rfl, ?_⟩
    · rw [List.getElem?_map, hr]
      rfl
    · show (!r.descriptor.isGlobal && Ignore.covers job.fileName) = true ↔ _
      rw [Bool.and_eq_true, Bool.not_eq_true']
  · rw [hrules.find?_eq_some_iff]
    exact ⟨fun hfound => hfound.2.symm, fun hid => ⟨List.mem_of_getElem? hr, hid.symm⟩⟩
  · intro hother
    refine Option.eq_none_iff_forall_ne_some.mpr fun r hfound => ?_
    obtain ⟨hr, hid⟩ := hrules.find?_eq_some_iff.mp hfound
    exact hother r hr hid.symm
  · rw [exists_instantiate_eq_error_iff]
    exact exists_redescribed_unnamed_iff hlength
  · rintro before d after r rfl hbefore hd hr
    exact instantiate_redescribe_eq_error hlength hbefore hd hr job

/-- The built-in rules are set up for an ignored file and found by id. Once the second has lost
    its id, setting up fails with its description. -/
theorem usable_of_build_builtin :
    build Rule.builtin = .ok Registry.builtin ∧
      (∃ s, Registry.builtin.instantiate { fileName := "test/a.sol" } = .ok s ∧
        ∃ n : Instance, s.instances[1]? = some n ∧ n.context.ruleId = LeadingUnderscore.id ∧
          n.context.ignored = true) ∧
      Registry.builtin.find? LeadingUnderscore.id = some LeadingUnderscore.rule ∧
      (Registry.builtin.redescribe [⟨"a", true⟩, ⟨"", false⟩]).instantiate
        { fileName := "test/a.sol" }
          = .error (.missingRuleId LeadingUnderscore.rule.description) := by
  obtain ⟨⟨s, hs, -, hinstances⟩, hfind, hredescribe, -⟩ :=
    usable_of_build build_builtin { fileName := "test/a.sol" }
  obtain ⟨n, hn, -, hid, hignored⟩ := hinstances 1 LeadingUnderscore.rule rfl
  refine ⟨build_builtin, ⟨s, hs, n, hn, hid, hignored.mpr ⟨rfl, by decide +kernel⟩⟩, ?_, ?_⟩
  · exact ((hfind _).1 1 _ rfl).mpr rfl
  · refine (hredescribe [⟨"a", true⟩, ⟨"", false⟩] rfl).2 [⟨"a", true⟩] ⟨"", false⟩ [] _ rfl
      ?_ rfl rfl
    exact List.forall_mem_singleton.mpr (by decide)

end Registry

end SolidityLint
