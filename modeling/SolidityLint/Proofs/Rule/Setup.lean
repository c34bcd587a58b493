import SolidityLint.Proofs.Outcome
import SolidityLint.Proofs.Rule.Registration
import SolidityLint.Rule.Instance

/-!
# Setting up the rules of a registry

Rules are set up beside a reporter. Nothing is recorded on the way (`Registry.silent_setUp`), so
what comes of it does not depend on what the reporter holds, and is found by setting up the rules
one by one (`Registry.instantiate_eq`).

A registry that was built holds the rules it was built from, and all of them have an id.
So they can be set up for any file, one instance a rule and in the same order.
-/

namespace SolidityLint

/-- A rule with an id, set up for a file. -/
def Instance.bound (job : Job) (r : Rule) : Instance where
  rule := r
  context :=
    { ruleId := r.descriptor.id
      ignored := r.descriptor.ignores job.fileName
      config := job.config
      source := job.source
      fileName := job.fileName }

theorem Instance.ofRule_of_isNamed (job : Job) {r : Rule} (h : r.descriptor.isNamed = true) :
    Instance.ofRule job r = .ok (Instance.bound job r) := by
  rw [Instance.ofRule, if_pos h]
  rfl

/-- There is only one instance that a rule can have for a job. -/
theorem Instance.eq_bound_of_ofRule {job : Job} {r : Rule} {i : Instance}
    (h : Instance.ofRule job r = .ok i) : i = Instance.bound job r := by
  by_cases hr : r.descriptor.isNamed = true
  · rw [Instance.ofRule_of_isNamed job hr] at h
    exact (Except.ok.inj h).symm
  · rw [Instance.ofRule, if_neg hr] at h
    exact nomatch h

-- ── Beside a reporter ────────────────────────────────────────────────────────

namespace Recording

variable {α β : Type}

/-- What is done beside a reporter has a known outcome and records nothing, whatever was recorded
    before. -/
def Silent (x : ExceptT SetupError Recording α) (outcome : Except SetupError α) : Prop :=
  ∀ recorded, x.run.run recorded = (outcome, recorded)

theorem silent_ofExcept (outcome : Except SetupError α) : Silent (ofExcept outcome) outcome := by
  intro recorded
  cases outcome with
  | error e => rfl
  | ok a => rfl

/-- Two steps that record nothing make one that does not. -/
theorem Silent.bind {x : ExceptT SetupError Recording α} {outcome : Except SetupError α}
    {f : α → ExceptT SetupError Recording β} {g : α → Except SetupError β}
    (hx : Silent x outcome) (hf : ∀ a, Silent (f a) (g a)) :
    Silent (x >>= f) (outcome >>= g) := by
  intro recorded
  rw [ExceptT.run_bind, StateT.run_bind, hx]
  cases outcome with
  | error e => rfl
  | ok a => exact hf a recorded

/-- A pass over a list records nothing if no step does. -/
theorem silent_mapM {f : α → ExceptT SetupError Recording β} {g : α → Except SetupError β}
    (hf : ∀ a, Silent (f a) (g a)) (xs : List α) : Silent (xs.mapM f) (xs.mapM g) := by
  induction xs with
  | nil => exact fun _ => rfl
  | cons x xs ih =>
      rw [List.mapM_cons, List.mapM_cons]
      exact (hf x).bind fun _ => ih.bind fun _ _ => rfl

end Recording

namespace Registry

/-- Setting up a registry records nothing, and comes to what its rules come to one by one. -/
theorem silent_setUp_mapM (g : Registry) (job : Job) :
    Recording.Silent (g.setUp job) ((g.rules.mapM (Instance.ofRule job)).map RuleSet.mk) := by
  have hmap : (g.rules.mapM (Instance.ofRule job)).map RuleSet.mk
      = (g.rules.mapM (Instance.ofRule job) >>= fun instances => .ok ⟨instances⟩) := rfl
  rw [hmap]
  refine (Recording.silent_mapM (fun r => ?_) g.rules).bind fun _ _ => rfl
  exact Recording.silent_ofExcept _

/-- The rules are set up one by one. -/
theorem instantiate_eq (g : Registry) (job : Job) :
    g.instantiate job = (g.rules.mapM (Instance.ofRule job)).map RuleSet.mk :=
  congrArg Prod.fst (g.silent_setUp_mapM job [])

/-- **Setting rules up records nothing**, and what comes of it does not depend on what was
    recorded. -/
theorem silent_setUp (g : Registry) (job : Job) :
    Recording.Silent (g.setUp job) (g.instantiate job) := by
  rw [instantiate_eq]
  exact g.silent_setUp_mapM job

-- ── Rules that can be set up ─────────────────────────────────────────────────

/-- Setting up succeeds if it does for every rule. -/
theorem instantiate_eq_ok_iff {g : Registry} {job : Job} {s : RuleSet} :
    g.instantiate job = .ok s ↔
      (∀ r ∈ g.rules, Instance.ofRule job r = .ok (Instance.bound job r)) ∧
        s = ⟨g.rules.map (Instance.bound job)⟩ := by
  rw [instantiate_eq, Outcome.map_eq_ok_iff]
  constructor
  · rintro ⟨is, his, rfl⟩
    obtain ⟨hall, rfl⟩ := (Outcome.mapM_eq_ok_iff Instance.eq_bound_of_ofRule).mp his
    exact ⟨hall, rfl⟩
  · rintro ⟨hall, rfl⟩
    exact ⟨_, (Outcome.mapM_eq_ok_iff Instance.eq_bound_of_ofRule).mpr ⟨hall, rfl⟩, rfl⟩

/-- Every rule of a built registry can be set up for every file. -/
theorem instantiate_of_build {rules : List Rule} {g : Registry} (h : build rules = .ok g)
    (job : Job) : g.instantiate job = .ok ⟨rules.map (Instance.bound job)⟩ := by
  obtain ⟨hrules, rfl⟩ := build_eq_ok_iff.mp h
  refine instantiate_eq_ok_iff.mpr ⟨fun r hr => ?_, rfl⟩
  exact Instance.ofRule_of_isNamed job (isNamed_of_checkRule (hrules.checked r hr))

end Registry

end SolidityLint
