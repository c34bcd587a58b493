import SolidityLint.Rule.Registry

/-!
# Which rules can be registered

Rules are looked over one after the other, with the ids that were met so far at hand. What
comes out does not depend on the order: a list of rules can be registered exactly when each
rule passes by itself and no two have the same id (`Registrable`). So any other order of
the rules can be registered too, and so can every rule alone, and an id tells which rule is
meant.
-/

namespace SolidityLint.Registry

theorem isNamed_of_checkRule {r : Rule} (h : checkRule r = .ok ()) :
    r.descriptor.isNamed = true := by
  rw [checkRule] at h
  by_cases hr : r.descriptor.isNamed = true
  · exact hr
  · rw [if_neg hr] at h
    exact nomatch h

/-- The ids of rules, in their order. -/
def ids (rules : List Rule) : List String := rules.map fun r => r.descriptor.id

theorem ids_cons (r : Rule) (rest : List Rule) : ids (r :: rest) = r.descriptor.id :: ids rest :=
  rfl

/-- Where all keys are different, an item is the only one with its key. -/
theorem filter_key_eq {α κ : Type} [DecidableEq κ] {key : α → κ} {xs : List α}
    (h : (xs.map key).Nodup) {x : α} (hx : x ∈ xs) :
    xs.filter (fun y => decide (key y = key x)) = [x] := by
  induction xs with
  | nil => exact nomatch hx
  | cons y ys ih =>
      obtain ⟨hy, hys⟩ := List.nodup_cons.mp h
      rw [List.filter_cons]
      rcases List.mem_cons.mp hx with rfl | hx
      · rw [if_pos (decide_eq_true rfl)]
        refine congrArg (x :: ·) (List.filter_eq_nil_iff.mpr ?_)
        intro z hz heq
        rw [← of_decide_eq_true heq] at hy
        exact hy (List.mem_map_of_mem hz)
      · have hne : key y ≠ key x := fun heq => hy (heq ▸ List.mem_map_of_mem hx)
        rw [if_neg (by rw [decide_eq_false hne]; exact Bool.false_ne_true)]
        exact ih hys hx

/-- So what is found under a key is the item that has it. -/
theorem find?_key_eq_some_iff {α κ : Type} [DecidableEq κ] {key : α → κ} {xs : List α}
    (h : (xs.map key).Nodup) {k : κ} {x : α} :
    xs.find? (fun y => decide (key y = k)) = some x ↔ x ∈ xs ∧ key x = k := by
  constructor
  · intro hfind
    have hkey := List.find?_some hfind
    exact ⟨List.mem_of_find?_eq_some hfind, of_decide_eq_true hkey⟩
  · rintro ⟨hx, rfl⟩
    rw [← List.head?_filter, filter_key_eq h hx]
    rfl

/-- Looking over rules finds nothing wrong if each passes by itself and its id is neither
    that of another rule nor one that was met before. -/
theorem checkRules_eq_ok_iff {rules : List Rule} {before : List String} :
    checkRules before rules = .ok () ↔
      (∀ r ∈ rules, checkRule r = .ok ()) ∧ (ids rules).Nodup ∧ ∀ id ∈ ids rules, id ∉ before := by
  induction rules generalizing before with
  | nil => exact ⟨fun _ => ⟨nofun, List.nodup_nil, nofun⟩, fun _ => rfl⟩
  | cons r rest ih =>
      rw [checkRules, List.forall_mem_cons, ids_cons, List.nodup_cons, List.forall_mem_cons]
      cases hr : checkRule r with
      | error e => exact ⟨nofun, fun h => nomatch h.1.1⟩
      | ok u =>
          by_cases hmem : r.descriptor.id ∈ before
          · rw [if_pos hmem]
            exact ⟨nofun, fun h => absurd hmem h.2.2.1⟩
          · rw [if_neg hmem, ih]
            -- that the rest avoids the ids met so far now says two things: it avoids those met
            -- before `r`, and the id of `r`
            constructor
            · rintro ⟨hrest, hnodup, hnew⟩
              refine ⟨⟨rfl, hrest⟩, ⟨?_, hnodup⟩, hmem, ?_⟩
              · intro hid
                exact hnew _ hid List.mem_cons_self
              · intro id hid hbefore
                exact hnew id hid (List.mem_cons_of_mem _ hbefore)
            · rintro ⟨⟨-, hrest⟩, ⟨hid, hnodup⟩, -, hnew⟩
              refine ⟨hrest, hnodup, ?_⟩
              intro id hmem' hbefore
              rcases List.mem_cons.mp hbefore with rfl | hbefore
              · exact hid hmem'
              · exact hnew id hmem' hbefore

/-- What a list of rules has to be like to be registered. -/
structure Registrable (rules : List Rule) : Prop where
  /-- Every rule passes by itself. -/
  checked : ∀ r ∈ rules, checkRule r = .ok ()
  /-- Every rule has an id of its own. -/
  nodup_ids : (ids rules).Nodup

/-- **Rules are registered exactly when they can be**, and then as they are. -/
theorem build_eq_ok_iff {rules : List Rule} {g : Registry} :
    build rules = .ok g ↔ Registrable rules ∧ g = ⟨rules⟩ := by
  have hiff : checkRules [] rules = .ok () ↔ Registrable rules := by
    rw [checkRules_eq_ok_iff]
    constructor
    · rintro ⟨hchecked, hnodup, -⟩
      exact ⟨hchecked, hnodup⟩
    · rintro ⟨hchecked, hnodup⟩
      exact ⟨hchecked, hnodup, fun _ _ => List.not_mem_nil⟩
  rw [build, ← hiff]
  cases h : checkRules [] rules with
  | error e => exact ⟨nofun, nofun⟩
  | ok u =>
      constructor
      · intro hg
        exact ⟨rfl, (Except.ok.inj hg).symm⟩
      · rintro ⟨-, rfl⟩
        rfl

namespace Registrable

variable {rules : List Rule}

/-- Rules that can be registered can be so in any order. -/
theorem perm {rules' : List Rule} (h : Registrable rules) (hperm : rules.Perm rules') :
    Registrable rules' where
  checked r hr := h.checked r (hperm.mem_iff.mpr hr)
  nodup_ids := (hperm.map _).nodup_iff.mp h.nodup_ids

theorem singleton (h : Registrable rules) {r : Rule} (hr : r ∈ rules) : Registrable [r] where
  checked r' hr' := by
    rw [List.mem_singleton.mp hr']
    exact h.checked r hr
  nodup_ids := List.pairwise_singleton _ _

/-- Of the rules, the one with the id of a rule is that rule. -/
theorem filter_id_eq (h : Registrable rules) {r : Rule} (hr : r ∈ rules) :
    rules.filter (fun r' => decide (r'.descriptor.id = r.descriptor.id)) = [r] :=
  filter_key_eq h.nodup_ids hr

/-- A rule is found under its own id and under no other. -/
theorem find?_eq_some_iff (h : Registrable rules) {id : String} {r : Rule} :
    (Registry.mk rules).find? id = some r ↔ r ∈ rules ∧ r.descriptor.id = id :=
  find?_key_eq_some_iff h.nodup_ids

/-- Among rules that can be registered an id belongs to one rule. -/
theorem eq_of_id_eq (h : Registrable rules) {r r' : Rule} (hr : r ∈ rules) (hr' : r' ∈ rules)
    (hid : r'.descriptor.id = r.descriptor.id) : r' = r := by
  have hmem : r' ∈ rules.filter fun r' => decide (r'.descriptor.id = r.descriptor.id) :=
    List.mem_filter.mpr ⟨hr', decide_eq_true hid⟩
  rw [h.filter_id_eq hr] at hmem
  exact List.mem_singleton.mp hmem

end Registrable

end SolidityLint.Registry
