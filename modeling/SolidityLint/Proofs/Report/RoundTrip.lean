import SolidityLint.Proofs.Json.RoundTrip
import SolidityLint.Report.Render

/-!
# Reports, written and read back

A record is an object that lists its keys with their values, and its keys are all
different, so each is found again with its value (`record?_zip`). Places, violations and
reports are records of records, and what they hold are texts and natural numbers of 64
bits, so the text of a report is read back as the same value and the value as the same
report.
-/

namespace SolidityLint

open Json (Value)

namespace Json.Value

/-- A key that is given once is found with its value. -/
theorem only?_append_cons {key : String} {v : Value} {before after : List (String × Value)}
    (hbefore : ∀ m ∈ before, m.1 ≠ key) (hafter : ∀ m ∈ after, m.1 ≠ key) :
    only? key (before ++ (key, v) :: after) = some v := by
  have hnone : ∀ {ms : List (String × Value)}, (∀ m ∈ ms, m.1 ≠ key) →
      (ms.filter fun m => m.1 = key) = [] := by
    intro ms hms
    refine List.filter_eq_nil_iff.mpr fun m hm => ?_
    simpa using hms m hm
  simp [only?, hnone hbefore, hnone hafter]

/-- The keys of a record are looked up one after the other in all of its members, so the
    induction carries those that have had their turn. -/
theorem mapM_only?_append_zip {keys : List String} {values : List Value} (hkeys : keys.Nodup)
    (hlength : keys.length = values.length) (before : List (String × Value))
    (hbefore : ∀ m ∈ before, m.1 ∉ keys) :
    (keys.mapM fun key => only? key (before ++ keys.zip values)) = some values := by
  induction keys generalizing values before with
  | nil =>
      obtain rfl := List.length_eq_zero_iff.mp hlength.symm
      rfl
  | cons key keys ih =>
      obtain ⟨v, vs, rfl⟩ := List.exists_cons_of_length_eq_add_one hlength.symm
      obtain ⟨hkey, hkeys⟩ := List.nodup_cons.mp hkeys
      have hfirst : only? key (before ++ (key, v) :: keys.zip vs) = some v := by
        refine only?_append_cons (fun m hm heq => ?_) (fun m hm heq => ?_)
        · exact hbefore m hm (heq ▸ List.mem_cons_self)
        · exact hkey (heq ▸ (List.of_mem_zip hm).1)
      have hbefore' : ∀ m ∈ before ++ [(key, v)], m.1 ∉ keys := by
        intro m hm hmem
        rcases List.mem_append.mp hm with hm | hm
        · exact hbefore m hm (List.mem_cons_of_mem key hmem)
        · rw [List.mem_singleton.mp hm] at hmem
          exact hkey hmem
      have hrest := ih hkeys (Nat.succ.inj hlength) (before ++ [(key, v)]) hbefore'
      rw [List.append_assoc, List.singleton_append] at hrest
      rw [List.zip_cons_cons, List.mapM_cons, hfirst, hrest]
      rfl

/-- What is listed under different keys is found again. -/
theorem record?_zip {keys : List String} {values : List Value} (hkeys : keys.Nodup)
    (hlength : keys.length = values.length) :
    record? keys (.object (keys.zip values)) = some values :=
  mapM_only?_append_zip hkeys hlength [] nofun

end Json.Value

theorem Location.ofValue?_toValue (l : Location) : Location.ofValue? l.toValue = some l := by
  rw [ofValue?, toValue, Value.record?_zip (by decide) rfl]
  rfl

theorem Violation.ofValue?_toValue (v : Violation) : Violation.ofValue? v.toValue = some v := by
  rw [ofValue?, toValue, Value.record?_zip (by decide) rfl]
  simp [Value.text?, Location.ofValue?_toValue]

/-- **A report is read back from its value.** -/
theorem Report.ofValue?_toValue (r : Report) : Report.ofValue? r.toValue = some r := by
  have hviolations := Outcome.mapM_map_eq_some Violation.ofValue?_toValue r.violations
  rw [ofValue?, toValue, Value.record?_zip (by decide) rfl]
  simp [Value.items?, Value.natural?, hviolations]

theorem Json.Value.plain_zip {keys : List String} {values : List Value}
    (h : ∀ v ∈ values, v.Plain) : (object (keys.zip values)).Plain :=
  .object fun _ hm => h _ (List.of_mem_zip hm).2

theorem Location.plain_toValue (l : Location) : l.toValue.Plain := by
  refine Value.plain_zip fun v hv => ?_
  simp only [List.mem_cons, List.not_mem_nil, or_false] at hv
  rcases hv with rfl | rfl | rfl | rfl | rfl
  all_goals constructor

theorem Violation.plain_toValue (v : Violation) : v.toValue.Plain := by
  refine Value.plain_zip fun w hw => ?_
  simp only [List.mem_cons, List.not_mem_nil, or_false] at hw
  rcases hw with rfl | rfl | rfl | rfl
  · exact .text _
  · exact .text _
  · exact v.location.plain_toValue
  · exact .text _

/-- The value of a report is made of texts, natural numbers, arrays and objects only. -/
theorem Report.plain_toValue (r : Report) : r.toValue.Plain := by
  refine Value.plain_zip fun w hw => ?_
  simp only [List.mem_cons, List.not_mem_nil, or_false] at hw
  rcases hw with rfl | rfl
  · refine .array fun u hu => ?_
    obtain ⟨v, -, rfl⟩ := List.mem_map.mp hu
    exact v.plain_toValue
  · exact .natural _

/-- The JSON text of a report describes it. -/
theorem Report.ofJson?_pretty_toValue (r : Report) : Report.ofJson? r.toValue.pretty = some r := by
  rw [ofJson?, Json.parse_pretty r.plain_toValue]
  exact r.ofValue?_toValue

/-- **A report is read back from its text**: reading succeeds and yields every violation in
    its order and every field of it, whatever texts and numbers they hold. -/
theorem Report.ofJson_renderJson (r : Report) : Report.ofJson? r.renderJson = some r := by
  rw [renderJson]
  exact r.ofJson?_pretty_toValue

end SolidityLint
