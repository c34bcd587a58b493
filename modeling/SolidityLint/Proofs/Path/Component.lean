import SolidityLint.Path.Component
import SolidityLint.Proofs.Path.Segment

/-!
# What does not count in a path

A path is told by its components, and these do not tell every spelling apart. All there is to
it is how the components of a text with a slash come about (`componentsOf_append_slash`): those
of what stands before the slash, where nothing at all stands for the root, and the steps of
what stands behind it. Steps take no notice of empty segments and of `.`, so neither slashes
next to each other, nor a `.` between slashes, nor a slash or `/.` at the end count.
-/

namespace SolidityLint.Path

theorem split_slash_cons (cs : List Char) : split ('/' :: cs) = [] :: split cs :=
  if_pos rfl

/-- A slash separates what stands before it from what stands behind it. -/
theorem split_append (cs ds : List Char) : split (cs ++ '/' :: ds) = split cs ++ split ds := by
  induction cs with
  | nil => exact split_slash_cons ds
  | cons c cs ih =>
      rw [List.cons_append, split, split]
      by_cases hc : c = '/'
      · rw [if_pos hc, if_pos hc, ih, List.cons_append]
      · rw [if_neg hc, if_neg hc, ih]
        cases hsplit : split cs with
        | nil => exact absurd hsplit (split_ne_nil cs)
        | cons s rest => rfl

/-- The steps of a text that stands inside a path. -/
def steps (cs : List Char) : List Component := (split cs).filterMap Component.ofSegment?

/-- The steps before a slash are followed by those behind it. -/
theorem steps_append_slash (cs ds : List Char) :
    steps (cs ++ '/' :: ds) = steps cs ++ steps ds := by
  rw [steps, split_append, List.filterMap_append, steps, steps]

theorem steps_slash_cons (cs : List Char) : steps ('/' :: cs) = steps cs := by
  have hempty : Component.ofSegment? [] = none := rfl
  rw [steps, split_slash_cons, List.filterMap_cons_none hempty, steps]

theorem steps_here_slash (cs : List Char) : steps ('.' :: '/' :: cs) = steps cs :=
  steps_append_slash Segment.here cs

-- ── Where a path starts ──────────────────────────────────────────────────────

theorem componentsOf_slash_cons (cs : List Char) :
    componentsOf ('/' :: cs) = .root :: steps cs := by
  rw [componentsOf, ← steps, steps_slash_cons, split_slash_cons]
  cases hsplit : split cs with
  | nil => exact absurd hsplit (split_ne_nil cs)
  | cons s rest => rfl

/-- Where a path starts that does not start with a slash, and its steps from there. -/
theorem componentsOf_cons_of_ne {c : Char} (hc : c ≠ '/') (cs : List Char) :
    componentsOf (c :: cs)
      = (if (split (c :: cs)).head? = some Segment.here then [.here] else [])
        ++ steps (c :: cs) := by
  have hsplit : ∃ s rest, split (c :: cs) = (c :: s) :: rest := by
    rw [split, if_neg hc]
    cases split cs with
    | nil => exact ⟨[], [], rfl⟩
    | cons s rest => exact ⟨s, rest, rfl⟩
  obtain ⟨s, rest, hsplit⟩ := hsplit
  rw [componentsOf, ← steps, hsplit]
  show (if c :: s = Segment.here then Component.here :: steps (c :: cs) else steps (c :: cs)) = _
  simp only [List.head?_cons, Option.some.injEq]
  by_cases hs : c :: s = Segment.here
  · rw [if_pos hs, if_pos hs, List.singleton_append]
  · rw [if_neg hs, if_neg hs, List.nil_append]

/-- **The components of a path with a slash in it.** -/
theorem componentsOf_append_slash (cs ds : List Char) :
    componentsOf (cs ++ '/' :: ds)
      = (if cs = [] then [.root] else componentsOf cs) ++ steps ds := by
  cases cs with
  | nil => exact componentsOf_slash_cons ds
  | cons c cs =>
      rw [if_neg (List.cons_ne_nil c cs)]
      by_cases hc : c = '/'
      · subst hc
        rw [List.cons_append, componentsOf_slash_cons, componentsOf_slash_cons, steps_append_slash,
          List.cons_append]
      · have hhead : (split (c :: (cs ++ '/' :: ds))).head? = (split (c :: cs)).head? := by
          rw [← List.cons_append, split_append]
          cases hsplit : split (c :: cs) with
          | nil => exact absurd hsplit (split_ne_nil _)
          | cons s rest => rfl
        rw [List.cons_append, componentsOf_cons_of_ne hc, componentsOf_cons_of_ne hc, hhead,
          ← List.cons_append, steps_append_slash, List.append_assoc]

-- ── What does not count ──────────────────────────────────────────────────────

/-- Slashes next to each other count as one. -/
theorem components_slash_slash (p q : String) :
    components (p ++ "//" ++ q) = components (p ++ "/" ++ q) := by
  have hleft : (p ++ "//" ++ q).toList = p.toList ++ '/' :: '/' :: q.toList := by simp
  have hright : (p ++ "/" ++ q).toList = p.toList ++ '/' :: q.toList := by simp
  rw [components, components, hleft, hright, componentsOf_append_slash, componentsOf_append_slash,
    steps_slash_cons]

/-- A `.` between slashes does not count. -/
theorem components_here_slash (p q : String) :
    components (p ++ "/./" ++ q) = components (p ++ "/" ++ q) := by
  have hleft : (p ++ "/./" ++ q).toList = p.toList ++ '/' :: '.' :: '/' :: q.toList := by simp
  have hright : (p ++ "/" ++ q).toList = p.toList ++ '/' :: q.toList := by simp
  rw [components, components, hleft, hright, componentsOf_append_slash, componentsOf_append_slash,
    steps_here_slash]

/-- A slash at the end does not count, unless it stands for the root. -/
theorem components_append_slash {p : String} (h : p ≠ "") :
    components (p ++ "/") = components p := by
  have hne : p.toList ≠ [] := fun hnil => h (String.toList_eq_nil_iff.mp hnil)
  have htext : (p ++ "/").toList = p.toList ++ '/' :: [] := by simp
  rw [components, htext, componentsOf_append_slash, if_neg hne]
  exact List.append_nil _

/-- Nor does `/.` at the end. -/
theorem components_append_here {p : String} (h : p ≠ "") :
    components (p ++ "/.") = components p := by
  have hne : p.toList ≠ [] := fun hnil => h (String.toList_eq_nil_iff.mp hnil)
  have htext : (p ++ "/.").toList = p.toList ++ '/' :: Segment.here := by simp [Segment.here]
  rw [components, htext, componentsOf_append_slash, if_neg hne]
  exact List.append_nil _

end SolidityLint.Path
