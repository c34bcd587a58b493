import SolidityLint.Path.Segment

/-!
# Cutting and joining texts at slashes

The pieces of a text hold no slash, and pieces that hold no slash are found again when they
are joined and the text is cut. So a path and the list of its pieces are two forms of one
thing, and the laws of paths can be stated on lists.
-/

namespace SolidityLint.Path

/-- A segment of a split text has no slash in it. -/
theorem not_slash_mem_of_mem_split {cs : List Char} {s : Segment} (hs : s ∈ split cs) :
    '/' ∉ s := by
  induction cs generalizing s with
  | nil =>
      obtain rfl := List.mem_singleton.mp hs
      exact List.not_mem_nil
  | cons c cs ih =>
      rw [split] at hs
      by_cases hc : c = '/'
      · rw [if_pos hc] at hs
        rcases List.mem_cons.mp hs with rfl | hs
        · exact List.not_mem_nil
        · exact ih hs
      · rw [if_neg hc] at hs
        cases hsplit : split cs with
        | nil => exact absurd hsplit (split_ne_nil cs)
        | cons t rest =>
            rw [hsplit] at hs ih
            rcases List.mem_cons.mp hs with rfl | hs
            · intro hmem
              rcases List.mem_cons.mp hmem with h | h
              · exact hc h.symm
              · exact ih List.mem_cons_self h
            · exact ih (List.mem_cons_of_mem t hs)

theorem mem_join {segments : List Segment} {c : Char} (hc : c ∈ join segments) :
    c = '/' ∨ ∃ s ∈ segments, c ∈ s := by
  induction segments with
  | nil => exact nomatch hc
  | cons s rest ih =>
      cases rest with
      | nil => exact .inr ⟨s, List.mem_cons_self, hc⟩
      | cons t rest =>
          rcases List.mem_append.mp hc with h | h
          · exact .inr ⟨s, List.mem_cons_self, h⟩
          · rcases List.mem_cons.mp h with rfl | h
            · exact .inl rfl
            · rcases ih h with hslash | ⟨u, hu, hcu⟩
              · exact .inl hslash
              · exact .inr ⟨u, List.mem_cons_of_mem s hu, hcu⟩

theorem mem_join_of_mem {segments : List Segment} {s : Segment} {c : Char} (hs : s ∈ segments)
    (hc : c ∈ s) : c ∈ join segments := by
  induction segments with
  | nil => exact nomatch hs
  | cons t rest ih =>
      cases rest with
      | nil =>
          obtain rfl := List.mem_singleton.mp hs
          exact hc
      | cons u rest =>
          refine List.mem_append.mpr ?_
          rcases List.mem_cons.mp hs with rfl | hs
          · exact .inl hc
          · exact .inr (List.mem_cons_of_mem _ (ih hs))

/-- Whatever stands in a piece stands in the text. -/
theorem mem_of_mem_split {cs : List Char} {s : Segment} {c : Char} (hs : s ∈ split cs)
    (hc : c ∈ s) : c ∈ cs := by
  rw [← join_split cs]
  exact mem_join_of_mem hs hc

theorem split_of_not_slash_mem {s : Segment} (h : '/' ∉ s) : split s = [s] := by
  induction s with
  | nil => rfl
  | cons c cs ih =>
      rw [List.mem_cons, not_or] at h
      obtain ⟨hc, hcs⟩ := h
      rw [split, if_neg (Ne.symm hc), ih hcs]

/-- The first segment ends at the first slash. -/
theorem split_append_slash {s : Segment} (h : '/' ∉ s) (cs : List Char) :
    split (s ++ '/' :: cs) = s :: split cs := by
  induction s with
  | nil => rw [List.nil_append, split, if_pos rfl]
  | cons c s ih =>
      rw [List.mem_cons, not_or] at h
      obtain ⟨hc, hs⟩ := h
      rw [List.cons_append, split, if_neg (Ne.symm hc), ih hs]

/-- **Pieces without slashes are found again** when the text they make up is cut. -/
theorem split_join {segments : List Segment} (hne : segments ≠ [])
    (h : ∀ s ∈ segments, '/' ∉ s) : split (join segments) = segments := by
  induction segments with
  | nil => exact absurd rfl hne
  | cons s rest ih =>
      obtain ⟨hs, hrest⟩ := List.forall_mem_cons.mp h
      cases rest with
      | nil => exact split_of_not_slash_mem hs
      | cons t rest =>
          rw [join, split_append_slash hs, ih (List.cons_ne_nil t rest) hrest]

end SolidityLint.Path
