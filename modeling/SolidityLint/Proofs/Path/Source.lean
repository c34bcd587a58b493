import SolidityLint.Path.Source
import SolidityLint.Proofs.Path.Component

/-!
# Finding the source of a syntax tree

The name of the file a path leads to stands behind a directory, and slashes and `/.` may trail
it (`LeadsTo`). It has an extension if there is a dot in it with something before it, and then
the extension is what stands behind the last dot (`HasExtension`). These are the words of the
laws below; that the name and the extension are found by way of the components and from the end
is the content of `fileNameOf?_eq_some_iff` and `extensionOf?_eq_some_iff`.

The extension of a syntax tree is taken off by two cuts. The first one leaves the dot behind, and
the second looks for the name and its last dot once more. It finds that very dot, whatever other
dots there are (`cutAfterStem_append_dot`), but for one name: of `..json` the first cut leaves
`..`, which is no name at all.
-/

namespace SolidityLint.Path

open Segment (here up)

variable {cs d : List Char} {name extension : Segment}

-- ── Names ────────────────────────────────────────────────────────────────────

/-- A text behind which a name can stand: it is empty or ends with a slash. -/
def IsDirectory (d : List Char) : Prop := d = [] ∨ ∃ d', d = d' ++ ['/']

/-- A segment that names an entry of a directory. -/
structure IsName (s : Segment) : Prop where
  ne_nil : s ≠ []
  ne_here : s ≠ here
  ne_up : s ≠ up
  no_slash : '/' ∉ s

/-- What may stand behind a name and does not count: slashes and `/.`. -/
inductive Trail : List Char → Prop where
  | nil : Trail []
  | slash {t : List Char} (h : Trail t) : Trail ('/' :: t)
  | here {t : List Char} (h : Trail t) : Trail ('/' :: '.' :: t)

/-- A path leads to a file of that name. -/
def LeadsTo (cs : List Char) (name : Segment) : Prop :=
  ∃ d trail, IsDirectory d ∧ IsName name ∧ Trail trail ∧ cs = d ++ name ++ trail

/-- A segment is a name if it is neither empty nor `.` nor `..`. -/
theorem ofSegment?_eq_name_iff {s : Segment} :
    Component.ofSegment? s = some (.name name) ↔ s = name ∧ s ≠ [] ∧ s ≠ here ∧ s ≠ up := by
  rw [Component.ofSegment?]
  by_cases hskip : s = [] ∨ s = here
  · rw [if_pos hskip]
    constructor
    · intro h
      exact nomatch h
    · rintro ⟨-, hnil, hhere, -⟩
      exact absurd hskip (not_or.mpr ⟨hnil, hhere⟩)
  · rw [if_neg hskip]
    obtain ⟨hnil, hhere⟩ := not_or.mp hskip
    by_cases hup : s = up
    · simp [hup]
    · simp [hup, hnil, hhere]

theorem ofSegment?_eq_none {s : Segment} (h : Component.ofSegment? s = none) :
    s = [] ∨ s = here := by
  rw [Component.ofSegment?] at h
  by_cases hskip : s = [] ∨ s = here
  · exact hskip
  · rw [if_neg hskip] at h
    split at h
    · exact nomatch h
    · exact nomatch h

theorem IsName.steps_eq (h : IsName name) : steps name = [.name name] := by
  have hstep := ofSegment?_eq_name_iff.mpr ⟨rfl, h.ne_nil, h.ne_here, h.ne_up⟩
  rw [steps, split_of_not_slash_mem h.no_slash, List.filterMap_cons_some hstep, List.filterMap_nil]

theorem Trail.steps_eq {t : List Char} (h : Trail t) : steps t = [] := by
  induction h with
  | nil => rfl
  | slash _ ih => rw [steps_slash_cons, ih]
  | @here t ht ih =>
      rw [steps_slash_cons]
      cases ht with
      | nil => rfl
      | slash | here =>
          rw [steps_here_slash, ← steps_slash_cons]
          exact ih

/-- What may trail a file name adds no component. -/
theorem Trail.componentsOf_append {t : List Char} (h : Trail t) (hcs : cs ≠ []) :
    componentsOf (cs ++ t) = componentsOf cs := by
  have hsteps := h.steps_eq
  cases h with
  | nil => rw [List.append_nil]
  | slash | here =>
      rw [steps_slash_cons] at hsteps
      rw [componentsOf_append_slash, if_neg hcs, hsteps, List.append_nil]

/-- The steps of a path follow where it starts, which is not at a name. -/
theorem exists_start (cs : List Char) :
    ∃ start, componentsOf cs = start ++ steps cs ∧ ∀ s, Component.name s ∉ start := by
  cases cs with
  | nil => exact ⟨[], rfl, by simp⟩
  | cons c cs =>
      by_cases hc : c = '/'
      · subst hc
        exact ⟨[.root], by rw [componentsOf_slash_cons, steps_slash_cons]; rfl, by simp⟩
      · refine ⟨_, componentsOf_cons_of_ne hc cs, ?_⟩
        intro s
        split
        · simp
        · simp

/-- A name behind a directory is the last component. -/
theorem getLast?_componentsOf_append (hd : IsDirectory d) (h : IsName name) :
    (componentsOf (d ++ name)).getLast? = some (.name name) := by
  rcases hd with rfl | ⟨d', rfl⟩
  · obtain ⟨start, hstart, -⟩ := exists_start name
    rw [List.nil_append, hstart, h.steps_eq, List.getLast?_concat]
  · rw [List.append_assoc, List.singleton_append, componentsOf_append_slash, h.steps_eq,
      List.getLast?_concat]

-- ── From the components back to the text ─────────────────────────────────────

theorem join_cons (s : Segment) (after : List Segment) :
    join (s :: after) = s ++ after.flatMap ('/' :: ·) := by
  induction after generalizing s with
  | nil => simp [join]
  | cons t after ih => rw [join, ih, List.flatMap_cons, List.cons_append]

/-- Joined segments, seen from one in the middle. -/
theorem join_append_cons (before : List Segment) (s : Segment) (after : List Segment) :
    join (before ++ s :: after)
      = before.flatMap (· ++ ['/']) ++ s ++ after.flatMap ('/' :: ·) := by
  induction before with
  | nil => exact join_cons s after
  | cons t before ih =>
      have hjoin : join (t :: (before ++ s :: after))
          = t ++ '/' :: join (before ++ s :: after) := by
        cases before with
        | nil => rfl
        | cons u before => rfl
      rw [List.cons_append, hjoin, ih]
      simp

/-- Segments with a slash behind each are a directory text. -/
theorem isDirectory_flatMap (before : List Segment) :
    IsDirectory (before.flatMap (· ++ ['/'])) := by
  rcases List.eq_nil_or_concat before with rfl | ⟨before, s, rfl⟩
  · exact .inl rfl
  · exact .inr ⟨before.flatMap (· ++ ['/']) ++ s, by simp⟩

/-- Empty segments and `.`, each behind a slash, may trail a file name. -/
theorem trail_flatMap {after : List Segment} (h : ∀ s ∈ after, s = [] ∨ s = here) :
    Trail (after.flatMap ('/' :: ·)) := by
  induction after with
  | nil => exact .nil
  | cons s after ih =>
      obtain ⟨hs, hafter⟩ := List.forall_mem_cons.mp h
      rcases hs with rfl | rfl
      · exact .slash (ih hafter)
      · exact .here (ih hafter)

/-- The file name is the last component, if that is a name. -/
theorem fileNameOf?_eq_some_iff_getLast? :
    fileNameOf? cs = some name ↔ (componentsOf cs).getLast? = some (.name name) := by
  rw [fileNameOf?]
  split
  · next s hs => simp [hs]
  · next hno =>
    constructor
    · intro h
      exact nomatch h
    · intro h
      exact absurd h (hno name)

/-- A path with a file name is a directory text, the name and what may trail it. The name is the
    last segment that is a step. -/
theorem leadsTo_of_fileNameOf? (h : fileNameOf? cs = some name) : LeadsTo cs name := by
  have hsteps : (steps cs).getLast? = some (.name name) := by
    obtain ⟨start, hstart, hno⟩ := exists_start cs
    have hlast := fileNameOf?_eq_some_iff_getLast?.mp h
    rw [hstart, List.getLast?_append] at hlast
    cases hsteps : (steps cs).getLast? with
    | none =>
        rw [hsteps, Option.none_or] at hlast
        exact absurd (List.mem_of_getLast? hlast) (hno name)
    | some last =>
        rw [hsteps, Option.some_or] at hlast
        exact hlast
  rw [steps, List.getLast?_filterMap, List.findSome?_eq_some_iff] at hsteps
  obtain ⟨after, s, before, hreverse, hs, hafter⟩ := hsteps
  obtain ⟨rfl, hnil, hhere, hup⟩ := ofSegment?_eq_name_iff.mp hs
  have hsplit : split cs = before.reverse ++ s :: after.reverse := by
    rw [← List.reverse_reverse (split cs), hreverse]
    simp
  have hmem : s ∈ split cs := hsplit ▸ List.mem_append_right _ List.mem_cons_self
  have htrail : Trail (after.reverse.flatMap ('/' :: ·)) := by
    refine trail_flatMap fun t ht => ?_
    exact ofSegment?_eq_none (hafter t (List.mem_reverse.mp ht))
  refine ⟨_, _, isDirectory_flatMap before.reverse,
    ⟨hnil, hhere, hup, not_slash_mem_of_mem_split hmem⟩, htrail, ?_⟩
  rw [← join_append_cons, ← hsplit, join_split]

/-- **The last component is the name that the text leads to.** -/
theorem fileNameOf?_eq_some_iff : fileNameOf? cs = some name ↔ LeadsTo cs name := by
  constructor
  · exact leadsTo_of_fileNameOf?
  · rintro ⟨d, trail, hd, hname, htrail, rfl⟩
    have hne : d ++ name ≠ [] := fun hnil => hname.ne_nil (List.append_eq_nil_iff.mp hnil).2
    rw [fileNameOf?_eq_some_iff_getLast?, htrail.componentsOf_append hne,
      getLast?_componentsOf_append hd hname]

/-- A path leads to one name only. -/
theorem LeadsTo.unique {name' : Segment} (h : LeadsTo cs name) (h' : LeadsTo cs name') :
    name = name' := by
  have hfile := fileNameOf?_eq_some_iff.mpr h
  rw [fileNameOf?_eq_some_iff.mpr h'] at hfile
  exact (Option.some.inj hfile).symm

-- ── Extensions ───────────────────────────────────────────────────────────────

/-- A name has an extension: it stands behind the last dot, and something before that. -/
def HasExtension (name extension : Segment) : Prop :=
  ∃ stem, stem ≠ [] ∧ '.' ∉ extension ∧ name = stem ++ '.' :: extension

theorem takeWhile_reverse {stem : Segment} (h : '.' ∉ extension) :
    (stem ++ '.' :: extension).reverse.takeWhile (· ≠ '.') = extension.reverse := by
  have hplain : ∀ c ∈ extension.reverse, decide (c ≠ '.') = true := by
    intro c hc
    refine decide_eq_true fun heq => ?_
    exact h (heq ▸ List.mem_reverse.mp hc)
  rw [List.reverse_append, List.reverse_cons, List.append_assoc,
    List.takeWhile_append_of_pos hplain]
  simp

/-- A name is cut at its last dot, unless the dot stands at its start. -/
theorem splitExtension_append (stem : Segment) (h : '.' ∉ extension)
    (hup : stem ++ '.' :: extension ≠ up) :
    splitExtension (stem ++ '.' :: extension)
      = if stem = [] then (stem ++ '.' :: extension, none) else (stem, some extension) := by
  have hlength : (stem ++ '.' :: extension).length - extension.length - 1 = stem.length := by
    simp only [List.length_append, List.length_cons]
    omega
  have hne : extension.length ≠ (stem ++ '.' :: extension).length := by
    simp only [List.length_append, List.length_cons]
    omega
  simp only [splitExtension, if_neg hup, takeWhile_reverse h, List.reverse_reverse, hlength,
    List.take_left, hne, false_or]

theorem splitExtension_of_not_mem (h : '.' ∉ name) : splitExtension name = (name, none) := by
  have hplain : ∀ c ∈ name.reverse, decide (c ≠ '.') = true := by
    intro c hc
    refine decide_eq_true fun heq => ?_
    exact h (heq ▸ List.mem_reverse.mp hc)
  have hwhile : name.reverse.takeWhile (· ≠ '.') = name.reverse := by
    rw [← List.append_nil name.reverse, List.takeWhile_append_of_pos hplain]
    rfl
  have hup : name ≠ up := by
    rintro rfl
    exact h List.mem_cons_self
  rw [splitExtension, if_neg hup, hwhile, List.reverse_reverse]
  exact if_pos (.inl rfl)

/-- A name with a dot is cut at the last one. -/
theorem exists_append_dot (h : '.' ∈ name) :
    ∃ stem extension, '.' ∉ extension ∧ name = stem ++ '.' :: extension := by
  obtain ⟨after, before, hreverse, hafter⟩ :=
    List.eq_append_cons_of_mem (List.mem_reverse.mpr h)
  refine ⟨before.reverse, after.reverse, fun hmem => hafter (List.mem_reverse.mp hmem), ?_⟩
  rw [← List.reverse_reverse name, hreverse]
  simp

/-- **What is cut off a name is its extension.** -/
theorem splitExtension_eq_some_iff (hup : name ≠ up) :
    (splitExtension name).2 = some extension ↔ HasExtension name extension := by
  constructor
  · intro h
    by_cases hdot : '.' ∈ name
    · obtain ⟨stem, other, hplain, hname⟩ := exists_append_dot hdot
      rw [hname] at h hup
      rw [splitExtension_append stem hplain hup] at h
      by_cases hstem : stem = []
      · rw [if_pos hstem] at h
        exact nomatch h
      · rw [if_neg hstem] at h
        rw [← Option.some.inj h]
        exact ⟨stem, hstem, hplain, hname⟩
    · rw [splitExtension_of_not_mem hdot] at h
      exact nomatch h
  · rintro ⟨stem, hstem, hplain, rfl⟩
    rw [splitExtension_append stem hplain hup, if_neg hstem]

theorem extensionOf?_eq_some_iff :
    extensionOf? cs = some extension ↔ ∃ name, LeadsTo cs name ∧ HasExtension name extension := by
  rw [extensionOf?, Option.bind_eq_some_iff]
  constructor
  · rintro ⟨name, hname, h⟩
    obtain ⟨d, trail, hd, hisName, htrail⟩ := fileNameOf?_eq_some_iff.mp hname
    exact ⟨name, ⟨d, trail, hd, hisName, htrail⟩, (splitExtension_eq_some_iff hisName.ne_up).mp h⟩
  · rintro ⟨name, ⟨d, trail, hd, hisName, htrail⟩, h⟩
    exact ⟨name, fileNameOf?_eq_some_iff.mpr ⟨d, trail, hd, hisName, htrail⟩,
      (splitExtension_eq_some_iff hisName.ne_up).mpr h⟩

/-- A path does not have an extension: it leads to no file, or to one with another extension or
    none. -/
theorem extensionOf?_ne_some_iff :
    extensionOf? cs ≠ some extension ↔
      (¬ ∃ name, LeadsTo cs name) ∨
      (∃ name, LeadsTo cs name ∧ ¬ ∃ other, HasExtension name other) ∨
      ∃ name other, LeadsTo cs name ∧ HasExtension name other ∧ other ≠ extension := by
  constructor
  · intro h
    by_cases hname : ∃ name, LeadsTo cs name
    · obtain ⟨name, hname⟩ := hname
      by_cases hother : ∃ other, HasExtension name other
      · obtain ⟨other, hother⟩ := hother
        refine .inr (.inr ⟨name, other, hname, hother, ?_⟩)
        rintro rfl
        exact h (extensionOf?_eq_some_iff.mpr ⟨name, hname, hother⟩)
      · exact .inr (.inl ⟨name, hname, hother⟩)
    · exact .inl hname
  · intro h hextension
    obtain ⟨name, hname, hhas⟩ := extensionOf?_eq_some_iff.mp hextension
    rcases h with hno | ⟨name', hname', hno⟩ | ⟨name', other, hname', hother, hne⟩
    · exact hno ⟨name, hname⟩
    · obtain rfl := LeadsTo.unique hname hname'
      exact hno ⟨extension, hhas⟩
    · have hother' := extensionOf?_eq_some_iff.mpr ⟨name', hname', hother⟩
      exact hne (Option.some.inj (hother'.symm.trans hextension))

-- ── The two cuts ─────────────────────────────────────────────────────────────

theorem length_dropTrail_le (cs : List Char) : (dropTrail cs).length ≤ cs.length := by
  fun_induction dropTrail cs with
  | case1 cs ih => exact Nat.le_succ_of_le ih
  | case2 cs ih => exact Nat.le_succ_of_le (Nat.le_succ_of_le ih)
  | case3 cs => exact Nat.le_refl _

theorem length_cutAfterStem_le (cs : List Char) : (cutAfterStem cs).length ≤ cs.length := by
  rw [cutAfterStem]
  split
  · exact Nat.le_refl _
  · have hdrop := length_dropTrail_le cs.reverse
    simp only [List.length_take, List.length_reverse] at hdrop ⊢
    omega

/-- The stem of a name is a beginning of it. -/
theorem exists_append_splitExtension (name : Segment) :
    ∃ rest, name = (splitExtension name).1 ++ rest := by
  rw [splitExtension]
  split
  · exact ⟨[], (List.append_nil name).symm⟩
  · dsimp only
    split
    · exact ⟨[], (List.append_nil name).symm⟩
    · exact ⟨_, (List.take_append_drop _ name).symm⟩

/-- What trails a name is dropped. -/
theorem Trail.dropTrail_reverse_append {t : List Char} (h : Trail t) (cs : List Char) :
    dropTrail (t.reverse ++ cs) = dropTrail cs := by
  induction h generalizing cs with
  | nil => rfl
  | slash _ ih =>
      rw [List.reverse_cons, List.append_assoc, ih]
      rfl
  | here _ ih =>
      rw [List.reverse_cons, List.reverse_cons, List.append_assoc, List.append_assoc, ih]
      rfl

/-- And nothing else is: a name does not end with a slash, and if it ends with a dot there is no
    slash before that. -/
theorem IsName.dropTrail_reverse (h : IsName name) (d : List Char) :
    dropTrail (d ++ name).reverse = (d ++ name).reverse := by
  rw [List.reverse_append]
  cases hreverse : name.reverse with
  | nil => exact absurd (List.reverse_eq_nil_iff.mp hreverse) h.ne_nil
  | cons c rest =>
      have hslash : ∀ x ∈ c :: rest, x ≠ '/' := by
        rintro x hx rfl
        exact h.no_slash (List.mem_reverse.mp (hreverse ▸ hx))
      obtain ⟨hc, hrest⟩ := List.forall_mem_cons.mp hslash
      cases rest with
      | nil =>
          have hdot : c ≠ '.' := by
            rintro rfl
            refine h.ne_here ?_
            rw [← List.reverse_reverse name, hreverse]
            rfl
          simp [dropTrail, hc, hdot]
      | cons c' rest =>
          have hc' := (List.forall_mem_cons.mp hrest).1
          simp [dropTrail, hc, hc']

/-- **The cut falls right behind the stem of the name**, whatever trails the name. -/
theorem cutAfterStem_append {trail : List Char} (hd : IsDirectory d) (h : IsName name)
    (htrail : Trail trail) : cutAfterStem (d ++ name ++ trail) = d ++ (splitExtension name).1 := by
  have hfile : fileNameOf? (d ++ name ++ trail) = some name :=
    fileNameOf?_eq_some_iff.mpr ⟨d, trail, hd, h, htrail, rfl⟩
  have hdrop : (dropTrail (d ++ name ++ trail).reverse).reverse = d ++ name := by
    rw [List.reverse_append, htrail.dropTrail_reverse_append, h.dropTrail_reverse,
      List.reverse_reverse]
  obtain ⟨rest, hname⟩ := exists_append_splitExtension name
  have hlength := congrArg List.length hname
  rw [List.length_append] at hlength
  rw [cutAfterStem, hfile]
  simp only [hdrop]
  have hsplit : d ++ name = d ++ (splitExtension name).1 ++ rest := by
    rw [List.append_assoc, ← hname]
  rw [hsplit]
  refine List.take_left' ?_
  simp only [List.length_append]
  omega

/-- The second cut takes off a dot at the end of a name that the first cut has left. -/
theorem cutAfterStem_append_dot {stem : Segment} (hd : IsDirectory d) (hnil : stem ≠ [])
    (hhere : stem ≠ here) (hslash : '/' ∉ stem) :
    cutAfterStem (d ++ (stem ++ ['.'])) = d ++ stem := by
  have hname : IsName (stem ++ ['.']) := by
    refine ⟨by simp, ?_, ?_, by simp [hslash]⟩
    · intro h
      have happend : stem ++ ['.'] = [] ++ ['.'] := h
      exact hnil (List.append_cancel_right happend)
    · intro h
      have happend : stem ++ ['.'] = here ++ ['.'] := h
      exact hhere (List.append_cancel_right happend)
  have hsplit : splitExtension (stem ++ ['.']) = (stem, some []) := by
    rw [splitExtension_append stem List.not_mem_nil hname.ne_up, if_neg hnil]
  have hcut := cutAfterStem_append hd hname .nil
  rwa [List.append_nil, hsplit] at hcut

/-- The first cut leaves the dot behind, and the second takes it off. -/
theorem sourceOf_json {n p : String} (hd : IsDirectory d) (hnil : n ≠ "") (hhere : n ≠ ".")
    (hslash : '/' ∉ n.toList) (hp : p.toList = d ++ (n.toList ++ '.' :: treeExtension)) :
    (sourceOf p).toList = d ++ n.toList := by
  have hname : IsName (n.toList ++ '.' :: treeExtension) := by
    refine ⟨by simp, ?_, ?_, by simp [hslash, treeExtension]⟩
    · intro h
      exact absurd (congrArg List.length h) (by simp [here, treeExtension])
    · intro h
      exact absurd (congrArg List.length h) (by simp [up, treeExtension])
  have hn : n.toList ≠ [] := fun h => hnil (String.toList_eq_nil_iff.mp h)
  have hextension : extensionOf? p.toList = some treeExtension := by
    refine extensionOf?_eq_some_iff.mpr ⟨_, ⟨d, [], hd, hname, .nil, ?_⟩, ?_⟩
    · rw [hp, List.append_nil]
    · exact ⟨n.toList, hn, by decide, rfl⟩
  have hsplit : p.toList = d ++ (n.toList ++ ['.']) ++ treeExtension := by simp [hp]
  have hcut : p.toList.take (p.toList.length - treeExtension.length)
      = d ++ (n.toList ++ ['.']) := by
    rw [hsplit, List.length_append, Nat.add_sub_cancel, List.take_left]
  have hdot : n.toList ≠ here := fun h => hhere (String.toList_inj.mp h)
  simp only [sourceOf, sourceOfChars, if_pos hextension, String.toList_ofList, hcut]
  exact cutAfterStem_append_dot hd hn hdot hslash

/-- A path is its own source exactly if it does not have the extension of a syntax tree. -/
theorem sourceOf_eq_self_iff {p : String} :
    sourceOf p = p ↔ extensionOf? p.toList ≠ some treeExtension := by
  constructor
  · intro h hextension
    -- the first cut shortens the text, and the second does not lengthen it
    have hsource : (sourceOf p).toList.length ≤ p.toList.length - treeExtension.length := by
      simp only [sourceOf, sourceOfChars, if_pos hextension, String.toList_ofList]
      exact Nat.le_trans (length_cutAfterStem_le _) (List.length_take_le ..)
    obtain ⟨name, ⟨d, trail, -, -, -, hp⟩, stem, -, -, rfl⟩ :=
      extensionOf?_eq_some_iff.mp hextension
    have hpos : treeExtension.length < p.toList.length := by
      rw [hp]
      simp only [List.length_append, List.length_cons]
      omega
    have hfour : treeExtension.length = 4 := rfl
    rw [h] at hsource
    omega
  · intro h
    rw [sourceOf, sourceOfChars, if_neg h, String.ofList_toList]

/-- **Finding the source undoes appending `.json`.** Behind any directory, whatever dots a name
    has, the source of the name with `.json` is the name, as a text, except for the name `.`. And
    a path is its own source exactly if it leads to no file, or to one whose name has no extension
    or another than `json`. -/
theorem sourceOf_append_json :
    (∀ d n : String, d = "" ∨ (∃ d', d = d' ++ "/") → n ≠ "" → '/' ∉ n.toList → n ≠ "." →
      sourceOf (d ++ n ++ ".json") = d ++ n) ∧
    ∀ p : String, sourceOf p = p ↔
      (¬ ∃ name, LeadsTo p.toList name) ∨
      (∃ name, LeadsTo p.toList name ∧ ¬ ∃ extension, HasExtension name extension) ∨
      ∃ name extension, LeadsTo p.toList name ∧ HasExtension name extension ∧
        extension ≠ ['j', 's', 'o', 'n'] := by
  refine ⟨?_, ?_⟩
  · intro d n hd hnil hslash hhere
    have hdirectory : IsDirectory d.toList := by
      rcases hd with rfl | ⟨d', rfl⟩
      · exact .inl rfl
      · exact .inr ⟨d'.toList, by simp⟩
    have htext : (d ++ n ++ ".json").toList = d.toList ++ (n.toList ++ '.' :: treeExtension) := by
      simp [treeExtension]
    have hsource := sourceOf_json hdirectory hnil hhere hslash htext
    rw [← String.toList_append] at hsource
    exact String.toList_inj.mp hsource
  · intro p
    rw [sourceOf_eq_self_iff]
    exact extensionOf?_ne_some_iff

/-- Of `...json` the source is `..`, although the first cut leaves three dots; and a dot at the end
    makes for an extension that is empty. -/
theorem sourceOf_append_json_dots :
    sourceOf ("lib/" ++ ".." ++ ".json") = "lib/.." ∧
      sourceOf ("" ++ ".a.json." ++ ".json") = ".a.json." ∧
      sourceOf "lib/a.json." = "lib/a.json." := by
  refine ⟨?_, ?_, ?_⟩
  · exact sourceOf_append_json.1 "lib/" ".." (.inr ⟨"lib", rfl⟩) (by decide) (by decide)
      (by decide)
  · exact sourceOf_append_json.1 "" ".a.json." (.inl rfl) (by decide) (by decide) (by decide)
  · refine (sourceOf_append_json.2 "lib/a.json.").mpr ?_
    refine .inr (.inr ⟨"a.json.".toList, [], ?_, ?_, ?_⟩)
    · have hname : IsName "a.json.".toList := ⟨by decide, by decide, by decide, by decide⟩
      exact ⟨"lib/".toList, [], .inr ⟨"lib".toList, rfl⟩, hname, .nil, rfl⟩
    · exact ⟨"a.json".toList, by decide, by decide, rfl⟩
    · decide

end SolidityLint.Path
