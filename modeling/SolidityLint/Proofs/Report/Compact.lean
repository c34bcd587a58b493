import SolidityLint.Proofs.Json.Token
import SolidityLint.Proofs.Rule.Builtin
import SolidityLint.Report.Render

/-!
# Compact reports tell violations apart

A line of a compact report starts with the name of a file, which may hold anything that the rest
of a line is made of: `a:1:2: [rule] message` is a name too. So a line cannot be read from the
left. From the right it can: a message holds no `]`, the id of a rule no `[`, and a number no `:`,
so the last of each is the one that was put there (`eq_of_append_cons_eq`), and what is left in
the end is the name.

So two lines are the same exactly if they show the same file, line, column, rule and message
(`Violation.line_eq_iff`). Neither messages nor ids hold a line feed, so if file names do not
either, then a report is cut into its lines at the line feeds (`splitOn_lines`), and two reports
are compared line by line.
-/

namespace SolidityLint

-- ── Cutting a text ───────────────────────────────────────────────────────────

/-- A text is told by the pieces into which it is cut at a character. -/
theorem eq_of_splitOn_eq {c : Char} {xs ys : List Char} (h : xs.splitOn c = ys.splitOn c) :
    xs = ys :=
  calc
    xs = [c].intercalate (xs.splitOn c) := (List.intercalate_splitOn c).symm
    _ = [c].intercalate (ys.splitOn c) := by rw [h]
    _ = ys := List.intercalate_splitOn c

/-- A text is cut in one way only at the last of a character. -/
theorem eq_of_append_cons_eq {c : Char} {xs ys zs ws : List Char} (hz : c ∉ zs) (hw : c ∉ ws)
    (h : xs ++ c :: zs = ys ++ c :: ws) : xs = ys ∧ zs = ws := by
  have hpieces : xs.splitOn c ++ [zs] = ys.splitOn c ++ [ws] := by
    rw [← List.splitOn_eq_singleton hz, ← List.splitOn_eq_singleton hw,
      ← List.splitOn_append_cons_self, ← List.splitOn_append_cons_self, h]
  obtain ⟨hbefore, hlast⟩ := List.append_inj' hpieces rfl
  exact ⟨eq_of_splitOn_eq hbefore, List.singleton_inj.mp hlast⟩

-- ── The texts of the built-in rules ──────────────────────────────────────────

/-- A text without brackets and line feeds. -/
structure IsBare (s : String) : Prop where
  no_open : '[' ∉ s.toList
  no_close : ']' ∉ s.toList
  no_feed : '\n' ∉ s.toList

theorem isBare_ofList {cs : List Char} (h : '[' ∉ cs ∧ ']' ∉ cs ∧ '\n' ∉ cs) :
    IsBare (String.ofList cs) := by
  rw [← String.toList_ofList (l := cs)] at h
  exact ⟨h.1, h.2.1, h.2.2⟩

/-- **No built-in rule id or message has a bracket or a line feed in it.** Checked on the list of
    all of them. -/
theorem isBare_builtinMessages : ∀ p ∈ Rule.builtinMessages, IsBare p.1 ∧ IsBare p.2 := by
  intro p hp
  simp only [Rule.builtinMessages, List.mem_cons, List.not_mem_nil, or_false] at hp
  rcases hp with rfl | rfl | rfl | rfl | rfl <;>
    exact ⟨isBare_ofList (by decide), isBare_ofList (by decide)⟩

namespace Violation

variable {v w : Violation}

-- ── Numbers ──────────────────────────────────────────────────────────────────

theorem not_mem_decimal {c : Char} (hc : c.isDigit = false) (n : UInt64) :
    c ∉ (decimal n).toList := by
  intro h
  rw [decimal, String.toList_ofList] at h
  exact Digits.ne_of_isDigit (Digits.isDigit_of_mem_toDigits h) hc rfl

theorem decimal_injective {m n : UInt64} (h : (decimal m).toList = (decimal n).toList) :
    m = n := by
  rw [decimal, decimal, String.toList_ofList, String.toList_ofList] at h
  have hnat : m.toNat = n.toNat := by
    rw [← Digits.toNat_toDigits m.toNat, h, Digits.toNat_toDigits]
  exact UInt64.toNat_inj.mp hnat

-- ── A line ───────────────────────────────────────────────────────────────────

/-- What a line shows of a violation: the file, the line and the column in it, the rule and the
    message. -/
def shown (v : Violation) : String × UInt64 × UInt64 × String × String :=
  (v.location.file, v.location.line, v.location.column, v.rule, v.message)

/-- The rule and the message hold neither brackets nor line feeds. -/
structure Legible (v : Violation) : Prop where
  rule_isBare : IsBare v.rule
  message_isBare : IsBare v.message

/-- The line of a violation, with the characters that its parts end at set apart. -/
theorem toList_line (v : Violation) :
    v.line.toList
      = v.location.file.toList ++ ':' :: (decimal v.location.line).toList
          ++ ':' :: (decimal v.location.column).toList ++ [':', ' ']
          ++ '[' :: v.rule.toList ++ ']' :: (' ' :: v.message.toList) := by
  simp [line]

/-- **A line loses nothing of what it shows**: two lines are the same exactly if they show the
    same. -/
theorem line_eq_iff (hv : v.Legible) (hw : w.Legible) : v.line = w.line ↔ v.shown = w.shown := by
  constructor
  · intro h
    have hcolon : ∀ n, ':' ∉ (decimal n).toList := not_mem_decimal rfl
    have hclose : ∀ {u : Violation}, u.Legible → ']' ∉ ' ' :: u.message.toList := by
      intro u hu
      simp [hu.message_isBare.no_close]
    have htext := congrArg String.toList h
    rw [toList_line, toList_line] at htext
    -- from the right: the message, the rule, the column, the line, and what is left is the file
    obtain ⟨htext, hmessages⟩ := eq_of_append_cons_eq (hclose hv) (hclose hw) htext
    obtain ⟨htext, hrules⟩ :=
      eq_of_append_cons_eq hv.rule_isBare.no_open hw.rule_isBare.no_open htext
    obtain ⟨htext, hcolumns⟩ :=
      eq_of_append_cons_eq (hcolon _) (hcolon _) (List.append_cancel_right htext)
    obtain ⟨hfiles, hlines⟩ := eq_of_append_cons_eq (hcolon _) (hcolon _) htext
    rw [shown, shown, String.toList_inj.mp hfiles, decimal_injective hlines,
      decimal_injective hcolumns, String.toList_inj.mp hrules,
      String.toList_inj.mp (List.cons.inj hmessages).2]
  · intro h
    simp only [shown, Prod.mk.injEq] at h
    obtain ⟨hfile, hline, hcolumn, hrule, hmessage⟩ := h
    rw [line, line, hfile, hline, hcolumn, hrule, hmessage]

/-- The line of a violation is one line if the name of the file is. -/
theorem feed_not_mem_line (hv : v.Legible) (hfile : '\n' ∉ v.location.file.toList) :
    '\n' ∉ v.line.toList := by
  rw [toList_line]
  simp [hfile, hv.rule_isBare.no_feed, hv.message_isBare.no_feed, not_mem_decimal]

/-- What the built-in rules say is legible. -/
theorem legible_of_builtinSays (h : RuleSet.BuiltinSays v.rule v.message) : v.Legible := by
  obtain ⟨hrule, hmessage⟩ := isBare_builtinMessages _ (RuleSet.builtinSays_iff.mp h)
  exact ⟨hrule, hmessage⟩

end Violation

namespace Report

-- ── All lines ────────────────────────────────────────────────────────────────

theorem toList_renderCompact (r : Report) :
    r.renderCompact.toList = r.violations.flatMap fun v => v.line.toList ++ ['\n'] := by
  simp [renderCompact, String.toList_join, List.flatMap_map]

/-- Lines that hold no line feed are found again, each behind the other, and nothing is left
    behind the last line feed. -/
theorem splitOn_lines {violations : List Violation}
    (h : ∀ v ∈ violations, '\n' ∉ v.line.toList) :
    (violations.flatMap fun v => v.line.toList ++ ['\n']).splitOn '\n'
      = violations.map (fun v => v.line.toList) ++ [[]] := by
  induction violations with
  | nil => rfl
  | cons v rest ih =>
      obtain ⟨hv, hrest⟩ := List.forall_mem_cons.mp h
      rw [List.flatMap_cons, List.append_assoc, List.singleton_append,
        List.splitOn_append_cons_self_of_not_mem hv, ih hrest]
      rfl

/-- Violations have the same lines, one after the other, if and only if they show the same. -/
theorem map_line_eq_iff {vs ws : List Violation} (hv : ∀ v ∈ vs, v.Legible)
    (hw : ∀ w ∈ ws, w.Legible) :
    vs.map (fun v => v.line.toList) = ws.map (fun w => w.line.toList) ↔
      vs.map Violation.shown = ws.map Violation.shown := by
  induction vs generalizing ws with
  | nil => simp
  | cons v vs ih =>
      cases ws with
      | nil => simp
      | cons w ws =>
          obtain ⟨hv, hvs⟩ := List.forall_mem_cons.mp hv
          obtain ⟨hw, hws⟩ := List.forall_mem_cons.mp hw
          simp only [List.map_cons, List.cons.injEq, String.toList_inj]
          rw [Violation.line_eq_iff hv hw, ih hvs hws]

/-- Every violation has a rule and a message that the built-in rules put together, and is in a
    file whose name holds no line feed. -/
def IsPlain (r : Report) : Prop :=
  ∀ v ∈ r.violations, RuleSet.BuiltinSays v.rule v.message ∧ '\n' ∉ v.location.file.toList

theorem IsPlain.legible {r : Report} (h : r.IsPlain) : ∀ v ∈ r.violations, v.Legible := by
  intro v hv
  exact Violation.legible_of_builtinSays (h v hv).1

/-- Cut at its line feeds, the compact report gives the lines of the violations and nothing behind
    the last. -/
theorem IsPlain.splitOn_renderCompact {r : Report} (h : r.IsPlain) :
    r.renderCompact.toList.splitOn '\n' = r.violations.map (fun v => v.line.toList) ++ [[]] := by
  rw [toList_renderCompact]
  refine splitOn_lines fun v hv => ?_
  exact Violation.feed_not_mem_line (h.legible v hv) (h v hv).2

/-- **A compact report is one line for each violation and loses nothing of what it shows.** If all
    violations are of the built-in rules and no file name holds a line feed, then the text is
    made up of the lines of the violations, in their order and each with a line feed behind it and
    none in it. Two such reports have the same text if and only if their violations show, one
    after the other, the same file, line, column, rule and message. -/
theorem renderCompact_tells_apart {r s : Report} (hr : r.IsPlain) (hs : s.IsPlain) :
    r.renderCompact.toList.splitOn '\n' = r.violations.map (fun v => v.line.toList) ++ [[]] ∧
      (r.renderCompact = s.renderCompact ↔
        r.violations.map Violation.shown = s.violations.map Violation.shown) := by
  refine ⟨hr.splitOn_renderCompact, ?_⟩
  rw [← map_line_eq_iff hr.legible hs.legible]
  constructor
  · intro h
    have hlines := hr.splitOn_renderCompact
    rw [h, hs.splitOn_renderCompact] at hlines
    exact (List.append_cancel_right hlines).symm
  · intro h
    refine String.toList_inj.mp (eq_of_splitOn_eq (c := '\n') ?_)
    rw [hr.splitOn_renderCompact, h, hs.splitOn_renderCompact]

/-- A report on two files, the second of which is named like a line. -/
def lookalike (file : String) (line : UInt64) : Report :=
  ⟨[⟨InterfaceNames.id, "ContractDefinition", ⟨file, line, 3, 0, 0⟩, InterfaceNames.message⟩,
    ⟨LeadingUnderscore.id, "FunctionDefinition",
      ⟨"a:1:2: [interface-names] Interface names should have a capital I prefix", 0, 0, 0, 0⟩,
      LeadingUnderscore.onPrivateFunction⟩], 1⟩

/-- The report with the lookalike is plain if the name of the file is one line. -/
theorem isPlain_lookalike {file : String} (h : '\n' ∉ file.toList) (line : UInt64) :
    (lookalike file line).IsPlain := by
  intro v hv
  rcases List.mem_cons.mp hv with rfl | hv
  · exact ⟨RuleSet.builtinSays_iff.mpr (by simp [Rule.builtinMessages]), h⟩
  · obtain rfl := List.mem_singleton.mp hv
    refine ⟨RuleSet.builtinSays_iff.mpr (by simp [Rule.builtinMessages]), ?_⟩
    rw [String.toList_ofList]
    decide

/-- Line 12 of `a` is not mistaken for line 2 of `a:1`, and a name that could be a line does not
    add to the lines. -/
theorem renderCompact_tells_apart_lookalike :
    (lookalike "a" 12).IsPlain ∧ (lookalike "a:1" 2).IsPlain ∧
      (lookalike "a" 12).renderCompact ≠ (lookalike "a:1" 2).renderCompact ∧
      ((lookalike "a" 12).renderCompact.toList.splitOn '\n').length = 3 := by
  have hwhole : (lookalike "a" 12).IsPlain := isPlain_lookalike (by decide) 12
  have hcut : (lookalike "a:1" 2).IsPlain := isPlain_lookalike (by decide) 2
  obtain ⟨hlines, htext⟩ := renderCompact_tells_apart hwhole hcut
  refine ⟨hwhole, hcut, ?_, ?_⟩
  · intro h
    have hshown := htext.mp h
    simp [lookalike, Violation.shown] at hshown
  · rw [hlines]
    rfl

end Report

end SolidityLint
