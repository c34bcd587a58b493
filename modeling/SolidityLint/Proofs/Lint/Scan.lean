import SolidityLint.Proofs.Lint.Traversal
import SolidityLint.Proofs.Rule.Builtin

/-!
# Linting as a scan of the JSON value

The built-in rules can be applied without a tree. `Scan.value` goes over a value once: at
an object with a text member `type` it says what is wrong with that object, and then it
looks into the members, as it does for arrays and objects without a type. All it has to
remember on the way down is the kind of the typed object around, for the functions of
libraries.

The main statement is that linting an imported tree finds exactly what the scan finds, in
the same order. The scan of a value is the scan of its outlines
(`Scan.value_eq_outlines`), and on a placed outline the rules record, number by number,
what the scan says about the objects (`Tree.Placed.flatMap_reportsOn`).
-/

namespace SolidityLint

open Json (Value)

namespace Scan

-- ── What is wrong with an object ─────────────────────────────────────────────

/-- Whether a name starts with a capital `I` and another letter from `A` to `Z`. -/
def isInterfaceName (name : String) : Bool :=
  match name.toList with
  | 'I' :: c :: _ => 'A' ≤ c && c ≤ 'Z'
  | _ => false

/-- Whether a name starts with an underscore. -/
def isMarked (name : String) : Bool := name.toList.head? = some '_'

/-- The name an object declares; a missing one counts as empty. -/
def name (ms : List (String × Value)) : String := (Import.textMember? "name" ms).getD ""

/-- Whether an object declares a constant. -/
def isConstant (ms : List (String × Value)) : Bool :=
  match ms.lookup "isDeclaredConst" with
  | some (.bool b) => b
  | _ => false

/-- The rule that a contract breaks, and the message. -/
def onContract (ms : List (String × Value)) : Option (String × String) :=
  if Import.textMember? "kind" ms = some "interface" ∧ ¬ isInterfaceName (name ms) then
    some (InterfaceNames.id, InterfaceNames.message)
  else none

/-- The rule that a variable breaks, and the message. -/
def onVariable (ms : List (String × Value)) : Option (String × String) :=
  if isConstant ms then
    if isMarked (name ms) then some (LeadingUnderscore.id, LeadingUnderscore.onConstant)
    else none
  else if Import.textMember? "visibility" ms = some "private" ∧ ¬ isMarked (name ms) then
    some (LeadingUnderscore.id, LeadingUnderscore.onPrivateVariable)
  else none

/-- The rule that a function breaks, and the message, given the kind of the typed object
    around it. -/
def onFunction (outer : Option String) (ms : List (String × Value)) :
    Option (String × String) :=
  if Import.textMember? "visibility" ms = some "private" then
    if isMarked (name ms) then none
    else some (LeadingUnderscore.id, LeadingUnderscore.onPrivateFunction)
  else if Import.textMember? "visibility" ms = some "internal" then
    if outer = some "library" then
      if isMarked (name ms) then some (LeadingUnderscore.id, LeadingUnderscore.onLibraryFunction)
      else none
    else
      if isMarked (name ms) then none
      else some (LeadingUnderscore.id, LeadingUnderscore.onPrivateFunction)
  else none

/-- The rule that an object of a type breaks, and the message. -/
def finding? (outer : Option String) (type : String) (ms : List (String × Value)) :
    Option (String × String) :=
  if type = "ContractDefinition" then onContract ms
  else if type = "VariableDeclaration" then onVariable ms
  else if type = "FunctionDefinition" then onFunction outer ms
  else none

/-- Where an object says it stands. -/
def place (file : String) (ms : List (String × Value)) : Location :=
  match Import.start? ms with
  | none => ⟨file, 0, 0, 0, 0⟩
  | some (line, column) =>
    match Import.range? ms with
    | none => ⟨file, line, column + 1, 0, 0⟩
    | some (first, last) =>
      if first ≤ last then ⟨file, line, column + 1, first, last - first + 1⟩
      else ⟨file, line, column + 1, 0, 0⟩

/-- A finding about an object, as a violation. -/
def violation (file type : String) (ms : List (String × Value)) (r : String × String) :
    Violation := ⟨r.1, type, place file ms, r.2⟩

/-- The violation by an object itself, if there is one. -/
def own? (file : String) (outer : Option String) (type : String)
    (ms : List (String × Value)) : Option Violation :=
  (finding? outer type ms).map (violation file type ms)

-- ── The scan ─────────────────────────────────────────────────────────────────

mutual

/-- What is wrong in a value, given the kind of the typed object around it. -/
def value (file : String) (outer : Option String) : Value → List Violation
  | .object ms =>
    match ms.lookup "type" with
    | some (.text type) =>
      (own? file outer type ms).toList ++ members file (Import.textMember? "kind" ms) ms
    | _ => members file outer ms
  | .array is => items file outer is
  | _ => []

/-- What is wrong in the items of an array. -/
def items (file : String) (outer : Option String) : List Value → List Violation
  | [] => []
  | v :: vs => value file outer v ++ items file outer vs

/-- What is wrong in the members of an object; positions hold nothing to look at. -/
def members (file : String) (outer : Option String) :
    List (String × Value) → List Violation
  | [] => []
  | (key, v) :: rest =>
    if key = "loc" ∨ key = "range" then members file outer rest
    else value file outer v ++ members file outer rest

end

/-- The violation by an object that is a node. -/
def own (file : String) (outer : Option String) (ms : List (String × Value)) :
    List Violation :=
  match ms.lookup "type" with
  | some (.text type) => (own? file outer type ms).toList
  | _ => []

mutual

/-- What is wrong in an outline. -/
def outline (file : String) (outer : Option String) : Outline → List Violation
  | .node ms below =>
    own file outer ms ++ outlines file (Import.textMember? "kind" ms) below

/-- What is wrong in outlines, one after the other. -/
def outlines (file : String) (outer : Option String) : List Outline → List Violation
  | [] => []
  | o :: os => outline file outer o ++ outlines file outer os

end

theorem outlines_append (file : String) (outer : Option String) (os ps : List Outline) :
    outlines file outer (os ++ ps) = outlines file outer os ++ outlines file outer ps := by
  induction os with
  | nil => rfl
  | cons o os ih => rw [List.cons_append, outlines, outlines, ih, List.append_assoc]

mutual

/-- The scan of a value is the scan of its outlines. -/
theorem value_eq_outlines (file : String) (outer : Option String) :
    ∀ v : Value, value file outer v = outlines file outer (Outline.ofValue v)
  | .object ms => by
      rw [value]
      split
      · next type htype =>
        rw [Outline.ofValue_typed htype, outlines, outlines, outline, List.append_nil,
          members_eq_outlines, own, htype]
      · next hnone =>
        rw [Outline.ofValue_untyped fun s hs => hnone s hs, members_eq_outlines]
  | .array is => by
      rw [value, Outline.ofValue]
      exact items_eq_outlines file outer is
  | .null | .bool _ | .natural _ | .decimal _ | .text _ | .garbled => rfl

theorem items_eq_outlines (file : String) (outer : Option String) :
    ∀ is : List Value, items file outer is = outlines file outer (Outline.ofItems is)
  | [] => rfl
  | v :: vs => by
      rw [items, Outline.ofItems, outlines_append, value_eq_outlines file outer v,
        items_eq_outlines file outer vs]

/-- Scanning members is scanning their outlines, the position members being passed over in both. -/
theorem members_eq_outlines (file : String) (outer : Option String) :
    ∀ ms : List (String × Value),
      members file outer ms = outlines file outer (Outline.ofMembers ms)
  | [] => rfl
  | (key, v) :: rest => by
      rw [members, Outline.ofMembers]
      by_cases hkey : key = "loc" ∨ key = "range"
      · rw [if_pos hkey, if_pos hkey]
        exact members_eq_outlines file outer rest
      · rw [if_neg hkey, if_neg hkey, outlines_append, value_eq_outlines file outer v,
          members_eq_outlines file outer rest]

end

-- ── What a node carries is what the scan reads ───────────────────────────────

theorem isMarked_eq (s : String) : LeadingUnderscore.isMarked s = isMarked s := by
  rw [LeadingUnderscore.isMarked, isMarked]
  split
  · next h => rw [h]; rfl
  · next h =>
    cases hs : s.toList with
    | nil => rfl
    | cons c cs =>
        have hc : c ≠ '_' := fun he => h cs (by rw [hs, he])
        simp [hc]

theorem isUpper_eq (c : Char) : c.isUpper = ('A' ≤ c && c ≤ 'Z') := by
  show decide ('A'.val ≤ c.val ∧ c.val ≤ 'Z'.val) = _
  exact Bool.decide_and ..

/-- The scan tells the names of interfaces as the rule does. -/
theorem isPrefixed_eq (s : String) : InterfaceNames.isPrefixed s = isInterfaceName s := by
  rw [InterfaceNames.isPrefixed, isInterfaceName]
  rcases s.toList with _ | ⟨a, _ | ⟨c, cs⟩⟩
  · rfl
  · simp
  · by_cases ha : a = 'I'
    · rw [ha]
      exact isUpper_eq c
    · simp [ha]

variable {ms : List (String × Value)} {n : Node}

theorem name_eq (h : Carries ms n) : n.nameD = name ms := by
  have hname : n.name = Import.textMember? "name" ms := by
    apply Option.ext
    intro s
    exact (h.name s).trans Import.textMember?_eq_some_iff.symm
  rw [Node.nameD, name, hname]

theorem kind_eq (h : Carries ms n) : n.kind = Import.textMember? "kind" ms := by
  apply Option.ext
  intro s
  exact (h.kind s).trans Import.textMember?_eq_some_iff.symm

/-- A node is visible as its object says, if the object says it in a keyword. -/
theorem visibility_iff (h : Carries ms n) (w : Visibility) :
    n.visibility = some w ↔ Import.textMember? "visibility" ms = some w.keyword :=
  (h.visibility w).trans Import.textMember?_eq_some_iff.symm

theorem isConstant_eq (h : Carries ms n) : n.isConstant = isConstant ms := by
  rw [Bool.eq_iff_iff, h.isConstant, isConstant]
  cases ms.lookup "isDeclaredConst" with
  | none => exact ⟨nofun, nofun⟩
  | some v => cases v <;> simp

/-- A number of 64 bits that is one more than another as a natural number is the sum. -/
theorem eq_add_one_of_toNat {a b : UInt64} (h : a.toNat = b.toNat + 1) : a = b + 1 := by
  rw [← UInt64.toNat_inj, UInt64.toNat_add, h]
  exact (Nat.mod_eq_of_lt (h ▸ a.toNat_lt)).symm

/-- The scan finds the place of an object where its node is located. -/
theorem place_eq (h : Carries ms n) (file : String) :
    Location.ofNode file n = place file ms := by
  have hspan := h.span
  cases hsp : n.span with
  | none =>
      rw [hsp] at hspan
      have hnone : Import.start? ms = none := by
        cases hst : Import.start? ms with
        | none => rfl
        | some r => exact absurd (Import.start?_eq_some_iff.mp hst) (hspan r.1 r.2)
      rw [Location.ofNode, hsp, place, hnone]
  | some s =>
      rw [hsp] at hspan
      obtain ⟨column, hat, hcolumn, hextent⟩ := hspan
      have hc : s.column = column + 1 := eq_add_one_of_toNat hcolumn
      rw [Location.ofNode, hsp, place, Import.start?_eq_some_iff.mpr hat]
      simp only
      rcases hextent with ⟨last, hr, hle, hlength⟩ | ⟨hno, hoffset, hlength⟩
      · have hl : s.length = last - s.offset + 1 := by
          apply eq_add_one_of_toNat
          rw [hlength, UInt64.toNat_sub_of_le last s.offset hle]
        rw [Import.range?_eq_some_iff.mpr hr, hc, hl]
        exact (if_pos hle).symm
      · rw [hc, hoffset, hlength]
        cases hr : Import.range? ms with
        | none => rfl
        | some r => exact (if_neg (hno r.1 r.2 (Import.range?_eq_some_iff.mp hr))).symm

-- ── Rule by rule ─────────────────────────────────────────────────────────────

variable {f : Focus}

theorem ofNode_eq (h : Carries ms n) (file rule message : String) :
    Violation.ofNode file rule n message = violation file n.typeName ms (rule, message) := by
  rw [Violation.ofNode, violation, place_eq h]

/-- **On a contract the scan says what the rule says.** -/
theorem onContract_eq (h : Carries ms f.node) (c : Context) (file : String) :
    (InterfaceNames.onContract c f).map (Violation.ofNode file InterfaceNames.id f.node)
      = ((onContract ms).map (violation file f.node.typeName ms)).toList := by
  rw [InterfaceNames.onContract, onContract, kind_eq h, name_eq h, isPrefixed_eq]
  by_cases hbad : Import.textMember? "kind" ms = some "interface" ∧ ¬ isInterfaceName (name ms)
  · rw [if_pos hbad, if_pos hbad, List.map_singleton, ofNode_eq h]
    rfl
  · rw [if_neg hbad, if_neg hbad]
    rfl

/-- **On a variable the scan says what the rule says.** -/
theorem onVariable_eq (h : Carries ms f.node) (c : Context) (file : String) :
    (LeadingUnderscore.onVariable c f).map
        (Violation.ofNode file LeadingUnderscore.id f.node)
      = ((onVariable ms).map (violation file f.node.typeName ms)).toList := by
  rw [LeadingUnderscore.onVariable, onVariable, isConstant_eq h, name_eq h, isMarked_eq]
  by_cases hconstant : isConstant ms
  · rw [if_pos hconstant, if_pos hconstant]
    by_cases hmarked : isMarked (name ms)
    · rw [if_pos hmarked, if_pos hmarked, List.map_singleton, ofNode_eq h]
      rfl
    · rw [if_neg hmarked, if_neg hmarked]
      rfl
  · rw [if_neg hconstant, if_neg hconstant]
    have hiff := and_congr_left' (c := ¬ isMarked (name ms)) (visibility_iff h .priv)
    by_cases hbad : Import.textMember? "visibility" ms = some "private" ∧ ¬ isMarked (name ms)
    · rw [if_pos (hiff.mpr hbad), if_pos hbad, List.map_singleton, ofNode_eq h]
      rfl
    · rw [if_neg (fun hb => hbad (hiff.mp hb)), if_neg hbad]
      rfl

/-- **On a function the scan says what the rule says**, where the kind that it passes down is that
    of the parent. -/
theorem onFunction_eq (h : Carries ms f.node) (c : Context) (file : String) :
    (LeadingUnderscore.onFunction c f).map
        (Violation.ofNode file LeadingUnderscore.id f.node)
      = ((onFunction (f.parent?.bind fun p => p.node.kind) ms).map
          (violation file f.node.typeName ms)).toList := by
  have hprivate := visibility_iff h .priv
  have hinternal := visibility_iff h .internal
  rw [LeadingUnderscore.onFunction, onFunction, name_eq h, isMarked_eq]
  -- both sides only ask whether the kind above is `library`
  generalize (f.parent?.bind fun p => p.node.kind) = outer
  by_cases hpriv : Import.textMember? "visibility" ms = some "private"
  · rw [if_pos hpriv, hprivate.mpr hpriv]
    by_cases hmarked : isMarked (name ms)
    · simp [hmarked]
    · simp [hmarked, ofNode_eq h]
  · rw [if_neg hpriv]
    have hv : f.node.visibility ≠ some .priv := fun hv => hpriv (hprivate.mp hv)
    by_cases hint : Import.textMember? "visibility" ms = some "internal"
    · rw [if_pos hint, hinternal.mpr hint]
      by_cases hlibrary : outer = some "library"
      · by_cases hmarked : isMarked (name ms)
        · simp [hlibrary, hmarked, ofNode_eq h]
        · simp [hlibrary, hmarked]
      · by_cases hmarked : isMarked (name ms)
        · simp [hlibrary, hmarked]
        · simp [hlibrary, hmarked, ofNode_eq h]
    · have hi : f.node.visibility ≠ some .internal := fun hi => hint (hinternal.mp hi)
      simp [hint, hv, hi]

/-- What the built-in rules record on a node that carries an object is the violation that
    the scan sees in the object. -/
theorem violations_eq_own {job : Job} (hcovers : Ignore.covers job.fileName = false)
    (h : Carries ms f.node) :
    ((RuleSet.builtin job).dispatch f).violations
      = own job.fileName (f.parent?.bind fun p => p.node.kind) ms := by
  have htype : ∀ t : NodeType, t ≠ .unknown → (f.node.nodeType = t ↔ f.node.typeName = t.name) :=
    fun t ht => NodeType.ofName_eq_iff ht
  rw [RuleSet.violations_builtin hcovers, own, h.typeName]
  simp only [own?, finding?]
  by_cases hc : f.node.typeName = "ContractDefinition"
  · rw [if_pos ((htype .contractDefinition nofun).mpr hc), if_pos hc, onContract_eq h]
  · rw [if_neg (fun he => hc ((htype .contractDefinition nofun).mp he)), if_neg hc]
    by_cases hv : f.node.typeName = "VariableDeclaration"
    · rw [if_pos ((htype .variableDeclaration nofun).mpr hv), if_pos hv, onVariable_eq h]
    · rw [if_neg (fun he => hv ((htype .variableDeclaration nofun).mp he)), if_neg hv]
      by_cases hf : f.node.typeName = "FunctionDefinition"
      · rw [if_pos ((htype .functionDefinition nofun).mpr hf), if_pos hf, onFunction_eq h]
      · rw [if_neg (fun he => hf ((htype .functionDefinition nofun).mp he)), if_neg hf]
        rfl

end Scan

-- ── Number by number ─────────────────────────────────────────────────────────

namespace Tree

/-- Every node can be looked at in its tree, and so can its parent. -/
theorem exists_focus? {t : Tree} {id : Nat} {n : Node} (h : t.get? id = some n) :
    ∃ f, t.focus? id = some f ∧ f.node = n ∧
      (f.parent?.bind fun p => p.node.kind) = (n.parent.bind t.get?).bind Node.kind := by
  obtain ⟨hid, rfl⟩ := Array.getElem?_eq_some_iff.mp h
  refine ⟨_, focus?_of_lt hid, rfl, ?_⟩
  show ((t.nodes[id].parent.bind (Focus.moveTo? ⟨t, ⟨id, hid⟩⟩)).bind fun p => p.node.kind) = _
  cases t.nodes[id].parent with
  | none => rfl
  | some p =>
      rw [Option.bind_some, Option.bind_some, Focus.moveTo?, get?]
      by_cases hp : p < t.nodes.size
      · rw [dif_pos hp, Array.getElem?_eq_getElem hp]
        rfl
      · rw [dif_neg hp, Array.getElem?_eq_none (Nat.le_of_not_lt hp)]
        rfl

mutual

/-- On a placed outline the built-in rules record what the scan of the outline says. -/
theorem Placed.flatMap_reportsOn {job : Job} (hcovers : Ignore.covers job.fileName = false)
    {t : Tree} {parent : Option Nat} {id : Nat} :
    ∀ {o : Outline}, t.Placed parent id o →
      (List.range' id o.size).flatMap ((RuleSet.builtin job).reportsOn t)
        = Scan.outline job.fileName ((parent.bind t.get?).bind Node.kind) o
  | .node ms below, h => by
      rw [Placed] at h
      obtain ⟨⟨n, hn, hcarries, rfl, -⟩, hbelow⟩ := h
      obtain ⟨f, hfocus, rfl, hkind⟩ := exists_focus? hn
      rw [Outline.size, List.range'_succ, List.flatMap_cons, Scan.outline,
        AllPlaced.flatMap_reportsOn hcovers hbelow, RuleSet.reportsOn, hfocus]
      simp only
      rw [Scan.violations_eq_own hcovers hcarries, hkind, Option.bind_some, hn, Option.bind_some,
        Scan.kind_eq hcarries]

theorem AllPlaced.flatMap_reportsOn {job : Job} (hcovers : Ignore.covers job.fileName = false)
    {t : Tree} {parent : Option Nat} {id : Nat} :
    ∀ {os : List Outline}, t.AllPlaced parent id os →
      (List.range' id (Outline.sizes os)).flatMap ((RuleSet.builtin job).reportsOn t)
        = Scan.outlines job.fileName ((parent.bind t.get?).bind Node.kind) os
  | [], _ => rfl
  | o :: os, h => by
      rw [AllPlaced] at h
      rw [Outline.sizes, ← List.range'_append_1, List.flatMap_append, Scan.outlines,
        Placed.flatMap_reportsOn hcovers h.1, AllPlaced.flatMap_reportsOn hcovers h.2]

end

end Tree

/-- **Linting is a scan of the JSON value.** For every value that is imported and every
    file, linting with the built-in rules succeeds on one file, and finds nothing if the
    file is left alone and else what the scan finds, in its order. -/
theorem lintTree_builtin_eq_scan {v : Value} {t : Tree} (h : Tree.ofValue v = .ok t)
    (job : Job) :
    lintTree Registry.builtin job t
      = .ok ⟨if Ignore.covers job.fileName then [] else Scan.value job.fileName none v, 1⟩ := by
  obtain ⟨o, ho, hsize, hplaced⟩ := Tree.placed_of_ofValue h
  obtain ⟨-, -, hwalk⟩ := Tree.walk_of_ofValue h
  rw [lintTree_eq, Registry.instantiate_builtin]
  show Except.ok (Report.mk ((RuleSet.builtin job).walk t) 1) = _
  rw [RuleSet.walk, hwalk]
  cases hcovers : Ignore.covers job.fileName with
  | true =>
      have hnil : (List.range t.size).flatMap ((RuleSet.builtin job).reportsOn t) = [] := by
        rw [RuleSet.flatMap_reportsOn, List.flatMap_eq_nil_iff]
        intro f _
        exact RuleSet.violations_builtin_of_covers hcovers f
      rw [hnil]
      rfl
  | false =>
      rw [List.range_eq_range', hsize, hplaced.flatMap_reportsOn hcovers,
        Scan.value_eq_outlines, ho, Scan.outlines, Scan.outlines, List.append_nil]
      rfl

/-- A marked name of a library function breaks a rule, unless the file is left alone. -/
theorem lintTree_builtin_eq_scan_libraryValue :
    ∃ t, Tree.ofValue Tree.libraryValue = .ok t ∧
      lintTree Registry.builtin { fileName := "a.sol" } t
        = .ok ⟨[⟨LeadingUnderscore.id, "FunctionDefinition", ⟨"a.sol", 3, 5, 10, 10⟩,
            LeadingUnderscore.onLibraryFunction⟩], 1⟩ ∧
      lintTree Registry.builtin { fileName := "test/a.sol" } t = .ok ⟨[], 1⟩ :=
  ⟨_, rfl, lintTree_builtin_eq_scan (v := Tree.libraryValue) rfl _,
    lintTree_builtin_eq_scan (v := Tree.libraryValue) rfl _⟩

end SolidityLint
