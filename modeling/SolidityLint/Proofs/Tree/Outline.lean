import SolidityLint.Proofs.Outcome
import SolidityLint.Proofs.Tree.Push
import SolidityLint.Tree.Import

/-!
# The typed objects of a JSON value

The tree that a value describes can be said without numbers and links: it is the nesting
of the objects with a text member `type`, where arrays and other objects leave no trace
and nothing below `loc` and `range` counts. `Outline` is that nesting, read off a value by
one recursion.

`Carries ms n` says that a node carries what the object with the members `ms` says, member
by member, with the arithmetic of positions in the natural numbers. An object that is
imported becomes a node that carries it (`node_carries`); no wrapped position gets through.
-/

namespace SolidityLint

open Json (Value)

-- ── Reading a value ──────────────────────────────────────────────────────────

namespace Json.Value

theorem text?_eq_some_iff {v : Value} {s : String} : v.text? = some s ↔ v = .text s := by
  cases v <;> simp [text?]

theorem natural?_eq_some_iff {v : Value} {n : UInt64} :
    v.natural? = some n ↔ v = .natural n := by
  cases v <;> simp [natural?]

theorem items?_eq_some_iff {v : Value} {is : List Value} :
    v.items? = some is ↔ v = .array is := by
  cases v <;> simp [items?]

end Json.Value

-- ── Outlines ─────────────────────────────────────────────────────────────────

/-- A typed object with the typed objects below it. -/
inductive Outline where
  | node (members : List (String × Value)) (below : List Outline)

namespace Outline

mutual

/-- The outermost typed objects of a value, in the order in which they are written. -/
def ofValue : Value → List Outline
  | .object ms =>
    match ms.lookup "type" with
    | some (.text _) => [.node ms (ofMembers ms)]
    | _ => ofMembers ms
  | .array is => ofItems is
  | _ => []

/-- The outermost typed objects of the items of an array. -/
def ofItems : List Value → List Outline
  | [] => []
  | v :: vs => ofValue v ++ ofItems vs

/-- The outermost typed objects of the members of an object. -/
def ofMembers : List (String × Value) → List Outline
  | [] => []
  | (key, v) :: rest =>
    if key = "loc" ∨ key = "range" then ofMembers rest
    else ofValue v ++ ofMembers rest

end

mutual

/-- The number of objects in an outline. -/
def size : Outline → Nat
  | node _ below => sizes below + 1

/-- The number of objects in outlines. -/
def sizes : List Outline → Nat
  | [] => 0
  | o :: os => o.size + sizes os

end

/-- The numbers of the topmost objects when objects are numbered from `start`, each
    before those below it. -/
def firsts (start : Nat) : List Outline → List Nat
  | [] => []
  | o :: os => start :: firsts (start + o.size) os

theorem sizes_append (os ps : List Outline) : sizes (os ++ ps) = sizes os + sizes ps := by
  induction os with
  | nil => rw [List.nil_append, sizes, Nat.zero_add]
  | cons o os ih => rw [List.cons_append, sizes, sizes, ih, Nat.add_assoc]

/-- The second lot of outlines starts after all nodes of the first. -/
theorem firsts_append (start : Nat) (os ps : List Outline) :
    firsts start (os ++ ps) = firsts start os ++ firsts (start + sizes os) ps := by
  induction os generalizing start with
  | nil => rw [List.nil_append, firsts, List.nil_append, sizes, Nat.add_zero]
  | cons o os ih =>
      rw [List.cons_append, firsts, firsts, ih, List.cons_append, sizes, Nat.add_assoc]

/-- A typed object is one outline, with those of its members below it. -/
theorem ofValue_typed {ms : List (String × Value)} {s : String}
    (h : ms.lookup "type" = some (.text s)) :
    ofValue (.object ms) = [.node ms (ofMembers ms)] := by
  rw [ofValue, h]

/-- An object without a type gives no outline of its own: its members stand in its place. -/
theorem ofValue_untyped {ms : List (String × Value)}
    (h : ∀ s, ms.lookup "type" ≠ some (.text s)) :
    ofValue (.object ms) = ofMembers ms := by
  rw [ofValue]
  split
  · next s hs => exact absurd hs (h s)
  · rfl

end Outline

-- ── What an object says ──────────────────────────────────────────────────────

/-- An object says that it starts at a line and a column. -/
def StartsAt (ms : List (String × Value)) (line column : UInt64) : Prop :=
  ∃ loc start, ms.lookup "loc" = some loc ∧ loc.member? "start" = some start ∧
    start.member? "line" = some (.natural line) ∧
    start.member? "column" = some (.natural column)

/-- An object says that it runs from one character to another, both included. -/
def Ranges (ms : List (String × Value)) (first last : UInt64) : Prop :=
  ∃ rest, ms.lookup "range" = some (.array (.natural first :: .natural last :: rest))

/-- The run of characters of an object. One that is not given or runs backwards counts as
    the empty run at the start. -/
def HasExtent (ms : List (String × Value)) (offset length : UInt64) : Prop :=
  (∃ last, Ranges ms offset last ∧ offset ≤ last ∧
      length.toNat = last.toNat - offset.toNat + 1) ∨
    ((∀ first last, Ranges ms first last → ¬ first ≤ last) ∧ offset = 0 ∧ length = 0)

/-- The position of an object: columns count from one. An object that does not say where
    it starts has none. -/
def HasSpan (ms : List (String × Value)) : Option Span → Prop
  | some s =>
    ∃ column, StartsAt ms s.line column ∧ s.column.toNat = column.toNat + 1 ∧
      HasExtent ms s.offset s.length
  | none => ∀ line column, ¬ StartsAt ms line column

/-- A node carries exactly what an object says. -/
structure Carries (ms : List (String × Value)) (n : Node) : Prop where
  typeName : ms.lookup "type" = some (.text n.typeName)
  name : ∀ s, n.name = some s ↔ ms.lookup "name" = some (.text s)
  kind : ∀ s, n.kind = some s ↔ ms.lookup "kind" = some (.text s)
  visibility : ∀ w, n.visibility = some w ↔ ms.lookup "visibility" = some (.text w.keyword)
  isConstant : n.isConstant = true ↔ ms.lookup "isDeclaredConst" = some (.bool true)
  span : HasSpan ms n.span

/-- What a node carries has nothing to do with its place. -/
theorem Carries.replaced {ms : List (String × Value)} {n : Node} (h : Carries ms n)
    (parent : Option Nat) (children : Array Nat) :
    Carries ms { n with parent, children } :=
  ⟨h.typeName, h.name, h.kind, h.visibility, h.isConstant, h.span⟩

namespace Import

theorem textMember?_eq_some_iff {key s : String} {ms : List (String × Value)} :
    textMember? key ms = some s ↔ ms.lookup key = some (.text s) := by
  simp [textMember?, Option.bind_eq_some_iff, Value.text?_eq_some_iff]

theorem typeName?_eq_some_iff {ms : List (String × Value)} {s : String} :
    typeName? ms = some s ↔ ms.lookup "type" = some (.text s) :=
  textMember?_eq_some_iff

/-- The start that is read is the one that the members give. -/
theorem start?_eq_some_iff {ms : List (String × Value)} {line column : UInt64} :
    start? ms = some (line, column) ↔ StartsAt ms line column := by
  simp only [start?, Option.bind_eq_bind, Option.bind_eq_some_iff, Value.natural?_eq_some_iff]
  constructor
  · rintro ⟨loc, hloc, start, hstart, l, hl, l', rfl, c, hc, c', rfl, heq⟩
    obtain ⟨rfl, rfl⟩ := Prod.mk.inj (Option.some.inj heq)
    exact ⟨loc, start, hloc, hstart, hl, hc⟩
  · rintro ⟨loc, start, hloc, hstart, hl, hc⟩
    exact ⟨loc, hloc, start, hstart, _, hl, line, rfl, _, hc, column, rfl, rfl⟩

theorem range?_eq_some_iff {ms : List (String × Value)} {first last : UInt64} :
    range? ms = some (first, last) ↔ Ranges ms first last := by
  simp only [range?, Option.bind_eq_bind, Option.bind_eq_some_iff, Value.items?_eq_some_iff]
  constructor
  · rintro ⟨v, hv, is, rfl, h⟩
    split at h
    · next a b rest =>
      simp only [Option.bind_eq_some_iff, Value.natural?_eq_some_iff] at h
      obtain ⟨b', rfl, e', rfl, heq⟩ := h
      obtain ⟨rfl, rfl⟩ := Prod.mk.inj (Option.some.inj heq)
      exact ⟨rest, hv⟩
    · exact nomatch h
  · rintro ⟨rest, hv⟩
    exact ⟨_, hv, _, rfl, rfl⟩

/-- Counting on succeeds only within 64 bits, so it is the sum of natural numbers. -/
theorem toNat_of_next {n m : UInt64} (h : next n = .ok m) : m.toNat = n.toNat + 1 := by
  rw [next] at h
  by_cases hn : n.toNat + 1 < UInt64.size
  · rw [if_pos hn] at h
    obtain rfl := Except.ok.inj h
    rw [UInt64.toNat_add]
    exact Nat.mod_eq_of_lt hn
  · rw [if_neg hn] at h
    exact nomatch h

/-- A computed extent is the one that the range stands for, or nothing if there is no range. -/
theorem hasExtent_of_extent {ms : List (String × Value)} {offset length : UInt64}
    (h : extent (range? ms) = .ok (offset, length)) : HasExtent ms offset length := by
  cases hr : range? ms with
  | none =>
      rw [hr] at h
      obtain ⟨rfl, rfl⟩ := Prod.mk.inj (Except.ok.inj h)
      refine Or.inr ⟨fun b e hbe => ?_, rfl, rfl⟩
      rw [range?_eq_some_iff.mpr hbe] at hr
      exact nomatch hr
  | some r =>
      obtain ⟨b, e⟩ := r
      rw [hr] at h
      rw [extent] at h
      by_cases hle : b ≤ e
      · rw [if_pos hle] at h
        obtain ⟨len, hlen, heq⟩ := Outcome.map_eq_ok_iff.mp h
        obtain ⟨rfl, rfl⟩ := Prod.mk.inj heq
        refine Or.inl ⟨e, range?_eq_some_iff.mp hr, hle, ?_⟩
        rw [toNat_of_next hlen, UInt64.toNat_sub_of_le e b hle]
      · rw [if_neg hle] at h
        obtain ⟨rfl, rfl⟩ := Prod.mk.inj (Except.ok.inj h)
        refine Or.inr ⟨fun b' e' hbe => ?_, rfl, rfl⟩
        rw [range?_eq_some_iff.mpr hbe] at hr
        obtain ⟨rfl, rfl⟩ := Prod.mk.inj (Option.some.inj hr)
        exact hle

/-- The position read from an object is the one that it gives. -/
theorem hasSpan_of_span {ms : List (String × Value)} {sp : Option Span}
    (h : span ms = .ok sp) : HasSpan ms sp := by
  rw [span] at h
  cases hst : start? ms with
  | none =>
      rw [hst] at h
      obtain rfl := Except.ok.inj h
      intro line column hat
      rw [start?_eq_some_iff.mpr hat] at hst
      exact nomatch hst
  | some r =>
      obtain ⟨line, column⟩ := r
      rw [hst] at h
      obtain ⟨col, hcol, h⟩ := Outcome.bind_eq_ok_iff.mp h
      obtain ⟨⟨offset, length⟩, hext, h⟩ := Outcome.bind_eq_ok_iff.mp h
      obtain rfl := Except.ok.inj h
      exact ⟨column, start?_eq_some_iff.mp hst, toNat_of_next hcol, hasExtent_of_extent hext⟩

/-- A word is read as a visibility just if it is its keyword. -/
theorem ofKeyword?_eq_some_iff {s : String} {w : Visibility} :
    Visibility.ofKeyword? s = some w ↔ s = w.keyword := by
  constructor
  · intro h
    have := List.find?_some h
    exact (eq_of_beq this).symm
  · rintro rfl
    exact Visibility.ofKeyword?_keyword w

/-- **An imported object becomes a node that carries it.** -/
theorem node_carries {s : String} {ms : List (String × Value)} {n : Node}
    (htype : ms.lookup "type" = some (.text s)) (h : node s ms = .ok n) : Carries ms n := by
  obtain ⟨sp, hsp, h⟩ := Outcome.bind_eq_ok_iff.mp h
  obtain rfl := Except.ok.inj h
  refine ⟨htype, ?_, ?_, ?_, ?_, ?_⟩
  · intro t
    exact textMember?_eq_some_iff
  · intro t
    exact textMember?_eq_some_iff
  · intro w
    show (textMember? "visibility" ms).bind Visibility.ofKeyword? = some w ↔ _
    rw [Option.bind_eq_some_iff]
    constructor
    · rintro ⟨t, ht, hw⟩
      obtain rfl := ofKeyword?_eq_some_iff.mp hw
      exact textMember?_eq_some_iff.mp ht
    · intro ht
      exact ⟨w.keyword, textMember?_eq_some_iff.mpr ht, ofKeyword?_eq_some_iff.mpr rfl⟩
  · show ((ms.lookup "isDeclaredConst").bind Value.bool?).getD false = true ↔ _
    cases hb : ms.lookup "isDeclaredConst" with
    | none => exact ⟨nofun, nofun⟩
    | some v => cases v <;> simp [Value.bool?]
  · exact hasSpan_of_span hsp

end Import

end SolidityLint
