import SolidityLint.Proofs.Tree.Imported
import SolidityLint.Proofs.Tree.Links

/-!
# What comes of an import, object by object

The typed objects of a value can be lined up, each before those below it, and this is the
order in which an import makes nodes of them: node `i` carries the object in place `i`. What
can go wrong on the way is settled by the objects one by one as well. Hanging a node on its
parent never fails, since the parent was made before, and so the only thing that can is the
position of an object: it starts in the last column that there is, or it runs over all
characters that there are (`Overflows`).

`Decided` says that a computation fails exactly if one of certain objects overflows. It is
closed under doing one thing after the other (`Decided.bind`), which is all that the import
of a value, of items and of members does.
-/

namespace SolidityLint

open Json (Value)

-- ── Objects in a row ─────────────────────────────────────────────────────────

namespace Outline

mutual

/-- The members of the objects in an outline, each object before those below it. -/
def objects : Outline → List (List (String × Value))
  | node ms below => ms :: allObjects below

/-- The members of the objects in outlines, one outline after the other. -/
def allObjects : List Outline → List (List (String × Value))
  | [] => []
  | o :: os => o.objects ++ allObjects os

end

theorem allObjects_append (os ps : List Outline) :
    allObjects (os ++ ps) = allObjects os ++ allObjects ps := by
  induction os with
  | nil => rfl
  | cons o os ih => rw [List.cons_append, allObjects, allObjects, ih, List.append_assoc]

mutual

/-- An outline has as many objects as nodes. -/
theorem length_objects : ∀ o : Outline, o.objects.length = o.size
  | .node ms below => by rw [objects, size, List.length_cons, length_allObjects below]

theorem length_allObjects : ∀ os : List Outline, (allObjects os).length = sizes os
  | [] => rfl
  | o :: os => by
      rw [allObjects, sizes, List.length_append, length_objects o, length_allObjects os]

end

end Outline

/-- The typed objects of a value, as the lists of their members. -/
def typedObjects (v : Value) : List (List (String × Value)) :=
  Outline.allObjects (Outline.ofValue v)

namespace Tree

mutual

/-- The objects of an outline are carried by the nodes from its number on. -/
theorem Placed.exists_carries {t : Tree} {parent : Option Nat} {id : Nat} :
    ∀ {o : Outline}, t.Placed parent id o → ∀ {k ms}, o.objects[k]? = some ms →
      ∃ n, t.get? (id + k) = some n ∧ Carries ms n
  | .node ms below, h, k, ms', hk => by
      rw [Placed] at h
      rw [Outline.objects] at hk
      obtain ⟨⟨n, hn, hcarries, -⟩, hbelow⟩ := h
      cases k with
      | zero =>
          obtain rfl := Option.some.inj hk
          exact ⟨n, hn, hcarries⟩
      | succ k =>
          rw [List.getElem?_cons_succ] at hk
          obtain ⟨m, hm, hcarries'⟩ := AllPlaced.exists_carries hbelow hk
          refine ⟨m, ?_, hcarries'⟩
          rw [← hm, Nat.add_assoc id 1 k, Nat.add_comm 1 k]

theorem AllPlaced.exists_carries {t : Tree} {parent : Option Nat} {id : Nat} :
    ∀ {os : List Outline}, t.AllPlaced parent id os →
      ∀ {k ms}, (Outline.allObjects os)[k]? = some ms →
        ∃ n, t.get? (id + k) = some n ∧ Carries ms n
  | [], _, _, _, hk => nomatch hk
  | o :: os, h, k, ms, hk => by
      rw [AllPlaced] at h
      rw [Outline.allObjects, List.getElem?_append, Outline.length_objects] at hk
      by_cases hlt : k < o.size
      · rw [if_pos hlt] at hk
        exact Placed.exists_carries h.1 hk
      · rw [if_neg hlt] at hk
        obtain ⟨n, hn, hcarries⟩ := AllPlaced.exists_carries h.2 hk
        refine ⟨n, ?_, hcarries⟩
        rw [← hn, Nat.add_assoc, Nat.add_sub_cancel' (Nat.le_of_not_lt hlt)]

end

/-- The nodes of an imported tree carry the typed objects of the value, in their order. -/
theorem exists_carries_of_ofValue {v : Value} {t : Tree} (h : ofValue v = .ok t) :
    t.size = (typedObjects v).length ∧
      ∀ {i ms}, (typedObjects v)[i]? = some ms → ∃ n, t.get? i = some n ∧ Carries ms n := by
  obtain ⟨o, ho, hsize, hplaced⟩ := placed_of_ofValue h
  have hobjects : typedObjects v = o.objects := by
    rw [typedObjects, ho, Outline.allObjects, Outline.allObjects, List.append_nil]
  rw [hobjects]
  refine ⟨hsize.trans (Outline.length_objects o).symm, ?_⟩
  intro i ms hi
  obtain ⟨n, hn, hcarries⟩ := hplaced.exists_carries hi
  rw [Nat.zero_add] at hn
  exact ⟨n, hn, hcarries⟩

end Tree

-- ── Positions that do not fit ────────────────────────────────────────────────

/-- The largest number of 64 bits, `2 ^ 64 - 1`. -/
def lastNumber : UInt64 := 18446744073709551615

/-- The position of an object leaves 64 bits: the object says where it starts, and either this
    is in the last column or it says that it runs from the first character to the last. -/
def Overflows (ms : List (String × Value)) : Prop :=
  ∃ line column, StartsAt ms line column ∧ (column = lastNumber ∨ Ranges ms 0 lastNumber)

namespace Import

variable {α β : Type} {objects : List (List (String × Value))}

theorem next_lastNumber : next lastNumber = .error .positionOverflow := rfl

theorem next_of_ne {n : UInt64} (h : n ≠ lastNumber) : ∃ m, next n = .ok m := by
  refine ⟨n + 1, if_pos ?_⟩
  have hlt : n.toNat < UInt64.size := n.toNat_lt_size
  have hne : n.toNat ≠ lastNumber.toNat := fun heq => h (UInt64.toNat_inj.mp heq)
  have hlast : lastNumber.toNat + 1 = UInt64.size := rfl
  omega

/-- A range over all numbers has one character too many for a length. -/
theorem extent_full : extent (some (0, lastNumber)) = .error .positionOverflow := rfl

theorem extent_of_ne {range : Option (UInt64 × UInt64)} (h : range ≠ some (0, lastNumber)) :
    ∃ e, extent range = .ok e := by
  cases range with
  | none => exact ⟨_, rfl⟩
  | some r =>
      obtain ⟨first, last⟩ := r
      rw [extent]
      by_cases hle : first ≤ last
      · rw [if_pos hle]
        have hlength : last - first ≠ lastNumber := by
          intro heq
          -- only the full range is that long
          have hsub := UInt64.toNat_sub_of_le last first hle
          rw [heq] at hsub
          have hle' : first.toNat ≤ last.toNat := UInt64.le_iff_toNat_le.mp hle
          have hlt : last.toNat < UInt64.size := last.toNat_lt_size
          have hlast : lastNumber.toNat + 1 = UInt64.size := rfl
          have hfirst : first = 0 := UInt64.toNat_inj.mp (by show first.toNat = 0; omega)
          have hlast' : last = lastNumber := UInt64.toNat_inj.mp (by omega)
          exact h (by rw [hfirst, hlast'])
        obtain ⟨length, hnext⟩ := next_of_ne hlength
        exact ⟨_, Outcome.map_eq_ok_iff.mpr ⟨length, hnext, rfl⟩⟩
      · rw [if_neg hle]
        exact ⟨_, rfl⟩

/-- Read off the members: an object overflows just if it has a start and its column or its range
    is too large. -/
theorem overflows_iff {ms : List (String × Value)} :
    Overflows ms ↔ ∃ line column, start? ms = some (line, column) ∧
      (column = lastNumber ∨ range? ms = some (0, lastNumber)) := by
  simp only [Overflows, start?_eq_some_iff, range?_eq_some_iff]

-- ── What the outcome depends on ──────────────────────────────────────────────

/-- A computation fails if one of the objects overflows, for this reason, and succeeds if none
    does. -/
inductive Decided (objects : List (List (String × Value))) : Except ImportError α → Prop where
  | overflow {ms : List (String × Value)} (hms : ms ∈ objects) (h : Overflows ms) :
      Decided objects (.error .positionOverflow)
  | success (h : ∀ ms ∈ objects, ¬ Overflows ms) (a : α) : Decided objects (.ok a)

/-- Where there is no object, nothing can overflow. -/
theorem decided_ok (a : α) : Decided [] (.ok a) :=
  .success (fun _ hms => absurd hms List.not_mem_nil) a

/-- Two steps together succeed just if none of the objects of both overflows. The second is only
    looked at after the first has succeeded. -/
theorem Decided.bind {objects' : List (List (String × Value))} {x : Except ImportError α}
    {f : α → Except ImportError β} (hx : Decided objects x)
    (hf : ∀ a, x = .ok a → Decided objects' (f a)) : Decided (objects ++ objects') (x >>= f) := by
  cases hx with
  | overflow hms h => exact .overflow (List.mem_append_left objects' hms) h
  | success h a =>
      have hfa := hf a rfl
      show Decided (objects ++ objects') (f a)
      generalize f a = y at hfa
      cases hfa with
      | overflow hms h' => exact .overflow (List.mem_append_right objects hms) h'
      | success h' b => exact .success (List.forall_mem_append.mpr ⟨h, h'⟩) b

/-- What is done afterwards does not matter if it cannot fail. -/
theorem Decided.bind_ok {x : Except ImportError α} {f : α → Except ImportError β}
    (hx : Decided objects x) (hf : ∀ a, ∃ b, f a = .ok b) : Decided objects (x >>= f) := by
  have hbind : Decided (objects ++ []) (x >>= f) := by
    refine hx.bind fun a _ => ?_
    obtain ⟨b, hb⟩ := hf a
    rw [hb]
    exact decided_ok b
  rwa [List.append_nil] at hbind

/-- **The position of a node fails just if its object overflows.** -/
theorem decided_span (ms : List (String × Value)) : Decided [ms] (span ms) := by
  rw [span]
  cases hstart : start? ms with
  | none =>
      refine .success (List.forall_mem_singleton.mpr fun h => ?_) none
      obtain ⟨line, column, hsome, -⟩ := overflows_iff.mp h
      rw [hstart] at hsome
      cases hsome
  | some r =>
      obtain ⟨line, column⟩ := r
      show Decided [ms] (next column >>= _)
      by_cases hcolumn : column = lastNumber
      · subst hcolumn
        rw [next_lastNumber]
        exact .overflow List.mem_cons_self (overflows_iff.mpr ⟨line, _, hstart, .inl rfl⟩)
      obtain ⟨column', hnext⟩ := next_of_ne hcolumn
      rw [hnext]
      by_cases hrange : range? ms = some (0, lastNumber)
      · rw [hrange, extent_full]
        exact .overflow List.mem_cons_self (overflows_iff.mpr ⟨line, column, hstart, .inr hrange⟩)
      · obtain ⟨e, hextent⟩ := extent_of_ne hrange
        rw [hextent]
        refine .success (List.forall_mem_singleton.mpr fun h => ?_) _
        obtain ⟨line', column'', hsome, hover⟩ := overflows_iff.mp h
        obtain ⟨-, rfl⟩ := Prod.mk.inj (Option.some.inj (hstart.symm.trans hsome))
        exact hover.elim hcolumn hrange

/-- A node can be hung on a node that is there. -/
theorem exists_attach {t : Tree} {parent : Option Nat}
    (hparent : ∀ p, parent = some p → p < t.size) (n : Node) :
    ∃ t', attach t parent n = .ok t' := by
  cases parent with
  | none => exact ⟨_, rfl⟩
  | some p =>
      exact ⟨_, Outcome.mapError_eq_ok_iff.mpr (Tree.pushChild_of_lt (hparent p rfl) n)⟩

/-- Entering an object decides about that object: the parent is there, so only the position can
    fail. -/
theorem decided_enter {t : Tree} {parent : Option Nat}
    (hparent : ∀ p, parent = some p → p < t.size) {ms : List (String × Value)} {s : String}
    (hs : typeName? ms = some s) : Decided [ms] (enter t parent ms) := by
  rw [enter, hs]
  have hnode : Decided [ms] (node s ms) := (decided_span ms).bind_ok fun sp => ⟨_, rfl⟩
  refine hnode.bind_ok fun n => ?_
  obtain ⟨t', ht'⟩ := exists_attach hparent n
  exact ⟨(t', some t.size), by rw [ht']; rfl⟩

/-- An object is entered before its members are imported. -/
theorem value_object (t : Tree) (parent : Option Nat) (ms : List (String × Value)) :
    value t parent (.object ms) = enter t parent ms >>= fun r => members r.1 r.2 ms := by
  rw [value]
  cases enter t parent ms with
  | error e => rfl
  | ok r => rfl

theorem items_cons (t : Tree) (parent : Option Nat) (v : Value) (vs : List Value) :
    items t parent (v :: vs) = value t parent v >>= fun t => items t parent vs := by
  rw [items]
  cases value t parent v with
  | error e => rfl
  | ok t => rfl

theorem members_cons (t : Tree) (parent : Option Nat) {key : String}
    (hkey : key ∉ positionMembers) (v : Value) (rest : List (String × Value)) :
    members t parent ((key, v) :: rest) = value t parent v >>= fun t => members t parent rest := by
  rw [members, if_neg hkey]
  cases value t parent v with
  | error e => rfl
  | ok t => rfl

mutual

/-- **The typed objects of a value settle whether its import fails.** -/
theorem decided_value {t : Tree} {parent : Option Nat}
    (hparent : ∀ p, parent = some p → p < t.size) :
    ∀ v : Value, Decided (Outline.allObjects (Outline.ofValue v)) (value t parent v)
  | .object ms => by
      rw [value_object]
      cases hs : typeName? ms with
      | none =>
          have hlookup : ∀ s, ms.lookup "type" ≠ some (.text s) := by
            intro s htext
            exact nomatch hs.symm.trans (typeName?_eq_some_iff.mpr htext)
          rw [Outline.ofValue_untyped hlookup, enter, hs]
          exact decided_members hparent ms
      | some s =>
          rw [Outline.ofValue_typed (typeName?_eq_some_iff.mp hs), Outline.allObjects,
            Outline.objects, Outline.allObjects, List.append_nil]
          refine (decided_enter hparent hs).bind ?_
          rintro ⟨t₁, parent₁⟩ henter
          refine decided_members ?_ ms
          intro p hp
          rcases enter_cases henter with ⟨_, n, -, -, hpush, rfl⟩ | ⟨hno, -⟩
          · obtain rfl := Option.some.inj hp
            rw [hpush.size]
            exact Nat.lt_succ_self _
          · exact absurd (typeName?_eq_some_iff.mp hs) (hno s)
  | .array is => by
      rw [value, Outline.ofValue]
      exact decided_items hparent is
  | .null | .bool _ | .natural _ | .decimal _ | .text _ | .garbled => decided_ok t

theorem decided_items {t : Tree} {parent : Option Nat}
    (hparent : ∀ p, parent = some p → p < t.size) :
    ∀ is : List Value, Decided (Outline.allObjects (Outline.ofItems is)) (items t parent is)
  | [] => decided_ok t
  | v :: vs => by
      rw [items_cons, Outline.ofItems, Outline.allObjects_append]
      refine (decided_value hparent v).bind fun t₁ hv => ?_
      exact decided_items ((value_grown hparent hv).parent_lt hparent) vs

/-- The same for the members of an object, where the position members hold no objects. -/
theorem decided_members {t : Tree} {parent : Option Nat}
    (hparent : ∀ p, parent = some p → p < t.size) :
    ∀ ms : List (String × Value),
      Decided (Outline.allObjects (Outline.ofMembers ms)) (members t parent ms)
  | [] => decided_ok t
  | (key, v) :: rest => by
      rw [Outline.ofMembers]
      by_cases hkey : key = "loc" ∨ key = "range"
      · rw [if_pos hkey, members, if_pos (by simpa [positionMembers] using hkey)]
        exact decided_members hparent rest
      · rw [if_neg hkey, members_cons t parent (by simpa [positionMembers] using hkey),
          Outline.allObjects_append]
        refine (decided_value hparent v).bind fun t₁ hv => ?_
        exact decided_members ((value_grown hparent hv).parent_lt hparent) rest

end

end Import

/-- A value is an object with a text member `type`. -/
def Json.Value.IsTyped (v : Value) : Prop :=
  ∃ ms s, v = .object ms ∧ ms.lookup "type" = some (.text s)

/-- The check made at the root asks for an object with a type. -/
theorem Json.Value.isNode_eq_true_iff {v : Value} : v.isNode = true ↔ v.IsTyped := by
  constructor
  · intro h
    cases v with
    | object ms =>
        obtain ⟨s, hs⟩ := Option.isSome_iff_exists.mp h
        exact ⟨ms, s, rfl, Import.typeName?_eq_some_iff.mp hs⟩
    | _ => exact nomatch h
  · rintro ⟨ms, s, rfl, hs⟩
    exact Option.isSome_iff_exists.mpr ⟨s, Import.typeName?_eq_some_iff.mpr hs⟩

namespace Tree

/-- A value that is no typed object is rejected before anything is imported. -/
theorem ofValue_of_not_isTyped {v : Value} (h : ¬ v.IsTyped) : ofValue v = .error .notANode :=
  if_neg fun hnode => h (Json.Value.isNode_eq_true_iff.mp hnode)

/-- An import fails just if one of the typed objects overflows. -/
theorem decided_ofValue {v : Value} (h : v.IsTyped) :
    Import.Decided (typedObjects v) (ofValue v) := by
  rw [ofValue, if_pos (Json.Value.isNode_eq_true_iff.mpr h)]
  refine Import.decided_value (fun p hp => ?_) v
  cases hp

/-- The node in a place has the position of the object in that place. -/
theorem hasSpan_of_ofValue {v : Value} {t : Tree} (h : ofValue v = .ok t) {i : Nat} {n : Node}
    (hn : t.get? i = some n) : ∃ ms, (typedObjects v)[i]? = some ms ∧ HasSpan ms n.span := by
  obtain ⟨hsize, hcarries⟩ := exists_carries_of_ofValue h
  have hi : i < (typedObjects v).length := hsize ▸ lt_size_of_get? hn
  have hobject := List.getElem?_eq_getElem hi
  obtain ⟨n', hn', hspan⟩ := hcarries hobject
  obtain rfl := Option.some.inj (hn'.symm.trans hn)
  exact ⟨_, hobject, hspan.span⟩

/-- **Two things settle what comes of an import.** It finds no node exactly if the value is
    not an object with a text member `type`, and hanging a node on another never fails. If
    the value is such an object, the import fails with an overflow exactly if the position of
    one of its typed objects leaves 64 bits. In all other cases there is a tree, with a node
    for every typed object in their order, and every node has the position that its object
    gives. -/
theorem ofValue_outcome (v : Value) :
    (ofValue v = .error .notANode ↔ ¬ v.IsTyped) ∧
      (∀ e, ofValue v ≠ .error (.tree e)) ∧
      (v.IsTyped →
        (ofValue v = .error .positionOverflow ↔ ∃ ms ∈ typedObjects v, Overflows ms) ∧
          ((∀ ms ∈ typedObjects v, ¬ Overflows ms) →
            ∃ t, ofValue v = .ok t ∧ t.size = (typedObjects v).length ∧
              ∀ i n, t.get? i = some n →
                ∃ ms, (typedObjects v)[i]? = some ms ∧ HasSpan ms n.span)) := by
  by_cases htyped : v.IsTyped
  · have hdecided := decided_ofValue htyped
    generalize hx : ofValue v = x at hdecided
    cases hdecided with
    | @overflow ms hms hover =>
        refine ⟨⟨nofun, fun hno => absurd htyped hno⟩, nofun, fun _ => ⟨?_, fun hno => ?_⟩⟩
        · exact ⟨fun _ => ⟨ms, hms, hover⟩, fun _ => rfl⟩
        · exact absurd hover (hno ms hms)
    | success hnone t =>
        refine ⟨⟨nofun, fun hno => absurd htyped hno⟩, nofun, fun _ => ⟨⟨nofun, ?_⟩, fun _ => ?_⟩⟩
        · rintro ⟨ms, hms, hover⟩
          exact absurd hover (hnone ms hms)
        · refine ⟨t, rfl, (exists_carries_of_ofValue hx).1, fun i n hn => ?_⟩
          exact hasSpan_of_ofValue hx hn
  · rw [ofValue_of_not_isTyped htyped]
    exact ⟨⟨fun _ => htyped, fun _ => rfl⟩, nofun, fun h => absurd h htyped⟩

-- below the last column a position still fits, and a full range does not matter without a start
example : (ofValue (.object
      [("type", .text "Block"), ("range", .array [.natural 0, .natural lastNumber]),
        ("body", .object [("type", .text "Block"),
          ("loc", .object [("start", .object
            [("line", .natural 1), ("column", .natural 18446744073709551614)])]),
          ("range", .array [.natural 1, .natural lastNumber])])])).toOption.map
        (fun t => t.nodes.toList.map Node.span)
    = some [none, some ⟨1, lastNumber, 1, lastNumber⟩] := by decide +kernel

end Tree

end SolidityLint
