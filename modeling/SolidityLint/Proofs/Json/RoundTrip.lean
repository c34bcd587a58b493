import SolidityLint.Proofs.Json.Token
import SolidityLint.Proofs.Outcome

/-!
# Values, written and read back

A written value is read back wherever it stands, as long as what follows it does not
continue a number. The writer nests as the value does and the reader keeps a list of what
it has read, so the argument has two layers: a run of items or members is read back if each
of its values is (`readItems_write`, `readMembers_write`, by induction on the run), and a
value is read back if those inside it are (`Value.Plain.readsBack`, by induction on the
value). The fuel never runs out because every step of the reader uses up a character.
-/

namespace SolidityLint.Json

-- ── Blanks ───────────────────────────────────────────────────────────────────

theorem length_newline (level : Nat) : (newline level).length = 2 * level + 1 := by
  simp [newline]

theorem skipBlanks_newline (level : Nat) (cs : List Char) :
    skipBlanks (newline level ++ cs) = skipBlanks cs := by
  refine List.dropWhile_append_of_pos fun c hc => ?_
  rcases List.mem_cons.mp hc with rfl | hc
  · rfl
  · rw [List.eq_of_mem_replicate hc]
    rfl

theorem skipBlanks_cons {c : Char} (h : isBlank c = false) (cs : List Char) :
    skipBlanks (c :: cs) = c :: cs :=
  List.dropWhile_cons_of_neg (by rw [h]; exact Bool.false_ne_true)

/-- A value is looked for behind the blanks, so only what follows them matters. -/
theorem readValue_of_skipBlanks {m : Mode} {fuel room : Nat} {cs ds : List Char}
    (h : skipBlanks cs = skipBlanks ds) :
    readValue m fuel room cs = readValue m fuel room ds := by
  cases fuel with
  | zero => rw [readValue, readValue]
  | succ fuel =>
      unfold readValue
      simp only [h]

theorem readMembers_of_skipBlanks {m : Mode} {fuel room : Nat}
    {members : List (Option String × Value)} {cs ds : List Char}
    (h : skipBlanks cs = skipBlanks ds) :
    readMembers m fuel room members cs = readMembers m fuel room members ds := by
  cases fuel with
  | zero => rw [readMembers, readMembers]
  | succ fuel =>
      unfold readMembers
      simp only [h]

-- ── Runs of items and members ────────────────────────────────────────────────

namespace Value

/-- A written value is read back wherever it stands. -/
def ReadsBack (v : Value) : Prop :=
  ∀ (level fuel room : Nat) (rest : List Char), EndsNumber rest →
    (v.write level).length ≤ fuel →
      readValue .tolerant (fuel + 1) room (v.write level ++ rest) = .ok (v, rest)

end Value

open Value

theorem endsNumber_comma (cs : List Char) : EndsNumber (',' :: cs) := by
  simp [EndsNumber]

theorem endsNumber_newline (level : Nat) (cs : List Char) : EndsNumber (newline level ++ cs) := by
  simp [EndsNumber, newline]

/-- Behind an element stands a comma or the line of the closing bracket, and a number may end
    there. -/
theorem endsNumber_writeItems (level close : Nat) (vs : List Value) (cs : List Char) :
    EndsNumber (writeItems level vs ++ (newline close ++ cs)) := by
  cases vs with
  | nil =>
      rw [writeItems, List.nil_append]
      exact endsNumber_newline close cs
  | cons v vs =>
      rw [writeItems]
      exact endsNumber_comma _

theorem endsNumber_writeMembers (level close : Nat) (ms : List (String × Value))
    (cs : List Char) : EndsNumber (writeMembers level ms ++ (newline close ++ cs)) := by
  cases ms with
  | nil =>
      rw [writeMembers, List.nil_append]
      exact endsNumber_newline close cs
  | cons m ms =>
      rw [writeMembers]
      exact endsNumber_comma _

/-- Once an item is read, the items written behind it are read back, up to the closing
    bracket. -/
theorem readItems_write {vs : List Value} (hvs : ∀ v ∈ vs, v.ReadsBack) {level close : Nat}
    {fuel room : Nat} (before : List Value) {v : Value} {cs rest : List Char}
    (hv : readValue .tolerant fuel room cs
      = .ok (v, writeItems level vs ++ (newline close ++ ']' :: rest)))
    (hfuel : (writeItems level vs).length ≤ fuel) :
    readItems .tolerant (fuel + 1) room before.reverse cs
      = .ok (.array (before ++ v :: vs), rest) := by
  induction vs generalizing fuel before v cs with
  | nil =>
      rw [writeItems, List.nil_append] at hv
      rw [readItems, hv]
      simp [skipBlanks_newline, skipBlanks_cons (c := ']') rfl]
  | cons w ws ih =>
      obtain ⟨hw, hws⟩ := List.forall_mem_cons.mp hvs
      rw [writeItems] at hv hfuel
      simp only [List.cons_append, List.append_assoc] at hv
      simp only [List.length_append, List.length_cons, length_newline] at hfuel
      obtain ⟨fuel, rfl⟩ : ∃ k, fuel = k + 2 := ⟨fuel - 2, by omega⟩
      have hitem := hw level fuel room _ (endsNumber_writeItems level close ws (']' :: rest))
        (by omega)
      rw [← readValue_of_skipBlanks (skipBlanks_newline level _)] at hitem
      have hmore := ih hws (before ++ [v]) hitem (by omega)
      rw [readItems, hv]
      simpa [skipBlanks_cons (c := ',') rfl] using hmore

/-- A member whose key stands for something. -/
def named (m : String × Value) : Option String × Value := (some m.1, m.2)

/-- Members that all have a name are the members of the object. -/
theorem objectValue_named (members : List (String × Value)) :
    objectValue .tolerant (members.map named).reverse = .object members := by
  rw [objectValue, List.reverse_reverse, Outcome.mapM_map_eq_some]
  intro m
  rfl

section Members

variable {m : Mode} {fuel room : Nat} {members : List (Option String × Value)} {v : Value}
  {cs ds es : List Char}

/-- A written text starts with its quote. -/
theorem skipBlanks_writeText (key : String) (cs : List Char) :
    skipBlanks (writeText key ++ cs) = '"' :: (key.toList.flatMap escape ++ '"' :: cs) := by
  rw [writeText]
  simp [skipBlanks_cons (c := '"') rfl]

theorem readValue_space (h : readValue m fuel room cs = .ok (v, ds)) :
    readValue m fuel room (' ' :: cs) = .ok (v, ds) := by
  rw [← h]
  exact readValue_of_skipBlanks rfl

/-- A member with another behind it. -/
theorem readMembers_comma (key : String) (hv : readValue m fuel room cs = .ok (v, ds))
    (hds : skipBlanks ds = ',' :: es) :
    readMembers m (fuel + 1) room members (writeText key ++ ':' :: ' ' :: cs)
      = readMembers m fuel room ((some key, v) :: members) es := by
  rw [readMembers.eq_def]
  simp only [skipBlanks_writeText, readText_writeText, skipBlanks_cons (c := ':') rfl,
    readValue_space hv, hds]

/-- The last member. -/
theorem readMembers_close (key : String) (hv : readValue m fuel room cs = .ok (v, ds))
    (hds : skipBlanks ds = '}' :: es) :
    readMembers m (fuel + 1) room members (writeText key ++ ':' :: ' ' :: cs)
      = .ok (objectValue m ((some key, v) :: members), es) := by
  rw [readMembers.eq_def]
  simp only [skipBlanks_writeText, readText_writeText, skipBlanks_cons (c := ':') rfl,
    readValue_space hv, hds]

end Members

/-- Once a member is written, those behind it are read back with it, up to the closing
    bracket. -/
theorem readMembers_write {ms : List (String × Value)} (hms : ∀ m ∈ ms, m.2.ReadsBack)
    {level close : Nat} {fuel room : Nat} (before : List (String × Value)) (key : String)
    {v : Value} {cs rest : List Char}
    (hv : readValue .tolerant fuel room cs
      = .ok (v, writeMembers level ms ++ (newline close ++ '}' :: rest)))
    (hfuel : (writeMembers level ms).length ≤ fuel) :
    readMembers .tolerant (fuel + 1) room (before.map named).reverse
        (writeText key ++ ':' :: ' ' :: cs)
      = .ok (.object (before ++ (key, v) :: ms), rest) := by
  induction ms generalizing fuel before key v cs with
  | nil =>
      have hobject := objectValue_named (before ++ [(key, v)])
      rw [writeMembers, List.nil_append] at hv
      rw [readMembers_close key hv ((skipBlanks_newline close _).trans (skipBlanks_cons rfl _))]
      simpa [named] using hobject
  | cons w ws ih =>
      obtain ⟨key', w⟩ := w
      obtain ⟨hw, hws⟩ := List.forall_mem_cons.mp hms
      rw [writeMembers] at hv hfuel
      simp only [List.cons_append, List.append_assoc, List.nil_append] at hv
      simp only [List.length_append, List.length_cons, length_newline] at hfuel
      obtain ⟨fuel, rfl⟩ : ∃ k, fuel = k + 2 := ⟨fuel - 2, by omega⟩
      have hlength : (w.write level).length ≤ fuel := by omega
      have hmember := hw level fuel room _ (endsNumber_writeMembers level close ws ('}' :: rest))
        hlength
      have hmore := ih hws (before ++ [(key, v)]) key' hmember (by omega)
      rw [readMembers_comma key hv (skipBlanks_cons rfl _),
        readMembers_of_skipBlanks (skipBlanks_newline level _)]
      simpa [named] using hmore

-- ── Values ───────────────────────────────────────────────────────────────────

/-- A value whose numbers are natural numbers of 64 bits and whose texts stand for
    something. -/
inductive Value.Plain : Value → Prop
  | null : Plain .null
  | bool (b : Bool) : Plain (.bool b)
  | natural (n : UInt64) : Plain (.natural n)
  | text (s : String) : Plain (.text s)
  | array {items : List Value} (h : ∀ v ∈ items, Plain v) : Plain (.array items)
  | object {members : List (String × Value)} (h : ∀ m ∈ members, Plain m.2) :
      Plain (.object members)

section Heads

variable {m : Mode} {fuel room : Nat} {cs ds : List Char}

theorem isBlank_of_isDigit {d : Char} (hd : d.isDigit = true) : isBlank d = false := by
  have hspace : d ≠ ' ' := Digits.ne_of_isDigit hd rfl
  have htab : d ≠ '\t' := Digits.ne_of_isDigit hd rfl
  have hline : d ≠ '\n' := Digits.ne_of_isDigit hd rfl
  have hreturn : d ≠ '\r' := Digits.ne_of_isDigit hd rfl
  simp [isBlank, hspace, htab, hline, hreturn]

theorem readValue_digit {d : Char} (hd : d.isDigit = true) :
    readValue m (fuel + 1) room (d :: cs) = readNumber m (d :: cs) := by
  rw [readValue.eq_def]
  simp only [skipBlanks_cons (isBlank_of_isDigit hd)]
  split
  case h_1 h => exact nomatch h
  case h_8 h =>
    obtain ⟨rfl, rfl⟩ := List.cons.inj h
    exact if_pos (.inr hd)
  -- every other case starts with a character that is no digit
  all_goals
    next h => exact absurd (List.cons.inj h).1 (Digits.ne_of_isDigit hd rfl)

/-- A bracket starts an array, which has elements if it is not closed at once. -/
theorem readValue_bracket {c : Char} (hc : c ≠ ']') (hcs : skipBlanks cs = c :: ds) :
    readValue .tolerant (fuel + 1) room ('[' :: cs)
      = readItems .tolerant fuel (room - 1) [] (c :: ds) := by
  rw [readValue.eq_def]
  simp only [skipBlanks_cons (c := '[') rfl, hcs, reduceCtorEq, false_and, if_false]
  split
  · next h => exact nomatch h
  · next h => exact absurd (List.cons.inj h).1 hc
  · rfl

/-- A brace starts an object, which has members if a quote follows. -/
theorem readValue_brace (hcs : skipBlanks cs = '"' :: ds) :
    readValue .tolerant (fuel + 1) room ('{' :: cs)
      = readMembers .tolerant fuel (room - 1) [] ('"' :: ds) := by
  rw [readValue.eq_def]
  simp only [skipBlanks_cons (c := '{') rfl, hcs, reduceCtorEq, false_and, if_false]
  rfl

end Heads

/-- A written value starts with a character that is neither a blank nor a closing bracket. -/
theorem Value.Plain.exists_head {v : Value} (h : v.Plain) (level : Nat) :
    ∃ c cs, v.write level = c :: cs ∧ isBlank c = false ∧ c ≠ ']' := by
  cases h with
  | null => exact ⟨_, _, rfl, rfl, by decide⟩
  | bool b => cases b with
    | true => exact ⟨_, _, rfl, rfl, by decide⟩
    | false => exact ⟨_, _, rfl, rfl, by decide⟩
  | natural n =>
      obtain ⟨d, ds, hds, hd⟩ := Digits.exists_head_toDigits n.toNat
      exact ⟨d, ds, hds, isBlank_of_isDigit hd, Digits.ne_of_isDigit hd rfl⟩
  | text s => exact ⟨_, _, rfl, rfl, by decide⟩
  | @array items h => cases items with
    | nil => exact ⟨_, _, rfl, rfl, by decide⟩
    | cons w ws => exact ⟨_, _, rfl, rfl, by decide⟩
  | @object members h => cases members with
    | nil => exact ⟨_, _, rfl, rfl, by decide⟩
    | cons m ms => exact ⟨_, _, rfl, rfl, by decide⟩

theorem readsBack_natural (n : UInt64) : (natural n).ReadsBack := by
  intro level fuel room rest hrest _
  obtain ⟨d, ds, hds, hd⟩ := Digits.exists_head_toDigits n.toNat
  have hnumber := readNumber_toDigits .tolerant n hrest
  rw [write, hds, List.cons_append, readValue_digit hd, ← List.cons_append, ← hds, hnumber]

theorem readsBack_text (s : String) : (text s).ReadsBack := by
  intro level fuel room rest _ _
  rw [write, writeText, List.cons_append, List.cons_append, List.append_assoc]
  show (readText .tolerant {} (s.toList.flatMap escape ++ '"' :: rest) >>= _) = _
  rw [readText_writeText]
  rfl

/-- **A written array is read back if its elements are.** An empty one is written without a line
    break. -/
theorem readsBack_array {items : List Value} (hplain : ∀ v ∈ items, v.Plain)
    (h : ∀ v ∈ items, v.ReadsBack) : (array items).ReadsBack := by
  intro level fuel room rest _ hfuel
  cases items with
  | nil => rfl
  | cons w ws =>
      obtain ⟨hw, hws⟩ := List.forall_mem_cons.mp h
      obtain ⟨c, cs, hhead, hblank, hc⟩ := (hplain w List.mem_cons_self).exists_head (level + 1)
      rw [write] at hfuel ⊢
      simp only [List.length_append, List.length_cons, length_newline] at hfuel
      obtain ⟨fuel, rfl⟩ : ∃ k, fuel = k + 2 := ⟨fuel - 2, by omega⟩
      have hitem := hw (level + 1) fuel (room - 1) _
        (endsNumber_writeItems (level + 1) level ws (']' :: rest)) (by omega)
      have hitems := readItems_write hws [] hitem (by omega)
      rw [hhead] at hitems ⊢
      simp only [List.cons_append, List.append_assoc, List.nil_append] at hitems ⊢
      rw [readValue_bracket hc]
      · exact hitems
      · rw [skipBlanks_newline, skipBlanks_cons hblank]

/-- **A written object is read back if the values of its members are.** -/
theorem readsBack_object {members : List (String × Value)} (h : ∀ m ∈ members, m.2.ReadsBack) :
    (object members).ReadsBack := by
  intro level fuel room rest _ hfuel
  cases members with
  | nil => rfl
  | cons w ws =>
      obtain ⟨key, w⟩ := w
      obtain ⟨hw, hws⟩ := List.forall_mem_cons.mp h
      rw [write] at hfuel ⊢
      simp only [List.length_append, List.length_cons, length_newline] at hfuel
      obtain ⟨fuel, rfl⟩ : ∃ k, fuel = k + 2 := ⟨fuel - 2, by omega⟩
      have hlength : (w.write (level + 1)).length ≤ fuel := by omega
      have hmember := hw (level + 1) fuel (room - 1) _
        (endsNumber_writeMembers (level + 1) level ws ('}' :: rest)) hlength
      have hmembers := readMembers_write hws [] key hmember (by omega)
      rw [writeText] at hmembers ⊢
      simp only [List.cons_append, List.append_assoc, List.nil_append] at hmembers ⊢
      rw [readValue_brace]
      · exact hmembers
      · rw [skipBlanks_newline, skipBlanks_cons rfl]

/-- **A plain value is read back wherever it stands.** By induction on how it is built. -/
theorem Value.Plain.readsBack {v : Value} (h : v.Plain) : v.ReadsBack := by
  induction h with
  | null =>
      intro level fuel room rest _ _
      rfl
  | bool b =>
      intro level fuel room rest _ _
      cases b with
      | false => rfl
      | true => rfl
  | natural n => exact readsBack_natural n
  | text s => exact readsBack_text s
  | array hplain ih => exact readsBack_array hplain ih
  | object _ ih => exact readsBack_object ih

/-- **A value is read back from its text.** -/
theorem parse_pretty {v : Value} (h : v.Plain) : parse .tolerant v.pretty = .ok v := by
  have hread := h.readsBack 0 (2 * (v.write 0).length + 1) maxDepth [] trivial (by omega)
  rw [List.append_nil] at hread
  rw [parse, pretty, String.toList_ofList, hread]
  rfl

end SolidityLint.Json
