/-!
# Computations that can fail

What it means for a chain of steps to succeed: every step did, each with a value that the
next one took. A pass over a list succeeds exactly when each of its items does, and then
its values are those of the items in their order. Two computations agree when they succeed
with the same value or both fail, for whatever reason.
-/

namespace SolidityLint.Outcome

variable {ε ε' α β : Type}

/-- Two steps succeed if the first does and the second does on its result. -/
theorem bind_eq_ok_iff {x : Except ε α} {f : α → Except ε β} {b : β} :
    (x >>= f) = .ok b ↔ ∃ a, x = .ok a ∧ f a = .ok b := by
  cases x with
  | error e => exact ⟨nofun, nofun⟩
  | ok a =>
      constructor
      · intro h
        exact ⟨a, rfl, h⟩
      · rintro ⟨a', ha, h⟩
        obtain rfl := Except.ok.inj ha
        exact h

theorem map_eq_ok_iff {x : Except ε α} {f : α → β} {b : β} :
    x.map f = .ok b ↔ ∃ a, x = .ok a ∧ f a = b := by
  cases x with
  | error e => exact ⟨nofun, nofun⟩
  | ok a =>
      constructor
      · intro h
        exact ⟨a, rfl, Except.ok.inj h⟩
      · rintro ⟨a', ha, rfl⟩
        obtain rfl := Except.ok.inj ha
        rfl

/-- A context put on errors leaves the successes alone. -/
theorem mapError_eq_ok_iff {x : Except ε α} {f : ε → ε'} {a : α} :
    x.mapError f = .ok a ↔ x = .ok a := by
  cases x with
  | error e => exact ⟨nofun, nofun⟩
  | ok b => exact ⟨fun h => congrArg _ (Except.ok.inj h), fun h => congrArg _ (Except.ok.inj h)⟩

/-- A result that is there can be read off the option, which is easier to compute with. -/
theorem eq_ok_of_toOption {x : Except ε α} {a : α} (h : x.toOption = some a) : x = .ok a := by
  cases x with
  | error e => exact nomatch h
  | ok b => exact congrArg _ (Option.some.inj h)

/-- A pass that undoes what was done to every item gives the items back. -/
theorem mapM_map_eq_some {f : β → Option α} {g : α → β} (h : ∀ x, f (g x) = some x)
    (xs : List α) : (xs.map g).mapM f = some xs := by
  induction xs with
  | nil => rfl
  | cons x xs ih =>
      rw [List.map_cons, List.mapM_cons, h, ih]
      rfl

/-- A pass over items whose values are known succeeds when every item does, with these
    values. -/
theorem mapM_eq_ok_iff {f : α → Except ε β} {g : α → β} (hg : ∀ {x y}, f x = .ok y → y = g x)
    {xs : List α} {ys : List β} :
    xs.mapM f = .ok ys ↔ (∀ x ∈ xs, f x = .ok (g x)) ∧ ys = xs.map g := by
  induction xs generalizing ys with
  | nil =>
      constructor
      · intro h
        exact ⟨nofun, (Except.ok.inj h).symm⟩
      · rintro ⟨-, rfl⟩
        rfl
  | cons x xs ih =>
      rw [List.mapM_cons, bind_eq_ok_iff]
      constructor
      · rintro ⟨y, hy, h⟩
        obtain ⟨zs, hzs, h⟩ := bind_eq_ok_iff.mp h
        obtain rfl := Except.ok.inj h
        obtain ⟨hall, rfl⟩ := ih.mp hzs
        obtain rfl := hg hy
        exact ⟨List.forall_mem_cons.mpr ⟨hy, hall⟩, rfl⟩
      · rintro ⟨hall, rfl⟩
        obtain ⟨hx, hxs⟩ := List.forall_mem_cons.mp hall
        exact ⟨g x, hx, bind_eq_ok_iff.mpr ⟨xs.map g, ih.mpr ⟨hxs, rfl⟩, rfl⟩⟩

/-- A pass over items fails as the first item does that fails, whatever comes after it. -/
theorem mapM_eq_error {f : α → Except ε β} {x : α} {e : ε} (hx : f x = .error e)
    {before : List α} (hbefore : ∀ y ∈ before, ∃ b, f y = .ok b) (after : List α) :
    (before ++ x :: after).mapM f = .error e := by
  induction before with
  | nil =>
      rw [List.nil_append, List.mapM_cons, hx]
      rfl
  | cons y ys ih =>
      obtain ⟨⟨b, hb⟩, hys⟩ := List.forall_mem_cons.mp hbefore
      rw [List.cons_append, List.mapM_cons, hb, ih hys]
      rfl

/-- Among items of which some fail there is a first that does. -/
theorem exists_first_error {f : α → Except ε β} {xs : List α}
    (h : ∃ x ∈ xs, ∃ e, f x = .error e) :
    ∃ before x after e, xs = before ++ x :: after ∧ (∀ y ∈ before, ∃ b, f y = .ok b) ∧
      f x = .error e := by
  induction xs with
  | nil =>
      obtain ⟨x, hx, -⟩ := h
      exact nomatch hx
  | cons y ys ih =>
      cases hy : f y with
      | error e => exact ⟨[], y, ys, e, rfl, nofun, hy⟩
      | ok b =>
          obtain ⟨x, hx, e, he⟩ := h
          rcases List.mem_cons.mp hx with rfl | hx
          · exact nomatch hy.symm.trans he
          · obtain ⟨before, z, after, e', rfl, hbefore, hz⟩ := ih ⟨x, hx, e, he⟩
            exact ⟨y :: before, z, after, e', rfl, List.forall_mem_cons.mpr ⟨⟨b, hy⟩, hbefore⟩, hz⟩

/-- Two computations agree: they succeed with the same value, or both fail. -/
def Agree (x y : Except ε α) : Prop :=
  (∃ a, x = .ok a ∧ y = .ok a) ∨ (∃ e, x = .error e) ∧ ∃ e, y = .error e

/-- Outcomes with the same successes agree, since any two failures do. -/
theorem agree_of_ok_iff {x y : Except ε α} (h : ∀ a, x = .ok a ↔ y = .ok a) : Agree x y := by
  cases x with
  | ok a => exact .inl ⟨a, rfl, (h a).mp rfl⟩
  | error e =>
      cases y with
      | ok a => exact nomatch (h a).mpr rfl
      | error e' => exact .inr ⟨⟨e, rfl⟩, e', rfl⟩

/-- A step that both take first does not spoil the agreement. -/
theorem Agree.bind {f g : β → Except ε α} (x : Except ε β) (h : ∀ b, Agree (f b) (g b)) :
    Agree (x >>= f) (x >>= g) := by
  cases x with
  | ok b => exact h b
  | error e => exact .inr ⟨⟨e, rfl⟩, e, rfl⟩

end SolidityLint.Outcome
