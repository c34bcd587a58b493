import Mathlib.Data.List.Forall2
import SolidityLint.Proofs.Path.Component
import SolidityLint.Proofs.Path.Normal

/-!
# Joined paths

The pass over the segments of a path can be stopped at any slash and taken up again. All it
has to remember is whether the path starts at the root and what is on the stack, and both can
be told from what the path up to there resolves to (`ofText_append_slash`). So whatever stands
behind the slash comes to the same behind all paths that resolve to the same, and a path
resolves to the same as its normal form (`ofText_normalize`), be this `.`, `/` or a run of `..`.

Back slashes are turned before anything else is looked at, so it does not matter which way a
slash leans.
-/

namespace SolidityLint.Path

-- ── Taking up the pass ───────────────────────────────────────────────────────

/-- What a resolved path becomes when further segments follow it. -/
def Resolved.followedBy (r : Resolved) (segments : List Segment) : Resolved :=
  ⟨r.absolute, (segments.foldl (keep r.absolute) r.segments.reverse).reverse⟩

/-- What stands on the stack is all that the pass has to remember. -/
theorem followedBy_resolve (absolute : Bool) (segments more : List Segment) :
    (Resolved.mk absolute (resolve absolute segments)).followedBy more
      = ⟨absolute, resolve absolute (segments ++ more)⟩ := by
  simp [Resolved.followedBy, resolve, List.foldl_append]

theorem isAbsolute_append {cs : List Char} (h : cs ≠ []) (ds : List Char) :
    isAbsolute (cs ++ ds) = isAbsolute cs := by
  cases cs with
  | nil => exact absurd rfl h
  | cons c cs =>
      by_cases hc : c = '/'
      · subst hc
        rfl
      · simp [isAbsolute, hc]

/-- **The pass can be taken up at a slash**, unless nothing stands before it, when the slash
    stands for the root. -/
theorem ofText_append_slash {p : String} (hp : p ≠ "") (q : String) :
    Resolved.ofText (p ++ "/" ++ q)
      = (Resolved.ofText p).followedBy (split (unify q.toList)) := by
  have htext : unify (p ++ "/" ++ q).toList = unify p.toList ++ '/' :: unify q.toList := by
    simp [unify]
  have hne : unify p.toList ≠ [] := by simp [unify, hp]
  show Resolved.mk (isAbsolute (unify (p ++ "/" ++ q).toList)) _
    = (Resolved.mk (isAbsolute (unify p.toList)) (resolve _ (split (unify p.toList)))).followedBy _
  rw [followedBy_resolve, htext, isAbsolute_append hne, split_append]

-- ── A path and its normal form ───────────────────────────────────────────────

/-- A normalized path resolves to the same as the path. -/
theorem ofText_normalize (p : String) : Resolved.ofText (normalize p) = Resolved.ofText p :=
  (isNormal_ofText p).ofText_text

/-- Two paths have one normal form exactly when they resolve to the same. -/
theorem normalize_eq_iff {p q : String} :
    normalize p = normalize q ↔ Resolved.ofText p = Resolved.ofText q := by
  constructor
  · intro h
    rw [← ofText_normalize p, ← ofText_normalize q, h]
  · intro h
    show (Resolved.ofText p).text = (Resolved.ofText q).text
    rw [h]

/-- A normalized path is never empty: the shortest are `.` and `/`. -/
theorem normalize_ne_empty (p : String) : normalize p ≠ "" := by
  intro h
  have hresolved : Resolved.ofText "" = Resolved.ofText p := h ▸ ofText_normalize p
  have hdot : normalize "" = "." := rfl
  rw [normalize_eq_iff.mpr hresolved, h] at hdot
  exact absurd hdot (by decide)

-- ── Which way slashes lean ───────────────────────────────────────────────────

/-- A character of a path that is respelled: it stays as it is, or a slash of either kind is
    written as a slash of either kind. -/
def SameMark (c d : Char) : Prop :=
  c = d ∨ (c = '/' ∨ c = '\\') ∧ (d = '/' ∨ d = '\\')

/-- Two texts that differ at most in which way their slashes lean. -/
def Respelled (p q : String) : Prop := List.Forall₂ SameMark p.toList q.toList

/-- Texts that differ only in which separators they use become one text. -/
theorem unify_eq_of_forall₂ {cs ds : List Char} (h : List.Forall₂ SameMark cs ds) :
    unify cs = unify ds := by
  induction h with
  | nil => rfl
  | @cons c d cs ds hcd _ ih =>
      show (if c = '\\' then '/' else c) :: unify cs = (if d = '\\' then '/' else d) :: unify ds
      rw [ih]
      rcases hcd with rfl | ⟨rfl | rfl, rfl | rfl⟩
      · rfl
      · rfl
      · rfl
      · rfl
      · rfl

/-- Paths that differ only in which separators they use resolve to the same. -/
theorem Respelled.ofText_eq {p q : String} (h : Respelled p q) :
    Resolved.ofText p = Resolved.ofText q := by
  show Resolved.mk (isAbsolute (unify p.toList)) (resolve _ (split (unify p.toList)))
    = Resolved.mk (isAbsolute (unify q.toList)) (resolve _ (split (unify q.toList)))
  rw [unify_eq_of_forall₂ h]

/-- **Normalizing is a congruence for joining paths.** Behind a path that is not empty,
    anything can be joined to its normal form instead, to the same effect; and however many of
    the slashes of a path are turned around, its normal form stays the same. Behind the empty
    path the first law fails whatever is joined, since a slash with nothing before it stands for
    the root and the empty path is the relative `.`. -/
theorem normalize_joined :
    (∀ p q : String, p ≠ "" →
      normalize (p ++ "/" ++ q) = normalize (normalize p ++ "/" ++ q)) ∧
    (∀ p p' : String, Respelled p p' → normalize p' = normalize p) ∧
    ∀ q : String, normalize ("" ++ "/" ++ q) ≠ normalize (normalize "" ++ "/" ++ q) := by
  refine ⟨?_, ?_, ?_⟩
  · intro p q hp
    rw [normalize_eq_iff, ofText_append_slash hp, ofText_append_slash (normalize_ne_empty p),
      ofText_normalize]
  · intro p p' h
    exact (normalize_eq_iff.mpr h.ofText_eq).symm
  · intro q h
    have hresolved := normalize_eq_iff.mp h
    rw [ofText_append_slash (normalize_ne_empty "") q] at hresolved
    have hroot : (Resolved.ofText ("" ++ "/" ++ q)).absolute = true := by
      show isAbsolute (unify ("" ++ "/" ++ q).toList) = true
      simp [unify, isAbsolute]
    rw [hresolved] at hroot
    exact Bool.noConfusion hroot

/-- Two of the `..` behind the slash take the names before it, and the third stays. -/
theorem normalize_joined_ups :
    normalize ("../a\\b" ++ "/" ++ "..//../../c")
        = normalize (normalize "../a\\b" ++ "/" ++ "..//../../c") ∧
      normalize (normalize "../a\\b" ++ "/" ++ "..//../../c") = "../../c" ∧
      normalize "..\\a/b" = normalize "../a\\b" := by
  refine ⟨normalize_joined.1 _ _ (by decide), by decide +kernel, ?_⟩
  exact normalize_joined.2.1 _ _ (by simp [Respelled, SameMark])

end SolidityLint.Path
