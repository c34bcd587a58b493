/-!
# Path segments

A path is read as the list of pieces between its slashes. Pieces are lists of
characters, so that the laws of the modules above are laws of lists. Main statement:
cutting a text at its slashes and joining the pieces again gives the text back.
-/

namespace SolidityLint.Path

/-- A piece of a path between two slashes. -/
abbrev Segment := List Char

/-- The segment `.`, which stands for the directory it is in. -/
def Segment.here : Segment := ['.']

/-- The segment `..`, which stands for the directory above. -/
def Segment.up : Segment := ['.', '.']

/-- Cuts a text at its slashes; `n` slashes give `n + 1` pieces. -/
def split : List Char → List Segment
  | [] => [[]]
  | c :: cs =>
    if c = '/' then [] :: split cs
    else match split cs with
      | [] => [[c]]
      | s :: rest => (c :: s) :: rest

/-- Puts a slash between the pieces. -/
def join : List Segment → List Char
  | [] => []
  | [s] => s
  | s :: t :: rest => s ++ '/' :: join (t :: rest)

theorem split_ne_nil (cs : List Char) : split cs ≠ [] := by
  cases cs with
  | nil => simp [split]
  | cons c cs =>
    simp only [split]
    split
    · simp
    · split <;> simp

theorem join_split (cs : List Char) : join (split cs) = cs := by
  induction cs with
  | nil => rfl
  | cons c cs ih =>
    simp only [split]
    split
    · next h =>
      cases hs : split cs with
      | nil => exact absurd hs (split_ne_nil cs)
      | cons s rest => rw [join, ← hs, ih, h]; rfl
    · cases hs : split cs with
      | nil => exact absurd hs (split_ne_nil cs)
      | cons s rest =>
        rw [hs] at ih
        cases rest with
        | nil => simpa [join] using ih
        | cons t rest => simpa [join] using ih

end SolidityLint.Path
