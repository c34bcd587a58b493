/-!
# Visibility

The visibility keyword of a function or a variable, as a parser writes it. A
declaration without a keyword is written `default`.
-/

namespace SolidityLint

/-- Who may use a declaration. -/
inductive Visibility where
  /-- No keyword was written. -/
  | unmarked
  | pub
  | priv
  | internal
  | external
  deriving DecidableEq, Repr, Inhabited

namespace Visibility

/-- The keyword for a visibility. -/
def keyword : Visibility → String
  | unmarked => "default"
  | pub => "public"
  | priv => "private"
  | internal => "internal"
  | external => "external"

/-- Every visibility. -/
def all : List Visibility := [unmarked, pub, priv, internal, external]

/-- The visibility a keyword stands for, if it is one. -/
def ofKeyword? (s : String) : Option Visibility :=
  all.find? fun v => v.keyword == s

theorem ofKeyword?_keyword (v : Visibility) : ofKeyword? v.keyword = some v := by
  cases v <;> decide +kernel

end Visibility

end SolidityLint
