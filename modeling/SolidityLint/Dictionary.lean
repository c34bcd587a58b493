/-!
# Dictionaries

A dictionary is a list of keys with their values, in the order in which the keys came
up; `List.lookup` finds the value of a key. Giving a key another value leaves it in its
place.
-/

namespace SolidityLint.Dictionary

variable {κ α : Type} [DecidableEq κ]

/-- Gives a key a value, at the place of the key if it is there already and at the end
if it is not. -/
def assign (key : κ) (value : α) : List (κ × α) → List (κ × α)
  | [] => [(key, value)]
  | (k, v) :: rest => if k = key then (k, value) :: rest else (k, v) :: assign key value rest

/-- Takes a key out. -/
def erase (key : κ) (entries : List (κ × α)) : List (κ × α) :=
  entries.filter fun (k, _) => k ≠ key

/-- The dictionary that assigning the pairs of a list one after the other makes: of
values for one key the last counts, at the place of the first. -/
def settle (pairs : List (κ × α)) : List (κ × α) :=
  pairs.foldl (fun settled (k, v) => assign k v settled) []

end SolidityLint.Dictionary
