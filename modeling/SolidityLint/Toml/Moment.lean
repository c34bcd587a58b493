import SolidityLint.Toml.Number

/-!
# Reading dates and times

A date is written `1979-05-27`, a time `07:32:00` with an optional fraction. Between a
date and a time stands a `T` or a single blank; behind both may stand the distance from
universal time.
-/

namespace SolidityLint.Toml

/-- Reads exactly so many digits. -/
def fixed? : (count : Nat) → (n : Nat) → List Char → Option (Nat × List Char)
  | 0, n, cs => some (n, cs)
  | count + 1, n, c :: cs =>
    if c.isDigit then fixed? count (n * 10 + (c.toNat - '0'.toNat)) cs else none
  | _ + 1, _, [] => none

/-- Reads a number of two digits within bounds. -/
def twoDigits? (least greatest : Nat) (cs : List Char) : Option (Nat × List Char) := do
  let (n, rest) ← fixed? 2 0 cs
  if least ≤ n ∧ n ≤ greatest then some (n, rest) else none

/-- Reads a given character. -/
def char? (c : Char) : List Char → Option (List Char)
  | d :: cs => if c = d then some cs else none
  | [] => none

/-- Reads a date. -/
def date? (cs : List Char) : Option (Date × List Char) := do
  let (year, cs) ← fixed? 4 0 cs
  let cs ← char? '-' cs
  let (month, cs) ← twoDigits? 1 12 cs
  let cs ← char? '-' cs
  let (day, cs) ← twoDigits? 1 31 cs
  if day ≤ daysIn year month then some (⟨year, month, day⟩, cs) else none

/-- Reads the fraction of a second in billionths; further digits are dropped. -/
def nanosecond? : List Char → Nat × List Char
  | '.' :: cs =>
    match cs.span Char.isDigit with
    | ([], _) => (0, '.' :: cs)
    | (ds, rest) =>
      let kept := ds.take 9
      (Digits.toNat 10 kept * Nat.pow 10 (9 - kept.length), rest)
  | cs => (0, cs)

/-- Reads a time of day. -/
def time? (cs : List Char) : Option (Time × List Char) := do
  let (hour, cs) ← twoDigits? 0 23 cs
  let cs ← char? ':' cs
  let (minute, cs) ← twoDigits? 0 59 cs
  let cs ← char? ':' cs
  let (second, cs) ← twoDigits? 0 60 cs
  let (nanosecond, cs) := nanosecond? cs
  return (⟨hour, minute, second, nanosecond⟩, cs)

/-- Reads hours and minutes as a number of minutes. -/
def minutes? (cs : List Char) : Option (Nat × List Char) := do
  let (hours, cs) ← twoDigits? 0 23 cs
  let cs ← char? ':' cs
  let (minutes, cs) ← twoDigits? 0 59 cs
  return (hours * 60 + minutes, cs)

/-- Reads the distance from universal time, if it is given. -/
def offset? : List Char → Option (Option Offset × List Char)
  | 'Z' :: cs => some (some .zulu, cs)
  | 'z' :: cs => some (some .zulu, cs)
  | '+' :: cs => do
    let (n, cs) ← minutes? cs
    return (some (.minutes n), cs)
  | '-' :: cs => do
    let (n, cs) ← minutes? cs
    return (some (.minutes (-(n : Int))), cs)
  | cs => some (none, cs)

/-- Reads the time behind a date. -/
def timeAfterDate? : List Char → Option (Time × Option Offset × List Char)
  | c :: cs =>
    if c = 'T' ∨ c = 't' ∨ c = ' ' then do
      let (time, cs) ← time? cs
      let (offset, cs) ← offset? cs
      return (time, offset, cs)
    else none
  | [] => none

/-- Reads a date, a time, or both. -/
def moment? (cs : List Char) : Option (DateTime × List Char) :=
  match date? cs with
  | some (date, cs) =>
    match timeAfterDate? cs with
    | some (time, offset, cs) => some (⟨some date, some time, offset⟩, cs)
    | none => some (⟨some date, none, none⟩, cs)
  | none => (time? cs).map fun (time, cs) => (⟨none, some time, none⟩, cs)

/-- The moment that a text gives and nothing else. -/
def DateTime.ofText? (s : String) : Option DateTime :=
  match moment? s.toList with
  | some (d, []) => some d
  | _ => none

end SolidityLint.Toml
