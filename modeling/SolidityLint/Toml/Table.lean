import SolidityLint.Dictionary
import SolidityLint.Toml.Value

/-!
# Tables under construction

A document fills tables in any order, but defines each of them once. A table may be
defined by a header, be implied by the header of a table inside it, or come about through
a dotted key; which of these it is decides what may still be added to it.

* A header may define a table that is only implied, and no other that is there.
* A dotted key may lead through tables that no header defined, and adds only to a table
  that came about through a dotted key.
* A header in double brackets adds a table to a list of tables; a way that leads through
  the list goes on in its latest table.
-/

namespace SolidityLint.Toml

/-- How a table came about. -/
inductive Kind where
  /-- By its header. -/
  | defined
  /-- By the header of a table inside it. -/
  | implied
  /-- By a dotted key. -/
  | dotted
  deriving DecidableEq, Repr

/-- What a table under construction holds for a key. -/
inductive Item where
  | value (v : Value)
  | table (kind : Kind) (entries : List (String × Item))
  /-- A list of tables: the latest one, and those before it, the latest first. -/
  | tables (latest : List (String × Item)) (earlier : List (List (String × Item)))
  deriving Inhabited

/-- A table under construction. -/
structure Table where
  kind : Kind
  entries : List (String × Item) := []

namespace Item

mutual

/-- The finished item. -/
def toValue : Item → Value
  | value v => v
  | table _ entries => .table (toEntries entries)
  | tables latest earlier => .array (toTables earlier [.table (toEntries latest)])

/-- The finished entries of a table. -/
def toEntries : List (String × Item) → List (String × Value)
  | [] => []
  | (k, i) :: rest => (k, i.toValue) :: toEntries rest

/-- The finished tables of a list, put in front of those already finished. -/
def toTables : List (List (String × Item)) → List Value → List Value
  | [], done => done
  | t :: rest, done => toTables rest (.table (toEntries t) :: done)

end

end Item

namespace Table

/-- The finished entries. -/
def toEntries (t : Table) : List (String × Value) := Item.toEntries t.entries

/-- Changes the table that a way leads to, making the tables that are missing. A way of
dotted keys does not lead into a table that a header defined. -/
def modifyAt (byDots : Bool) (f : Table → Option Table) : List String → Table → Option Table
  | [], t => f t
  | k :: way, t =>
    match t.entries.lookup k with
    | none => do
      let inner ← modifyAt byDots f way ⟨if byDots then .dotted else .implied, []⟩
      return { t with entries := Dictionary.assign k (.table inner.kind inner.entries) t.entries }
    | some (.value _) => none
    | some (.tables latest earlier) => do
      let inner ← modifyAt byDots f way ⟨.defined, latest⟩
      return { t with entries := Dictionary.assign k (.tables inner.entries earlier) t.entries }
    | some (.table kind entries) =>
      if byDots ∧ kind = .defined then none
      else do
        let inner ← modifyAt byDots f way ⟨kind, entries⟩
        return { t with entries := Dictionary.assign k (.table inner.kind inner.entries) t.entries }

/-- Adds a value under a key that is not taken yet. -/
def add (key : String) (v : Value) (t : Table) : Option Table :=
  match t.entries.lookup key with
  | some _ => none
  | none => some { t with entries := Dictionary.assign key (.value v) t.entries }

/-- Adds a value under a key behind a way of dotted keys. -/
def insert (way : List String) (key : String) (v : Value) (t : Table) : Option Table :=
  t.modifyAt true (fun inner =>
    if way.isEmpty ∨ inner.kind = .dotted then inner.add key v else none) way

/-- Defines the table under a key, if it is missing or only implied. The place of a table
among the entries is the one at which it is defined. -/
def define (key : String) (t : Table) : Option Table :=
  match t.entries.lookup key with
  | none => some { t with entries := Dictionary.assign key (.table .defined []) t.entries }
  | some (.table .implied entries) =>
    let others := Dictionary.erase key t.entries
    some { t with entries := Dictionary.assign key (.table .defined entries) others }
  | some _ => none

/-- Adds an empty table to the list of tables under a key. -/
def append (key : String) (t : Table) : Option Table :=
  match t.entries.lookup key with
  | none => some { t with entries := Dictionary.assign key (.tables [] []) t.entries }
  | some (.tables latest earlier) =>
    some { t with entries := Dictionary.assign key (.tables [] (latest :: earlier)) t.entries }
  | some _ => none

/-- Changes the table that was defined or appended last under a key. -/
def updateLatest (key : String) (f : Table → Option Table) (t : Table) : Option Table :=
  match t.entries.lookup key with
  | some (.table kind entries) => do
    let inner ← f ⟨kind, entries⟩
    return { t with entries := Dictionary.assign key (.table inner.kind inner.entries) t.entries }
  | some (.tables latest earlier) => do
    let inner ← f ⟨.defined, latest⟩
    return { t with entries := Dictionary.assign key (.tables inner.entries earlier) t.entries }
  | _ => none

end Table

end SolidityLint.Toml
