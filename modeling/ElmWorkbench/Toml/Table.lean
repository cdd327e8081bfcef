import ElmWorkbench.Json.Value
/-!
# Tables of TOML documents

A document is a table that grows line by line. A table remembers how it came about,
because that decides what may still be added to it: a header opens a table once,
dotted keys add to tables that dotted keys have made, and values are closed.
-/

namespace ElmWorkbench.Toml

open Json (Value)

/-- How a table came about. -/
inductive Origin where
  /-- A header names it, or it is the whole document. -/
  | header
  /-- It lies on the way to a table that a header names. -/
  | implied
  /-- A dotted key made it. -/
  | dotted
  deriving DecidableEq, Repr

/-- What a key stands for in a document. -/
inductive Item where
  | value (value : Value)
  | table (origin : Origin) (entries : List (String × Item))
  /-- Tables whose headers stand in double brackets. -/
  | tables (elements : List (List (String × Item)))

/-- The entries of a table. -/
abbrev Entries := List (String × Item)

/-- A table that grows. -/
structure Table where
  origin : Origin
  entries : Entries

namespace Table

/-- A table without entries. -/
def empty (origin : Origin) : Table :=
  { origin, entries := [] }

/-- What a key stands for. -/
def find? (table : Table) (key : String) : Option Item :=
  (table.entries.find? fun entry => entry.1 = key).map Prod.snd

/-- Put an item under a key, in place of what stood there. -/
def put (table : Table) (key : String) (item : Item) : Table :=
  if (table.find? key).isSome then
    { table with
      entries := table.entries.map fun entry => if entry.1 = key then (key, item) else entry }
  else { table with entries := table.entries ++ [(key, item)] }

/-- Change the last of several tables. -/
def changeLast (change : Table → Option Table) : List Entries → Option (List Entries)
  | [] => none
  | [last] => (change { origin := .header, entries := last }).map fun table => [table.entries]
  | first :: rest => (changeLast change rest).map (first :: ·)

/-- Change the table at a path, creating the tables on the way. A dotted key does not
lead into a table that a header names. -/
def changeAt (byDots : Bool) (change : Table → Option Table) :
    List String → Table → Option Table
  | [], table => change table
  | key :: path, table =>
    match table.find? key with
    | none => do
      let inner ← changeAt byDots change path (empty (if byDots then .dotted else .implied))
      pure (table.put key (.table inner.origin inner.entries))
    | some (.value _) => none
    | some (.tables elements) => do
      let changed ← changeLast (changeAt byDots change path) elements
      pure (table.put key (.tables changed))
    | some (.table origin entries) =>
      if byDots && origin = .header then none
      else do
        let inner ← changeAt byDots change path { origin, entries }
        pure (table.put key (.table inner.origin inner.entries))

/-- Give a free key a value. A dotted key adds to tables of dotted keys only, and a
plain key never does. -/
def addLeaf (isDotted : Bool) (key : String) (value : Value) (table : Table) : Option Table :=
  if (table.origin = .dotted) ≠ isDotted then none
  else if (table.find? key).isSome then none
  else some (table.put key (.value value))

/-- Add a value under a key that may be dotted. -/
def add (path : List String) (value : Value) (table : Table) : Option Table :=
  match path.getLast? with
  | none => none
  | some key =>
    changeAt true (addLeaf (1 < path.length) key value) path.dropLast table

/-- Open a table under a key by its header. -/
def openLeaf (key : String) (table : Table) : Option Table :=
  match table.find? key with
  | none => some (table.put key (.table .header []))
  | some (.table .implied entries) => some (table.put key (.table .header entries))
  | some _ => none

/-- Open one more of several tables under a key by its header. -/
def openOneMore (key : String) (table : Table) : Option Table :=
  match table.find? key with
  | none => some (table.put key (.tables [[]]))
  | some (.tables elements) => some (table.put key (.tables (elements ++ [[]])))
  | some _ => none

/-- Open the table at a path by its header. -/
def openAt (isOneOfSeveral : Bool) (path : List String) (table : Table) : Option Table :=
  match path.getLast? with
  | none => none
  | some key =>
    changeAt false (if isOneOfSeveral then openOneMore key else openLeaf key) path.dropLast table

end Table

mutual

/-- The value of an item. -/
def Item.toValue : Item → Value
  | .value value => value
  | .table _ entries => .object (entriesToValues entries)
  | .tables elements => .list (elementsToValues elements)

/-- The values of entries. -/
def entriesToValues : List (String × Item) → List (String × Value)
  | [] => []
  | (key, item) :: rest => (key, item.toValue) :: entriesToValues rest

/-- The values of several tables. -/
def elementsToValues : List (List (String × Item)) → List Value
  | [] => []
  | entries :: rest => .object (entriesToValues entries) :: elementsToValues rest

end

/-- The value of a table. -/
def Table.toValue (table : Table) : Value :=
  .object (entriesToValues table.entries)

end ElmWorkbench.Toml
