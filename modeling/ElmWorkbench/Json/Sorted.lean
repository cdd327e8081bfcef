import ElmWorkbench.Json.Value
/-!
# Values with sorted keys

The form of a value in which every object has each key once and the keys are in order.
Of several entries with one key the last counts.
-/

namespace ElmWorkbench.Json

/-- Put an entry into sorted entries, in place of one with the same key. -/
def insertEntry (key : String) (value : Value) :
    List (String × Value) → List (String × Value)
  | [] => [(key, value)]
  | (first, held) :: rest =>
    if key = first then (key, value) :: rest
    else if key < first then (key, value) :: (first, held) :: rest
    else (first, held) :: insertEntry key value rest

/-- Sort entries by their keys; of several with one key the last counts. -/
def sortEntries (entries : List (String × Value)) : List (String × Value) :=
  entries.foldl (fun sorted entry => insertEntry entry.1 entry.2 sorted) []

mutual

/-- The value with sorted keys in all objects. -/
def Value.sorted : Value → Value
  | .list elements => .list (sortedElements elements)
  | .object entries => .object (sortEntries (sortedMembers entries))
  | other => other

/-- Elements with sorted keys. -/
def sortedElements : List Value → List Value
  | [] => []
  | element :: rest => element.sorted :: sortedElements rest

/-- The values of entries with sorted keys. -/
def sortedMembers : List (String × Value) → List (String × Value)
  | [] => []
  | (key, value) :: rest => (key, value.sorted) :: sortedMembers rest

end

end ElmWorkbench.Json
