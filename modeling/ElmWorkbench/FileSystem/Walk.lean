import ElmWorkbench.FileSystem.Access
import ElmWorkbench.Text.Quoted
/-!
# Walks

A walk lists the regular files below a directory, depth first and with the names in
each directory in the order of their bytes. Entries that are to be ignored are left
out, directories with all that they hold. Links are followed or left out as asked;
a broken link is left out, and so is a link to a directory that the walk is inside
of. What cannot be looked at is left out too.
-/

namespace ElmWorkbench

/-- A directory, or a file of any kind. -/
inductive EntrySort where
  | directory
  | file
  deriving DecidableEq, Repr

/-- A walk through the files below a directory. -/
structure Walk where
  root : Path
  followLinks : Bool
  /-- An entry is ignored if one of these conditions holds for it. -/
  ignoring : List (Path → EntrySort → Bool)

namespace Walk

/-- Whether an entry is ignored. -/
def ignores (walk : Walk) (path : Path) (sort : EntrySort) : Bool :=
  walk.ignoring.any fun condition => condition path sort

/-- What a walk does with an entry. -/
inductive Kind where
  | file
  | directory (location : Location)
  /-- A link that is not followed. -/
  | link
  deriving DecidableEq, Repr

/-- What the entry at a path is for a walk, if it can be looked at. `above` holds the
directories that the walk is inside of. -/
def kind? (walk : Walk) (files : FileSystem) (above : List Location) (path : Path)
    (location : Location) : Option Kind :=
  match files.find? location with
  | none => none
  | some (.file _ _) => some .file
  | some (.directory _) => some (.directory location)
  | some (.link _) =>
    if !walk.followLinks then some .link
    else match files.locate path with
      | .error _ => none
      | .ok target =>
        if files.hasDirectory target then
          if above.contains target then none else some (.directory target)
        else some .file

/-- The files below a directory. A path whose directory can be opened is shorter than
the limit, so the number that bounds the depth is never used up. -/
def filesBelow (walk : Walk) (files : FileSystem) :
    Nat → List Location → Path → List Path
  | 0, _, _ => []
  | depth + 1, above, directory =>
    match files.locate directory with
    | .error _ => []
    | .ok location =>
      (files.names location).flatMap fun name =>
        let path := directory.join ⟨name⟩
        match walk.kind? files above path (location ++ [name]) with
        | none => []
        | some .link => []
        | some .file => if walk.ignores path .file then [] else [path]
        | some (.directory target) =>
          if walk.ignores path .directory then []
          else walk.filesBelow files depth (target :: above) path

/-- The files of a walk. The root is followed if it is a link, and never ignored. -/
def run (walk : Walk) (files : FileSystem) : Except Error (List Path) := do
  let root ← FileSystem.concerning walk.root (files.locate walk.root)
  if files.hasDirectory root then
    pure (walk.filesBelow files pathLimit [root] walk.root)
  else .error (.notDirectory walk.root)

/-- A walk as it is shown to programmers, with the number of its conditions. -/
def describe (walk : Walk) : String :=
  "Walker \x7b root: " ++ Text.quotedBytes walk.root.bytes ++ ", predicates: "
    ++ toString walk.ignoring.length ++ ", follow_links: " ++ toString walk.followLinks ++ " \x7d"

end Walk

end ElmWorkbench
