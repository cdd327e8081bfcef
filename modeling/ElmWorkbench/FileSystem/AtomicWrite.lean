import ElmWorkbench.FileSystem.Change
/-!
# Atomic writes

A file is replaced as a whole: the new contents go to a temporary file beside it,
which gets the mode of what the path led to before and is then moved over the path.
If that fails the temporary file is removed again, so a reader finds the old file or
the new one, and never a part of it.
-/

namespace ElmWorkbench

namespace AtomicWrite

/-- The name of the temporary file for a path. -/
def temporaryName (processId : Nat) (path : Path) : String :=
  "." ++ (path.fileName?.map Utf8.decodeLossy).getD "" ++ "." ++ toString processId ++ ".tmp"

/-- The temporary file for a path, which lies beside it. -/
def temporary (processId : Nat) (path : Path) : Path :=
  path.withFileName (Utf8.encode (temporaryName processId path))

/-- Create the directory that a path lies in. -/
def prepare (path : Path) : Attempt Unit :=
  match path.parent? with
  | some parent => if parent.bytes = [] then pure () else Attempt.createDirectories parent
  | none => pure ()

/-- Give the temporary file the mode of what the path leads to, if it leads to
anything. -/
def copyMode (temporary path : Path) : Attempt Unit := do
  match ← Attempt.look fun files => .ok (files.mode? path) with
  | some mode => Attempt.step temporary fun files => files.changeMode temporary mode
  | none => pure ()

/-- Write the temporary file and move it over the path. -/
def replace (temporary path : Path) (contents : Bytes) : Attempt Unit := do
  Attempt.step temporary fun files => files.overwrite temporary contents
  copyMode temporary path
  Attempt.step path fun files => files.rename temporary path

/-- Remove the temporary file if what came before fails. -/
def cleaningUp (temporary : Path) (attempt : Attempt Unit) : Attempt Unit :=
  tryCatch attempt fun error => do
    Attempt.tryStep fun files => files.remove temporary
    throw error

/-- Replace the contents of a file, or create it. -/
def write (processId : Nat) (path : Path) (contents : Bytes) : Attempt Unit := do
  prepare path
  cleaningUp (temporary processId path) (replace (temporary processId path) path contents)

end AtomicWrite

end ElmWorkbench
