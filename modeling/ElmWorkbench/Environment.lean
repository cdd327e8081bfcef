import ElmWorkbench.Path
/-!
# The surroundings of the program

What a run of the program is given from outside besides its arguments and the
files: the variables of its environment, the home directory of the account and the
number of the process.
-/

namespace ElmWorkbench

/-- What a run of the program is given from outside. -/
structure Environment where
  /-- The variables with their values. -/
  assigned : List (String × Bytes)
  /-- The home directory that the account is registered with. -/
  accountHome : Option Path
  processId : Nat

namespace Environment

/-- The value of a variable. -/
def value? (environment : Environment) (name : String) : Option Bytes :=
  (environment.assigned.find? fun entry => entry.1 = name).map Prod.snd

/-- The value of a variable that is not empty. -/
def setting? (environment : Environment) (name : String) : Option Bytes :=
  (environment.value? name).filter (· ≠ [])

/-- The home directory: the variable `HOME`, or else what the account is
registered with. -/
def home? (environment : Environment) : Option Path :=
  match environment.setting? "HOME" with
  | some bytes => some ⟨bytes⟩
  | none => environment.accountHome

/-- The directory for settings: the variable `XDG_CONFIG_HOME` if it is an absolute
path, or else `.config` in the home directory. -/
def settingsDirectory? (environment : Environment) : Option Path :=
  match (environment.value? "XDG_CONFIG_HOME").filter fun bytes => Path.isAbsolute ⟨bytes⟩ with
  | some bytes => some ⟨bytes⟩
  | none => environment.home?.map (·.child ".config")

end Environment

end ElmWorkbench
