import ElmWorkbench.CommandLine.Usage
import ElmWorkbench.Edit.Range
/-!
# Arguments

The arguments before and after the name of a command are two levels. On each of them
options stand in any order among the operands, and `--` ends the options. The value of
an argument is looked at when the next argument that is understood begins, so of two
faults the earlier one counts unless the later one is an argument that is not known.
-/

namespace ElmWorkbench.CommandLine

/-- The arguments of a level that have been taken. -/
structure Taken where
  /-- The options of the level that are written out. -/
  options : List (String × Parameter)
  /-- The options of the level that are written with a letter. -/
  letters : List (Char × Parameter)
  /-- The operands that have not been given. -/
  operands : List Parameter
  /-- The values that have been looked at. -/
  settled : List (Parameter × String)
  /-- The last parameter with a value, until that is looked at; it may still be
  awaited. -/
  pending : Option (Parameter × Option String)
  /-- Whether only operands follow. -/
  onlyOperands : Bool

namespace Taken

/-- The options that stand on both levels. -/
def commonOptions : List (String × Parameter) :=
  [("help", .help), ("verbose", .verbose), ("config", .settings)]

/-- The letters that stand on both levels. -/
def commonLetters : List (Char × Parameter) :=
  [('h', .help), ('v', .verbose)]

/-- The level before the name of a command. -/
def outer : Taken where
  options := ("version", .version) :: commonOptions
  letters := ('V', .version) :: commonLetters
  operands := []
  settled := []
  pending := none
  onlyOperands := false

/-- The level after the name of a command. -/
def inner (verb : Verb) : Taken where
  options := verb.options ++ commonOptions
  letters := commonLetters
  operands := verb.operands
  settled := []
  pending := none
  onlyOperands := false

/-- The value of a parameter that has been looked at. -/
def value? (taken : Taken) (parameter : Parameter) : Option String :=
  (taken.settled.find? fun entry => entry.1 = parameter).map Prod.snd

/-- Whether a parameter has been given. -/
def has (taken : Taken) (parameter : Parameter) : Bool :=
  (taken.value? parameter).isSome

/-- Refuse a value that its parameter cannot have. -/
def checkValue (parameter : Parameter) (value : String) : Except Misuse Unit :=
  if parameter.isPath && value.isEmpty then .error (.valueMissing parameter)
  else if parameter.isPosition then
    match Position.ofText value with
    | .ok _ => .ok ()
    | .error cause => .error (.valueInvalid parameter value cause)
  else .ok ()

/-- Settle the value of a parameter that is given once. -/
def record (taken : Taken) (parameter : Parameter) (value : String) : Except Misuse Taken := do
  if taken.has parameter then .error (.repeated parameter)
  else
    checkValue parameter value
    pure { taken with settled := taken.settled ++ [(parameter, value)] }

/-- Look at the value of the last parameter. -/
def settle (taken : Taken) : Except Misuse Taken :=
  match taken.pending with
  | none => .ok taken
  | some (parameter, none) => .error (.valueMissing parameter)
  | some (parameter, some value) => { taken with pending := none }.record parameter value

/-- Take a parameter without value. -/
def takeFlag (taken : Taken) (parameter : Parameter) : Except Misuse Taken := do
  let settled ← taken.settle
  match parameter with
  | .help => .error .help
  | .version => .error .version
  | _ => settled.record parameter ""

/-- Take an option that is written out, perhaps with its value. -/
def takeOption (taken : Taken) (name : String) (attached : Option String) :
    Except Misuse Taken :=
  match taken.options.find? fun entry => entry.1 = name with
  | none => .error (.argumentUnknown ("--" ++ name))
  | some (_, parameter) =>
    if parameter.hasValue then do
      let settled ← taken.settle
      match attached with
      | some value => settled.record parameter value
      | none => pure { settled with pending := some (parameter, none) }
    else match attached with
      | some value => .error (.valueSurplus parameter value)
      | none => taken.takeFlag parameter

/-- Take options that are written with letters. -/
def takeLetters (taken : Taken) : List Char → Except Misuse Taken
  | [] => .ok taken
  | letter :: rest =>
    match taken.letters.find? fun entry => entry.1 = letter with
    | none => .error (.argumentUnknown ("-" ++ String.singleton letter))
    | some (_, parameter) => do
      let next ← taken.takeFlag parameter
      next.takeLetters rest

/-- Take an argument that is no option. -/
def takeOperand (taken : Taken) (argument : String) : Except Misuse Taken :=
  match taken.operands with
  | [] => .error (.argumentUnknown argument)
  | parameter :: others => do
    let settled ← taken.settle
    pure { settled with operands := others, pending := some (parameter, some argument) }

/-- Whether the value of an option is awaited. -/
def awaitsValue (taken : Taken) : Bool :=
  taken.pending.any fun entry => entry.2.isNone

/-- Take an argument that does not begin with a hyphen. -/
def takeWord (taken : Taken) (argument : String) : Except Misuse Taken :=
  match taken.pending with
  | some (parameter, none) => .ok { taken with pending := some (parameter, some argument) }
  | _ => taken.takeOperand argument

/-- Cut an option that is written out at its first equals sign. -/
def cutOption (characters : List Char) : String × Option String :=
  let name := String.ofList (characters.takeWhile (· ≠ '='))
  match characters.dropWhile (· ≠ '=') with
  | _ :: value => (name, some (String.ofList value))
  | [] => (name, none)

/-- Take the next argument of a level. -/
def take (taken : Taken) (argument : String) : Except Misuse Taken :=
  if taken.onlyOperands then taken.takeOperand argument
  else match argument.toList with
    | ['-', '-'] => .ok { taken with onlyOperands := true }
    | '-' :: '-' :: rest =>
      let (name, attached) := cutOption rest
      taken.takeOption name attached
    | '-' :: letter :: rest => taken.takeLetters (letter :: rest)
    | _ => taken.takeWord argument

/-- Settle a level: the last value is looked at, and then the settings file that the
environment names, unless the level names one. The name of a file is not empty. -/
def finish (taken : Taken) (fallback : Option Path) : Except Misuse Taken := do
  let settled ← taken.settle
  if !settled.has .settings && fallback = some ⟨[]⟩ then .error (.valueMissing .settings)
  else pure settled

end Taken

/-- What a command line asks for. -/
inductive Task where
  | replace (file : Path) (first last : Position) (text : String)
  | index (root : Path) (asJson : Bool)
  | sources (root : Path) (asJson : Bool)
  | serve (project : Option Path)
  deriving DecidableEq, Repr

/-- A command line that can be carried out. -/
structure Request where
  isVerbose : Bool
  /-- The settings file to use instead of the default one. -/
  settings : Option Path
  task : Task
  deriving DecidableEq, Repr

namespace Request

/-- The names after the command that asks for help lead to a command, or to help
itself. -/
def helpFor : List String → Misuse
  | [] => .help
  | [name] =>
    if name = "help" || (Verb.ofName? name).isSome then .help else .verbUnknown name
  | name :: next :: _ =>
    if name = "help" || (Verb.ofName? name).isSome then .verbUnknown next
    else .verbUnknown name

/-- A position that has been looked at. -/
def positionOf (taken : Taken) (parameter : Parameter) : Except Misuse Position :=
  match (taken.value? parameter).bind Position.parse? with
  | some position => .ok position
  | none => .error .requiredMissing

/-- A path that has been given. -/
def pathOf? (taken : Taken) (parameter : Parameter) : Option Path :=
  (taken.value? parameter).map Path.ofString

/-- The directory that commands are about unless they name one. -/
def here : Path :=
  ⟨Path.dot⟩

/-- What a command with its arguments asks for. -/
def taskOf (verb : Verb) (taken : Taken) : Except Misuse Task :=
  match verb with
  | .replace => do
    let first ← positionOf taken .first
    let last ← positionOf taken .last
    match pathOf? taken .file with
    | some file => pure (.replace file first last ((taken.value? .text).getD ""))
    | none => .error .requiredMissing
  | .index => .ok (.index ((pathOf? taken .root).getD here) (taken.has .json))
  | .sources => .ok (.sources ((pathOf? taken .root).getD here) (taken.has .json))
  | .serve => .ok (.serve (pathOf? taken .project))

/-- Read the arguments after the name of a command, then settle those before it. -/
def readInner (fallback : Option Path) (outer : Taken) (verb : Verb)
    (arguments : List String) : Except Misuse Request := do
  let inner ← (← arguments.foldlM Taken.take (Taken.inner verb)).finish fallback
  if !verb.required.all inner.has then .error .requiredMissing
  else
    let task ← taskOf verb inner
    let before ← outer.finish fallback
    pure
      { isVerbose := inner.has .verbose || before.has .verbose
        settings := ((pathOf? inner .settings).or (pathOf? before .settings)).or fallback
        task }

/-- A command line that ends without the name of a command. -/
def withoutVerb (fallback : Option Path) (outer : Taken) : Except Misuse Request := do
  let before ← outer.finish fallback
  if before.settled.isEmpty && fallback.isNone then .error .nothingAsked
  else .error .verbMissing

/-- A word where a command should be named. -/
def readVerb (fallback : Option Path) (outer : Taken) (word : String)
    (arguments : List String) : Except Misuse Request :=
  match Verb.ofName? word with
  | some verb =>
    if outer.onlyOperands then .error (.argumentUnknown word)
    else readInner fallback outer verb arguments
  | none =>
    if word = "help" then
      .error (if outer.onlyOperands then .argumentUnknown word else helpFor arguments)
    else .error (.verbUnknown word)

/-- Read the arguments from the front of the command line. -/
def readOuter (fallback : Option Path) : Taken → List String → Except Misuse Request
  | outer, [] => withoutVerb fallback outer
  | outer, argument :: rest =>
    let isWord := outer.onlyOperands || argument = "-" || !argument.startsWith "-"
    if isWord && !(outer.awaitsValue && !outer.onlyOperands) then
      readVerb fallback outer argument rest
    else do
      let next ← outer.take argument
      readOuter fallback next rest

/-- Read a command line; `fallback` is the settings file that the environment names. -/
def read (fallback : Option Path) (arguments : List String) : Except Misuse Request :=
  readOuter fallback Taken.outer arguments

end Request

end ElmWorkbench.CommandLine
