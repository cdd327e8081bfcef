import ElmWorkbench.Error
/-!
# Usage of the command line

What the command line can set, and how it can be misused. `Misuse.message` words the
misuses; help and the version are asked for in the same way, and end a run too.
-/

namespace ElmWorkbench.CommandLine

/-- The name of the program. -/
def programName : String := "elm-ide"

/-- The version of the program. -/
def programVersion : String := "0.1.0"

/-- The variable that names a settings file. -/
def settingsVariable : String := "ELM_IDE_CONFIG"

/-- What arguments can set or ask for. -/
inductive Parameter where
  | help
  | version
  | verbose
  | settings
  | file
  | first
  | last
  | text
  | root
  | json
  | project
  deriving DecidableEq, Repr

namespace Parameter

/-- A parameter in messages. -/
def shown : Parameter → String
  | .help => "--help"
  | .version => "--version"
  | .verbose => "--verbose"
  | .settings => "--config <CONFIG>"
  | .file => "<FILE>"
  | .first => "--from <FROM>"
  | .last => "--to <TO>"
  | .text => "--text <TEXT>"
  | .root => "[ROOT]"
  | .json => "--json"
  | .project => "--project <PROJECT>"

/-- Whether a parameter has a value. -/
def hasValue : Parameter → Bool
  | .help => false
  | .version => false
  | .verbose => false
  | .json => false
  | _ => true

/-- Whether the value of a parameter is a path. -/
def isPath : Parameter → Bool
  | .settings => true
  | .file => true
  | .root => true
  | .project => true
  | _ => false

/-- Whether the value of a parameter is a position. -/
def isPosition : Parameter → Bool
  | .first => true
  | .last => true
  | _ => false

end Parameter

/-- The commands of the program. -/
inductive Verb where
  | replace
  | index
  | sources
  | serve
  deriving DecidableEq, Repr

namespace Verb

/-- All commands. -/
def all : List Verb :=
  [replace, index, sources, serve]

/-- The name of a command. -/
def name : Verb → String
  | .replace => "replace"
  | .index => "index"
  | .sources => "sources"
  | .serve => "serve"

/-- The command with a name. -/
def ofName? (name : String) : Option Verb :=
  all.find? fun verb => verb.name = name

/-- The options of a command besides those that stand everywhere. -/
def options : Verb → List (String × Parameter)
  | .replace => [("from", .first), ("to", .last), ("text", .text)]
  | .index => [("json", .json)]
  | .sources => [("json", .json)]
  | .serve => [("project", .project)]

/-- What the arguments of a command that are no options set, in order. -/
def operands : Verb → List Parameter
  | .replace => [.file]
  | .index => [.root]
  | .sources => [.root]
  | .serve => []

/-- What a command cannot do without. -/
def required : Verb → List Parameter
  | .replace => [.file, .first, .last]
  | _ => []

end Verb

/-- Why a command line is not carried out. -/
inductive Misuse where
  /-- Help is asked for. -/
  | help
  /-- The version is asked for. -/
  | version
  /-- There are no arguments. -/
  | nothingAsked
  /-- There are arguments, but no command. -/
  | verbMissing
  | verbUnknown (name : String)
  | argumentUnknown (argument : String)
  | requiredMissing
  | valueMissing (parameter : Parameter)
  | valueInvalid (parameter : Parameter) (value : String) (error : Error)
  | repeated (parameter : Parameter)
  /-- A parameter without value is given one. -/
  | valueSurplus (parameter : Parameter) (value : String)
  deriving DecidableEq, Repr

/-- The wording of a misuse; a request for help has none here. -/
def Misuse.message? : Misuse → Option String
  | .help => none
  | .version => none
  | .nothingAsked => none
  | .verbMissing =>
    some ("'" ++ programName ++ "' requires a subcommand but one was not provided")
  | .verbUnknown name => some ("unrecognized subcommand '" ++ name ++ "'")
  | .argumentUnknown argument => some ("unexpected argument '" ++ argument ++ "' found")
  | .requiredMissing => some "the following required arguments were not provided:"
  | .valueMissing parameter =>
    some ("a value is required for '" ++ parameter.shown ++ "' but none was supplied")
  | .valueInvalid parameter value error =>
    some ("invalid value '" ++ value ++ "' for '" ++ parameter.shown ++ "': " ++ error.message)
  | .repeated parameter =>
    some ("the argument '" ++ parameter.shown ++ "' cannot be used multiple times")
  | .valueSurplus parameter value =>
    some ("unexpected value '" ++ value ++ "' for '" ++ parameter.shown
      ++ "' found; no more were expected")

end ElmWorkbench.CommandLine
