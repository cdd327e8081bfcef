import ElmWorkbench.Session.Basic
/-!
# The server

Commands are served line by line: every line that is not blank is a command and is
answered by one line, in order. A line that is no command is answered with that
failure. The server stops early only at an answer that cannot be written.
-/

namespace ElmWorkbench

/-- What a server has done. -/
structure Service where
  /-- The text that was written. -/
  output : List Char
  /-- The texts that were recorded in the error log, in order. -/
  log : List String
  /-- Whether the server stopped at an answer that it could not write. -/
  stopped : Bool
  deriving DecidableEq, Repr

namespace Service

/-- What a server has done before its first line. -/
def start : Service :=
  { output := [], log := [], stopped := false }

/-- Blanks of a line that holds no command. -/
def isBlank (byte : UInt8) : Bool :=
  byte = 0x20 || byte = 0x09 || byte = 0x0A || byte = 0x0C || byte = 0x0D

/-- A line without its newline and a carriage return before it. -/
def body (stored : Bytes) : Bytes :=
  match stored.reverse with
  | 0x0A :: 0x0D :: rest => rest.reverse
  | 0x0A :: rest => rest.reverse
  | 0x0D :: rest => rest.reverse
  | _ => stored

/-- The answer to a line, and what it records in the error log. -/
def respond (session : Session) (environment : Environment) (line : Bytes) :
    StateM FileSystem (Response × List String) := do
  match Command.ofBytes line with
  | .ok command => do
    let response ← session.answer environment command
    pure (response, command.logged?.toList)
  | .error error => pure (.ofError error, [])

/-- Write an answer and the end of its line. -/
def write (service : Service) (response : Response) : Service :=
  let line := response.toJson.compact
  if line.complete then { service with output := service.output ++ line.text ++ ['\n'] }
  else { service with output := service.output ++ line.text, stopped := true }

/-- Serve one more line. -/
def serveLine (session : Session) (environment : Environment) (service : Service)
    (stored : Bytes) : StateM FileSystem Service := do
  let line := body stored
  if service.stopped || line.all isBlank then pure service
  else
    let (response, recorded) ← respond session environment line
    pure ({ service with log := service.log ++ recorded }.write response)

/-- Serve all lines of an input. -/
def serve (session : Session) (environment : Environment) (input : Bytes) :
    StateM FileSystem Service :=
  (Line.stored input).foldlM (serveLine session environment) start

end Service

end ElmWorkbench
