import Callee.Connection.State

set_option autoImplicit false

/-! # Log lines

Some of what a connection calls out to also goes to the log: the life of each answer, the end of the
connection and, for those who wish, the errors that concern nobody else. -/

namespace Callee

/-- How important a log line is. -/
inductive LogLevel where
  | trace
  | debug
  | warn
  deriving DecidableEq

/-- The name of a level. -/
def LogLevel.name : LogLevel → String
  | trace => "trace"
  | debug => "debug"
  | warn => "warn"

/-- A line of the log. -/
structure LogLine where
  level : LogLevel
  text : String
  deriving DecidableEq

/-- The log line of a reported error. -/
def Error.logLine (e : Error) : LogLine :=
  { level := .warn, text := "rpc: " ++ e.message }

/-- The log line of an event, if it has one. -/
def Event.logLine? : Event → Option LogLine
  | .created id => some { level := .trace, text := s!"answer {id}: created" }
  | .releasedOnFinish id => some { level := .trace, text := s!"answer {id}: released on finish" }
  | .releasedAfterReturn id =>
      some { level := .trace, text := s!"answer {id}: released after return" }
  | .disconnecting e => some { level := .debug, text := "disconnecting: " ++ e.message }
  | _ => none

end Callee
