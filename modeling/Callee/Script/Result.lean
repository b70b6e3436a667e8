import Callee.Connection.Step
import Callee.Description

set_option autoImplicit false

/-! # What the steps of a script give

A script is a list of steps on things that it holds by name. A step that names something that is not
there is skipped. -/

namespace Callee.Script

/-- What is shown of the admission of a call. -/
structure AdmissionReport where
  admission : Admission
  /-- The admission as it describes itself, if that was asked for. -/
  description : Option String := none
  /-- Whether only the error of a failed admission was kept. -/
  converted : Bool := false
  deriving DecidableEq

/-- What one step gives. -/
inductive Result where
  | done
  /-- The step names something that is not there. -/
  | skipped
  | failed (error : Error)
  /-- A path left the storage of its message, or a number did not fit into 32 bits. The script ends here. -/
  | broken
  | number (n : Nat)
  | word (w : UInt64)
  | text (s : String)
  | flag (b : Bool)
  | pointer (p : Pointer)
  | capability (identity : Option UInt64)
  | message (m : Message)
  | return (ret : Option Return)
  | exception (exc : Exception)
  | reader (content : Option Pointer)
  | answerState (state : Option AnswerState)
  | handle (state : Option AnswerState) (id : AnswerId) (description : String)
  | admission (report : AdmissionReport)
  | forwarded (outcome : Forwarded)
  /-- A task was taken up without being polled. -/
  | created
  /-- A task has to wait. -/
  | pending
  /-- A task was dropped because its token was told to cancel. -/
  | aborted
  /-- A task is over. -/
  | ready (admission : Option AdmissionReport)
  deriving DecidableEq

/-- The result of a step that failed. -/
def Result.ofError : Error → Result
  | .missingStruct _ => .broken
  | e => .failed e

end Callee.Script
