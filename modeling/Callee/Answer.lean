import Callee.Message.Store

set_option autoImplicit false

/-! # Answers

The record of one received call. It stays in the table of answers until two signals have come: our
return was sent, and the peer's finish was received. Which of them have come is its `Lifecycle`, and
whichever comes second completes it. -/

namespace Callee

/-! ## Lifecycle -/

/-- Which of the two completion signals have come. -/
inductive Lifecycle where
  | pending
  | returnSent
  | finishReceived
  /-- Both have. -/
  | done
  deriving DecidableEq

namespace Lifecycle

/-- The identifier of a lifecycle. -/
def name : Lifecycle → String
  | pending => "Pending"
  | returnSent => "ReturnSent"
  | finishReceived => "FinishReceived"
  | done => "Done"

/-- The return was sent. -/
def markReturnSent : Lifecycle → Lifecycle
  | pending => returnSent
  | finishReceived => done
  | other => other

/-- The finish was received. -/
def markFinishReceived : Lifecycle → Lifecycle
  | pending => finishReceived
  | returnSent => done
  | other => other

end Lifecycle

/-- How far an answer has come. -/
structure AnswerState where
  lifecycle : Lifecycle := .pending
  /-- The call has completed, so results can be read and can no longer be written. -/
  resultsReady : Bool := false
  deriving DecidableEq

namespace AnswerState

/-- Whether the return was sent. -/
def returnSent (s : AnswerState) : Bool :=
  s.lifecycle = .returnSent || s.lifecycle = .done

/-- Whether the finish was received. -/
def finishReceived (s : AnswerState) : Bool :=
  s.lifecycle = .finishReceived || s.lifecycle = .done

/-- Whether the answer has to leave the table. -/
def isDone (s : AnswerState) : Bool :=
  s.lifecycle = .done

/-- The call has completed. -/
def markResultsReady (s : AnswerState) : AnswerState :=
  { s with resultsReady := true }

/-- The return was sent. -/
def markReturnSent (s : AnswerState) : AnswerState :=
  { s with lifecycle := s.lifecycle.markReturnSent }

/-- The finish was received. -/
def markFinishReceived (s : AnswerState) : AnswerState :=
  { s with lifecycle := s.lifecycle.markFinishReceived }

theorem isDone_iff (s : AnswerState) :
    s.isDone = true ↔ s.returnSent = true ∧ s.finishReceived = true := by
  rcases s with ⟨l, _⟩
  cases l <;> simp [isDone, returnSent, finishReceived]

/-! Each mark sets its own flag and leaves the other two. -/

@[simp] theorem returnSent_markReturnSent (s : AnswerState) : s.markReturnSent.returnSent = true := by
  rcases s with ⟨l, _⟩
  cases l <;> rfl

@[simp] theorem finishReceived_markReturnSent (s : AnswerState) :
    s.markReturnSent.finishReceived = s.finishReceived := by
  rcases s with ⟨l, _⟩
  cases l <;> rfl

@[simp] theorem resultsReady_markReturnSent (s : AnswerState) :
    s.markReturnSent.resultsReady = s.resultsReady := rfl

@[simp] theorem returnSent_markFinishReceived (s : AnswerState) :
    s.markFinishReceived.returnSent = s.returnSent := by
  rcases s with ⟨l, _⟩
  cases l <;> rfl

@[simp] theorem finishReceived_markFinishReceived (s : AnswerState) :
    s.markFinishReceived.finishReceived = true := by
  rcases s with ⟨l, _⟩
  cases l <;> rfl

@[simp] theorem resultsReady_markFinishReceived (s : AnswerState) :
    s.markFinishReceived.resultsReady = s.resultsReady := rfl

@[simp] theorem returnSent_markResultsReady (s : AnswerState) :
    s.markResultsReady.returnSent = s.returnSent := rfl

@[simp] theorem finishReceived_markResultsReady (s : AnswerState) :
    s.markResultsReady.finishReceived = s.finishReceived := rfl

@[simp] theorem resultsReady_markResultsReady (s : AnswerState) :
    s.markResultsReady.resultsReady = true := rfl

end AnswerState

/-! ## Records -/

/-- The executor's hold on an answer. It names the answer by the peer's id; `call` says which of the
    calls with that id it belongs to. -/
structure Handle where
  id : AnswerId
  call : CallId
  deriving DecidableEq

/-- The record of one received call. -/
structure Answer where
  call : CallId
  /-- Cancels the execution of the call. -/
  token : Token
  state : AnswerState := {}
  /-- The reserved return, until it is handed over or discarded. There is none from the start if it
      could not be reserved. -/
  message : Option Envelope := none
  /-- Where pipelined calls go while the call is running. -/
  caller : Option CallerName := none
  /-- The error that the call completed with. -/
  error : Option Error := none
  /-- The results that later pipelined calls are resolved against. -/
  results : Option ResultsRef := none
  /-- The references that were handed to the peer with the results. -/
  exports : List ExportId := []
  deriving DecidableEq

namespace Answer

/-- The return, while results may still be put into it. -/
def openReturn (a : Answer) (id : AnswerId) : Except Error Envelope :=
  if a.state.resultsReady then .error (.alreadyReturned id)
  else
    match a.message with
    | some e => .ok e
    | none => .error (.noReturnMessage id)

/-- The call has completed: nothing is forwarded or written any more. -/
def complete (a : Answer) (error : Option Error) : Answer :=
  { a with
    error := error
    caller := none
    message := none
    state := a.state.markResultsReady }

/-- The return was sent. -/
def markReturnSent (a : Answer) : Answer :=
  { a with state := a.state.markReturnSent }

/-- The references that the peer gives back with its finish, if it does. -/
def givenBack (a : Answer) (releaseCaps : Bool) : List ExportId :=
  if releaseCaps then a.exports else []

/-- The finish was received. -/
def markFinishReceived (a : Answer) (releaseCaps : Bool) : Answer :=
  { a with
    exports := if releaseCaps then [] else a.exports
    state := a.state.markFinishReceived }

/-- Whether the peer's finish has to cancel the call: it is still running. -/
def isRunning (a : Answer) : Bool :=
  !a.state.isDone && !a.state.resultsReady

end Answer

/-! ## Pipelined calls -/

/-- A call that the peer addressed to results it does not have yet. -/
structure PipelinedCall where
  questionId : UInt32
  interfaceId : UInt64
  methodId : UInt16
  path : List PathStep
  deriving DecidableEq

/-- What became of a pipelined call. -/
inductive Forwarded where
  /-- It was handed to the caller of the answer. -/
  | pipelined
  /-- The results are there; the call is for `target`. -/
  | resolved (target : Capability) (call : PipelinedCall)
  deriving DecidableEq

/-- Where a pipelined call has to go. -/
inductive Route where
  | caller (name : CallerName) (call : CallId)
  | target (cap : Capability)
  deriving DecidableEq

/-! ## Admission -/

/-- What became of a newly received call. -/
inductive Admission where
  /-- There is an answer with a reserved return. -/
  | created (handle : Handle)
  /-- The id is in use, and the answer that has it is untouched. -/
  | duplicate (error : Error)
  /-- There is an answer, but no return could be reserved for it. -/
  | unsendable (handle : Handle) (error : Error)
  deriving DecidableEq

end Callee
