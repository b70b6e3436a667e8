import Callee.Connection.Disconnect
import Callee.Connection.Pipeline
import Callee.Connection.Return

set_option autoImplicit false

/-! # Suspended work

Completing a call, accepting one and ending the connection may have to wait: for the way out to be
free, for the transport, for deliveries to be acknowledged. Such work is a task. It runs only while it
is polled, up to the next point where it has to wait, and it may be dropped at any such point; what a
dropped task had begun is brought to its end. -/

namespace Callee

/-- What came of polling a task. -/
inductive TaskPoll where
  /-- There is no such task. -/
  | missing
  /-- It has to wait. -/
  | pending
  /-- It was dropped because its token was told to cancel. -/
  | aborted
  /-- It is over. -/
  | finished
  /-- It is over, and a call was accepted or refused. -/
  | admitted (admission : Admission)
  deriving DecidableEq

namespace Connection

/-! ## Completing a call -/

/-- Looks whether all deliveries of a call are acknowledged. -/
def awaitDeliveries (c : Connection) (h : Handle) (w : Wait) : Option ReturnStage × Connection :=
  let (wait, d) := (c.deliveriesOf h.call).poll w
  (wait.map .draining, c.putDeliveries h.call d)

/-- Marks the return sent and goes on to wait for the deliveries. -/
def settleReturn (c : Connection) (h : Handle) : Option ReturnStage × Connection :=
  (c.endReturn h.id).awaitDeliveries h .unasked

/-- Looks after the return on its way out. The answer is settled whether the return arrives or
    not. -/
def awaitReturn (c : Connection) (t : TaskId) (h : Handle) (send : SendStage)
    (finishReceived : Bool) : Option ReturnStage × Connection :=
  match c.pollSend t (some h.call) send with
  | (.pending send, c) => (some (.sending send finishReceived), c)
  | (.ended (.error e), c) => (c.report (.sendingReturn e)).settleReturn h
  | (.ended (.ok ()), c) => c.settleReturn h

/-- Looks after the completion of a call. It gives `none` when there is nothing left to do. -/
def pollReturn (c : Connection) (t : TaskId) (h : Handle) :
    ReturnStage → Option ReturnStage × Connection
  | .unbegun result =>
      match c.beginReturn h.id result with
      | (none, c) => (none, c)
      | (some { envelope := some envelope, finishReceived }, c) =>
          c.awaitReturn t h (.waiting envelope) finishReceived
      | (some { envelope := none, .. }, c) => c.settleReturn h
  | .sending send finishReceived => c.awaitReturn t h send finishReceived
  | .draining wait => c.awaitDeliveries h wait

/-! ## Accepting a call -/

/-- Goes on with a refused call once the end of the connection was looked after. -/
def refuse (e : Error) :
    Option DisconnectStage × Connection → (Admission ⊕ AcceptStage) × Connection
  | (some stage, c) => (.inr (.refusing e stage), c)
  | (none, c) => (.inl (.duplicate e), c)

/-- Looks after the acceptance of a call. An id in use is reported and, if the options say so, ends
    the connection. -/
def pollAccept (c : Connection) (t : TaskId) :
    AcceptStage → (Admission ⊕ AcceptStage) × Connection
  | .unbegun id token =>
      match c.newAnswer id token with
      | (.duplicate e, c) =>
          let c := c.report e
          if c.options.abortOnDuplicate then refuse e (c.pollDisconnect t e .unbegun)
          else (.inl (.duplicate e), c)
      | (admission, c) => (.inl admission, c)
  | .refusing e stage => refuse e (c.pollDisconnect t e stage)

/-! ## Tasks -/

/-- Takes up a piece of work without running it. -/
def spawn (c : Connection) (work : Work) (guard : Option Token) : TaskId × Connection :=
  (c.nextTask,
    { c with
      tasks := c.tasks.insert c.nextTask { work := work, guard := guard }
      nextTask := c.nextTask + 1 })

/-- Drops a task. Its message, if it has one, is dropped with it and the way out is free again; the
    answer of a call that it was to complete is brought to its end. -/
def dropTask (c : Connection) (t : TaskId) : Connection :=
  match c.tasks.get? t with
  | none => c
  | some task =>
      let c := ({ c with tasks := c.tasks.erase t }).freeSender t
      match task.work with
      | .sendReturn h (.unbegun _) => c.cancelReturn h.id
      | .sendReturn h (.sending ..) => c.endReturn h.id
      | _ => c

/-- Runs a piece of work as far as it goes, and gives what is left of it. -/
def run (c : Connection) (t : TaskId) : Work → (TaskPoll ⊕ Work) × Connection
  | .sendReturn h stage =>
      match c.pollReturn t h stage with
      | (some stage, c) => (.inr (.sendReturn h stage), c)
      | (none, c) => (.inl .finished, c)
  | .accept stage =>
      match c.pollAccept t stage with
      | (.inr stage, c) => (.inr (.accept stage), c)
      | (.inl admission, c) => (.inl (.admitted admission), c)
  | .disconnect e stage =>
      match c.pollDisconnect t e stage with
      | (some stage, c) => (.inr (.disconnect e stage), c)
      | (none, c) => (.inl .finished, c)

/-- Polls a task. A task whose token was told to cancel is dropped without running. -/
def poll (c : Connection) (t : TaskId) : TaskPoll × Connection :=
  match c.tasks.get? t with
  | none => (.missing, c)
  | some task =>
      if task.guard.any c.isCanceled then (.aborted, c.dropTask t)
      else
        match c.run t task.work with
        | (.inr work, c) => (.pending, { c with tasks := c.tasks.insert t { task with work := work } })
        | (.inl outcome, c) => (outcome, { c with tasks := c.tasks.erase t })

end Connection

end Callee
