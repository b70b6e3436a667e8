import Callee.Connection.State

set_option autoImplicit false

/-! # Completing calls

A call completes with results or with an error. `beginReturn` writes them into the reserved return
and closes the answer to pipelined calls; `endReturn` comes when the return was sent, or when there is
nothing to send; `cancelReturn` takes the place of both when the executor gave up. -/

namespace Callee.Connection

/-- What a completion that has begun has to go on with. -/
structure BegunReturn where
  /-- The return, unless it was abandoned. -/
  envelope : Option Envelope
  /-- Whether the peer's finish is in. -/
  finishReceived : Bool

/-! ## Beginning -/

/-- Completes an answer with the results in its return. On a connection that is up they are exported;
    on a broken one nobody would receive them. They are kept for pipelined calls in either case. -/
def returnResults (c : Connection) (id : AnswerId) (a : Answer) (envelope : Envelope) :
    BegunReturn × Connection :=
  let written := c.exports.writeResults (c.messages.message envelope) c.isDown
  let (envelope, messages) := c.messages.put envelope written.message
  ({ envelope := if c.isDown then none else some envelope,
     finishReceived := a.state.finishReceived },
    ({ c with
      messages := messages
      exports := written.exports
      answers := c.answers.insert id { a with
        exports := written.ids.getD a.exports
        results := envelope.results? }
      panicked := c.panicked || written.panicked }).reportAll written.errors)

/-- Completes an answer with an error. The return is abandoned if there is no room in it for the
    whole text of the error. -/
def returnError (c : Connection) (id : AnswerId) (a : Answer) (envelope : Envelope) (e : Error) :
    BegunReturn × Connection :=
  let (written, m) := (c.messages.message envelope).writeException e
  let (envelope, messages) := c.messages.put envelope m
  let c := { c with messages := messages, answers := c.answers.insert id a }
  match written with
  | .error x =>
      ({ envelope := none, finishReceived := a.state.finishReceived }, c.report (.sendingException x))
  | .ok () =>
      ({ envelope := if c.isDown then none else some envelope,
         finishReceived := a.state.finishReceived }, c)

/-- Completes an answer, up to the point where its return goes to the transport. -/
def beginReturn (c : Connection) (id : AnswerId) (result : Except Error Unit) :
    Option BegunReturn × Connection :=
  match c.answers.get? id with
  | none => (none, c.report (.returnWithoutAnswer id))
  | some a =>
      match a.message, result with
      | none, result =>
          let a := a.complete (match result with | .error e => some e | .ok () => none)
          (some { envelope := none, finishReceived := a.state.finishReceived },
            ({ c with answers := c.answers.insert id a }).report (.nothingToSend id))
      | some envelope, .ok () =>
          let (begun, c) := c.returnResults id (a.complete none) envelope
          (some begun, c)
      | some envelope, .error e =>
          let (begun, c) := c.returnError id (a.complete (some e)) envelope e
          (some begun, c)

/-! ## Ending -/

/-- The return was sent. The answer leaves the table if the peer's finish is in. -/
def endReturn (c : Connection) (id : AnswerId) : Connection :=
  match c.answers.get? id with
  | none => c
  | some a =>
      let a := a.markReturnSent
      let c := c.putAnswer id a
      if a.state.isDone then c.emit (.releasedAfterReturn id) else c

/-- The executor gave up on a call. Its answer completes with an error and without a return, which is
    reported if the peer still waits for one. -/
def cancelReturn (c : Connection) (id : AnswerId) : Connection :=
  match c.answers.get? id with
  | none => c
  | some a =>
      let a := (a.complete (some .callCanceled)).markReturnSent
      let c := c.putAnswer id a
      if a.state.isDone then c else c.report (.droppedUnreturned id)

end Callee.Connection
