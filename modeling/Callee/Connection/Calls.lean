import Callee.Connection.State

set_option autoImplicit false

/-! # Calls and their results

A received call gets an answer, with its return reserved at once so that completing the call cannot
fail for want of a message. While the call is running its results are built in that return; the
peer's finish takes back what it was handed with the results and, if the call is still running,
cancels it. -/

namespace Callee.Connection

/-! ## Reserving messages -/

/-- Asks the transport for a message. -/
def reserve (c : Connection) : Except Error Envelope × Connection :=
  let c := c.emit (.reserved c.options.returnSizeHint)
  match c.transport.failReservations with
  | some e => (.error e, c)
  | none =>
      let (envelope, messages) := c.messages.create c.transport.wordLimit
      (.ok envelope, { c with messages := messages })

/-- Reserves the return for a call. It fails on a connection that is broken, with what broke it. -/
def reserveReturn (c : Connection) (id : AnswerId) : Except Error Envelope × Connection :=
  match c.link with
  | .broken e => (.error e, c)
  | .up =>
      match c.reserve with
      | (.error e, c) => (.error e, c)
      | (.ok envelope, c) =>
          match (c.messages.message envelope).startReturn id with
          | .error e => (.error (.creatingReturn e), c)
          | .ok m =>
              let (envelope, messages) := c.messages.put envelope m
              (.ok envelope, { c with messages := messages })

/-! ## New calls -/

/-- Adds an answer for a received call. If the id is in use nothing happens; if no return can be
    reserved there is an answer all the same. -/
def newAnswer (c : Connection) (id : AnswerId) (token : Token) : Admission × Connection :=
  if c.answers.contains id then (.duplicate (.idReused id), c)
  else
    let handle : Handle := { id := id, call := c.nextCall }
    let (reserved, c) := c.reserveReturn id
    let answer : Answer := { call := handle.call, token := token, message := reserved.toOption }
    let c := { c with
      answers := c.answers.insert id answer
      handles := c.handles.insert handle.call id
      nextCall := c.nextCall + 1 }
    match reserved with
    | .ok _ => (.created handle, c.emit (.created id))
    | .error e => (.unsendable handle e, c)

/-! ## Building results -/

/-- Replaces the return of an answer after it was worked on. -/
def putReturn (c : Connection) (id : AnswerId) (a : Answer) (envelope : Envelope) (m : Message) :
    Connection :=
  let (envelope, messages) := c.messages.put envelope m
  { c with
    messages := messages
    answers := c.answers.insert id { a with message := some envelope } }

/-- Makes a new struct the results of an answer. -/
def allocateResults (c : Connection) (id : AnswerId) (size : ObjectSize) :
    Except Error StructRef × Connection :=
  match c.answers.get? id with
  | none => (.error (.answerGone id), c)
  | some a =>
      match a.openReturn id with
      | .error e => (.error (.allocatingResults e), c)
      | .ok envelope =>
          match (c.messages.message envelope).allocateResults size with
          | (.error e, m) => (.error (.allocatingResults e), c.putReturn id a envelope m)
          | (.ok index, m) =>
              (.ok { arena := envelope.arena, index := index }, c.putReturn id a envelope m)

/-- Makes a single capability the results of an answer. -/
def setBootstrap (c : Connection) (id : AnswerId) (cap : Capability) :
    Except Error Unit × Connection :=
  match c.answers.get? id with
  | none => (.error (.allocatingBootstrap (.answerGone id)), c)
  | some a =>
      match a.openReturn id with
      | .error e => (.error (.allocatingBootstrap e), c)
      | .ok envelope =>
          match (c.messages.message envelope).setBootstrap cap with
          | (.error e, m) => (.error (.allocatingBootstrap e), c.putReturn id a envelope m)
          | (.ok (), m) => (.ok (), c.putReturn id a envelope m)

/-! ## The peer's finish -/

/-- The peer no longer needs an answer, and may give back what it was handed with the results. A call
    that is still running is told to cancel, each time anew. -/
def finish (c : Connection) (id : AnswerId) (releaseCaps : Bool) : Connection :=
  match c.answers.get? id with
  | none => c.report (.unknownQuestion id)
  | some a =>
      let back := c.exports.release (a.givenBack releaseCaps)
      let a := a.markFinishReceived releaseCaps
      let c := ({ c with
        exports := back.exports
        cancellations :=
          if a.isRunning then a.token :: c.cancellations else c.cancellations }).putAnswer id a
      let c := if a.state.isDone then c.emit (.releasedOnFinish id) else c
      c.reportAll back.errors

end Callee.Connection
