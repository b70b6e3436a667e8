import Callee.Connection.Calls
import Callee.Connection.Sending

set_option autoImplicit false

/-! # Ending a connection

The first end that a connection comes to stands: it cancels every call, drops every caller and every
export, tells the peer by an abort and shuts the transport down. Answers stay in the table. Ending a
connection that is broken does nothing. -/

namespace Callee.Connection

/-- Reports an error, unless it only says that the connection is gone. -/
def reportUnlessGone (c : Connection) (e : Error) : Connection :=
  if e.kind = .disconnected then c else c.report e

/-- Reserves the abort and writes it. -/
def reserveAbort (c : Connection) (e : Error) : Except Error Envelope × Connection :=
  match c.reserve with
  | (.error x, c) => (.error x, c)
  | (.ok envelope, c) =>
      let written := (c.messages.message envelope).writeAbort e
      let c := { c with panicked := c.panicked || written.panicked }
      match written.value with
      | .error x => (.error x, c)
      | .ok m =>
          let (envelope, messages) := c.messages.put envelope m
          (.ok envelope, { c with messages := messages })

/-- Breaks the connection: cancels every call, and drops every caller and every export. -/
def breakLink (c : Connection) (e : Error) : Connection :=
  { c with
    link := .broken e
    cancellations := c.answers.values.map Answer.token ++ c.cancellations
    answers := c.answers.mapValues fun a => { a with caller := none }
    exports := c.exports.drain.2 }

/-- Breaks the connection and prepares the abort. It gives `none` if the connection was broken
    before. -/
def beginDisconnect (c : Connection) (e : Error) : Option (Except Error Envelope) × Connection :=
  if c.isDown then (none, c)
  else
    let (abort, c) := (c.breakLink e).reserveAbort e
    (some abort, c.emit (.disconnecting e))

/-- Looks after the transport while it shuts down. -/
def awaitShutdown (c : Connection) (gate : Option GateId) : Option DisconnectStage × Connection :=
  if c.transport.holdsUp gate then (some (.shuttingDown gate), c)
  else
    match c.transport.failShutdown with
    | some e => (none, c.reportUnlessGone e)
    | none => (none, c)

/-- Tells the transport to shut down. -/
def startShutdown (c : Connection) (e : Error) : Option DisconnectStage × Connection :=
  ({ c with transport := { c.transport with shutdownGate := none } }).emit (.shutDown e)
    |>.awaitShutdown c.transport.shutdownGate

/-- Looks after the abort on its way out. The transport is shut down whether it arrives or not. -/
def awaitAbort (c : Connection) (t : TaskId) (e : Error) (send : SendStage) :
    Option DisconnectStage × Connection :=
  match c.pollSend t none send with
  | (.pending send, c) => (some (.aborting send), c)
  | (.ended (.error x), c) => (c.reportUnlessGone x).startShutdown e
  | (.ended (.ok ()), c) => c.startShutdown e

/-- Looks after the end of a connection. It gives `none` when there is nothing left to do. -/
def pollDisconnect (c : Connection) (t : TaskId) (e : Error) :
    DisconnectStage → Option DisconnectStage × Connection
  | .unbegun =>
      match c.beginDisconnect e with
      | (none, c) => (none, c)
      | (some (.ok envelope), c) => c.awaitAbort t e (.waiting envelope)
      | (some (.error x), c) => (c.report x).startShutdown e
  | .aborting send => c.awaitAbort t e send
  | .shuttingDown gate => c.awaitShutdown gate

end Callee.Connection
