import Callee.Connection.State

set_option autoImplicit false

/-! # Sending messages

Messages go out one at a time. A message waits until no other is being transmitted; whoever looks
first when the way is free goes first. Then it is handed to the transport, which may hold it up at a
gate, and is accepted or refused. Each message goes out on behalf of a task and is the return of a
call, or an abort if no call is given. -/

namespace Callee.Connection

/-- What came of looking after a message on its way out. -/
inductive SendPoll where
  | pending (stage : SendStage)
  | ended (result : Except Error Unit)

/-- Hands a message to the transport, which gives it the first gate that is queued. -/
def handOver (c : Connection) (t : TaskId) (call : Option CallId) (envelope : Envelope) :
    Option GateId × Connection :=
  (c.transport.sendGates.head?,
    ({ c with
      sender := some t
      transport := { c.transport with
        started := c.transport.started + 1
        sendGates := c.transport.sendGates.tail } }).emit
          (.handedOver call (c.messages.message envelope)))

/-- Looks after a message that was handed to the transport. -/
def transmit (c : Connection) (call : Option CallId) (envelope : Envelope)
    (gate : Option GateId) : SendPoll × Connection :=
  if c.transport.holdsUp gate then (.pending (.transmitting envelope gate), c)
  else
    let c := { c with sender := none }
    match c.transport.failSends with
    | some e => (.ended (.error e), c)
    | none =>
        (.ended (.ok ()),
          ({ c with
            transport := { c.transport with
              accepted := c.transport.accepted + 1
              sent := c.transport.sent ++ [envelope] } }).emit
                (.accepted call (c.messages.message envelope)))

/-- Looks after a message on its way out. -/
def pollSend (c : Connection) (t : TaskId) (call : Option CallId) :
    SendStage → SendPoll × Connection
  | .waiting envelope =>
      match c.sender with
      | some _ => (.pending (.waiting envelope), c)
      | none =>
          let (gate, c) := c.handOver t call envelope
          c.transmit call envelope gate
  | .transmitting envelope gate => c.transmit call envelope gate

/-- Makes the way free if it is this task that keeps it. -/
def freeSender (c : Connection) (t : TaskId) : Connection :=
  if c.sender = some t then { c with sender := none } else c

end Callee.Connection
