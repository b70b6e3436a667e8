import Callee.Connection.State

set_option autoImplicit false

/-! # Pipelined calls

A call that the peer addresses to the results of another call goes to the caller of that answer while
the call is running, and is resolved against the results once they are there. Every call that was
handed to a caller counts as a delivery of the answer until the caller acknowledges it. -/

namespace Callee.Connection

/-! ## Callers -/

/-- Sets where the pipelined calls for an answer go, unless its results are there or it is gone. -/
def setPipeline (c : Connection) (id : AnswerId) (caller : CallerName) : Connection :=
  match c.answers.get? id with
  | none => c
  | some a =>
      if a.state.resultsReady then c
      else { c with answers := c.answers.insert id { a with caller := some caller } }

/-- Where a pipelined call for an answer has to go. -/
def route (c : Connection) (id : AnswerId) (path : List PathStep) : Except Error Route :=
  match c.answers.get? id with
  | none => .error (.noSuchAnswer id)
  | some a =>
      match a.caller with
      | some name => .ok (.caller name a.call)
      | none =>
          if a.state.resultsReady then
            match a.error with
            | some e => .error e
            | none =>
                match a.results with
                | some r => (c.messages.resolve r path).map .target
                | none => .error (.noResults id)
          else .error (.notReady id)

/-! ## Deliveries -/

/-- Replaces the deliveries of a call. -/
def putDeliveries (c : Connection) (call : CallId) (d : Deliveries) : Connection :=
  { c with deliveries := c.deliveries.insert call d }

/-- Hands a call to a caller as a delivery of the call `owner`. -/
def deliver (c : Connection) (name : CallerName) (owner : CallId) (call : PipelinedCall) :
    Connection :=
  let c := c.putDeliveries owner (c.deliveriesOf owner).add
  ({ c with
    callers := c.callers.modify name fun r => { r with received := r.received + 1 } }).emit
      (.pipelined name call)

/-- Acknowledges a delivery. -/
def acknowledge (c : Connection) (owner : CallId) : Connection :=
  c.putDeliveries owner (c.deliveriesOf owner).acknowledge

/-- Leaves a delivery with the caller, who will acknowledge it later. -/
def holdDelivery (c : Connection) (name : CallerName) (owner : CallId) : Connection :=
  { c with callers := c.callers.modify name fun r => { r with held := r.held ++ [owner] } }

/-- Lets a caller acknowledge the deliveries it has held longest. -/
def acknowledgeHeld (c : Connection) (name : CallerName) (owners : List CallId) : Connection :=
  owners.foldl acknowledge
    { c with
      callers := c.callers.modify name fun r => { r with held := r.held.drop owners.length } }

/-! ## Forwarding -/

/-- Sends a pipelined call where it has to go. `depth` bounds how often callers may forward it from
    one answer to the next. -/
def forwardWithin : Nat → Connection → AnswerId → PipelinedCall →
    Except Error Forwarded × Connection
  | depth, c, id, call =>
      match c.route id call.path with
      | .error e => (.error e, c)
      | .ok (.target cap) => (.ok (.resolved cap call), c)
      | .ok (.caller name owner) =>
          let c := c.deliver name owner call
          match (c.callers.get? name).map Caller.mode, depth with
          | some .hold, _ => (.ok .pipelined, c.holdDelivery name owner)
          | some (.forward target), depth + 1 =>
              let (result, c) :=
                forwardWithin depth c target { call with questionId := call.questionId - 1 }
              (.ok .pipelined, (c.emit (.nested result)).acknowledge owner)
          | _, _ => (.ok .pipelined, c.acknowledge owner)

/-- Sends a pipelined call where it has to go. The question id falls by one each time a caller
    forwards the call, and nobody forwards a call with question id zero. -/
def forward (c : Connection) (id : AnswerId) (call : PipelinedCall) :
    Except Error Forwarded × Connection :=
  forwardWithin call.questionId.toNat c id call

end Callee.Connection
