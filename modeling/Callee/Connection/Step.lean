import Callee.Connection.Work

set_option autoImplicit false

/-! # Runs of a connection

All that can happen to a connection is an `Action`, and `step` says what it does. A handle is used up
when its call is completed or dropped: an action that names a handle, a task or a caller that is not
there is refused and changes nothing. -/

namespace Callee

/-! ## Actions and replies -/

/-- A setting of the transport that is changed. -/
inductive TransportSetting where
  | wordLimit (words : Option Nat)
  | failReservations (error : Option Error)
  | failSends (error : Option Error)
  | failShutdown (error : Option Error)
  deriving DecidableEq

/-- Changes a setting. -/
def Transport.set (x : Transport) : TransportSetting → Transport
  | .wordLimit words => { x with wordLimit := words }
  | .failReservations e => { x with failReservations := e }
  | .failSends e => { x with failSends := e }
  | .failShutdown e => { x with failShutdown := e }

/-- What can happen to a connection. -/
inductive Action where
  /-- A call is received. -/
  | newAnswer (id : AnswerId) (token : Token)
  /-- A call is received, and is to break the connection if its id is in use. -/
  | accept (id : AnswerId) (token : Token)
  /-- The executor makes room for results. -/
  | allocateResults (handle : Handle) (size : ObjectSize)
  /-- The executor makes a capability the results. -/
  | setBootstrap (handle : Handle) (cap : Capability)
  /-- The executor writes into a struct. -/
  | edit (ref : StructRef) (change : StructEdit)
  /-- The executor completes a call; a token may cancel that. -/
  | sendReturn (handle : Handle) (result : Except Error Unit) (guard : Option Token)
  /-- The executor gives up on a call. -/
  | dropHandle (handle : Handle)
  /-- A receiver of pipelined calls comes into being. -/
  | newCaller (name : CallerName) (mode : CallerMode)
  /-- The pipelined calls for an answer are sent to a receiver. -/
  | setPipeline (id : AnswerId) (caller : CallerName)
  /-- A pipelined call is received. -/
  | forward (id : AnswerId) (call : PipelinedCall)
  /-- A receiver acknowledges the deliveries that it has held longest, all of them or a number. -/
  | acknowledge (caller : CallerName) (count : Option Nat)
  /-- The peer's finish is received. -/
  | finish (id : AnswerId) (releaseCaps : Bool)
  /-- The connection is brought to its end. -/
  | disconnect (error : Error)
  | poll (task : TaskId)
  | dropTask (task : TaskId)
  /-- A token is told to cancel from outside. -/
  | cancel (token : Token)
  | configure (setting : TransportSetting)
  /-- A gate is closed for a coming transmission. -/
  | gateSend
  /-- A gate is closed for the shutdown. -/
  | gateShutdown
  /-- A gate is opened, or whoever could open it is gone. -/
  | openGate (gate : GateId)
  /-- The accepted messages are no longer kept. -/
  | takeSent

/-- What an action gives. -/
inductive Reply where
  | done
  /-- The action names something that is not there. -/
  | refused
  | failed (error : Error)
  | admitted (admission : Admission)
  | spawned (task : TaskId)
  | allocated (ref : StructRef)
  | edited (child : Option StructRef)
  | forwarded (outcome : Forwarded)
  | polled (outcome : TaskPoll)
  | gate (gate : GateId)
  /-- Whether anything still held the gate. -/
  | opened (held : Bool)
  | counted (n : Nat)
  deriving DecidableEq

namespace Connection

/-! ## Steps -/

/-- Whether a handle stands alone. -/
def holds (c : Connection) (h : Handle) : Bool :=
  c.handles.get? h.call = some h.id

/-- Closes a new gate. -/
def closeGate (c : Connection) : GateId × Connection :=
  (c.transport.nextGate,
    { c with
      transport := { c.transport with
        nextGate := c.transport.nextGate + 1
        closedGates := c.transport.nextGate :: c.transport.closedGates } })

/-- What happens to a connection on an action, and what the action gives. -/
def step (c : Connection) : Action → Reply × Connection
  | .newAnswer id token =>
      let (admission, c) := c.newAnswer id token
      (.admitted admission, c)
  | .accept id token =>
      let (t, c) := c.spawn (.accept (.unbegun id token)) none
      (.spawned t, c)
  | .allocateResults h size =>
      if c.holds h then
        match c.allocateResults h.id size with
        | (.ok ref, c) => (.allocated ref, c)
        | (.error e, c) => (.failed e, c)
      else (.refused, c)
  | .setBootstrap h cap =>
      if c.holds h then
        match c.setBootstrap h.id cap with
        | (.ok (), c) => (.done, c)
        | (.error e, c) => (.failed e, c)
      else (.refused, c)
  | .edit ref change =>
      match c.messages.edit ref change with
      | (.ok child, messages) => (.edited child, { c with messages := messages })
      | (.error e, messages) => (.failed e, { c with messages := messages })
  | .sendReturn h result guard =>
      if c.holds h then
        let (t, c) := ({ c with handles := c.handles.erase h.call }).spawn
          (.sendReturn h (.unbegun result)) guard
        (.spawned t, c)
      else (.refused, c)
  | .dropHandle h =>
      if c.holds h then
        (.done, ({ c with handles := c.handles.erase h.call }).cancelReturn h.id)
      else (.refused, c)
  | .newCaller name mode =>
      if c.callers.contains name then (.refused, c)
      else (.done, { c with callers := c.callers.insert name { mode := mode } })
  | .setPipeline id name =>
      if c.callers.contains name then (.done, c.setPipeline id name) else (.refused, c)
  | .forward id call =>
      match c.forward id call with
      | (.ok outcome, c) => (.forwarded outcome, c)
      | (.error e, c) => (.failed e, c)
  | .acknowledge name count =>
      match c.callers.get? name with
      | none => (.refused, c)
      | some caller =>
          let owners := match count with
            | some n => caller.held.take n
            | none => caller.held
          (.counted owners.length, c.acknowledgeHeld name owners)
  | .finish id releaseCaps => (.done, c.finish id releaseCaps)
  | .disconnect e =>
      let (t, c) := c.spawn (.disconnect e .unbegun) none
      (.spawned t, c)
  | .poll t =>
      let (outcome, c) := c.poll t
      (.polled outcome, c)
  | .dropTask t => if c.tasks.contains t then (.done, c.dropTask t) else (.refused, c)
  | .cancel token => (.done, { c with cancellations := token :: c.cancellations })
  | .configure setting => (.done, { c with transport := c.transport.set setting })
  | .gateSend =>
      let (g, c) := c.closeGate
      (.gate g, { c with
        transport := { c.transport with sendGates := c.transport.sendGates ++ [g] } })
  | .gateShutdown =>
      let (g, c) := c.closeGate
      (.gate g, { c with transport := { c.transport with shutdownGate := some g } })
  | .openGate g =>
      (.opened (c.transport.keepsGate g || c.waitsAt g),
        { c with
          transport := { c.transport with
            closedGates := c.transport.closedGates.filter fun other => other ≠ g } })
  | .takeSent =>
      (.counted c.transport.sent.length, { c with transport := { c.transport with sent := [] } })

/-! What an action does to the connection, whatever it gives. -/

theorem step_allocateResults_snd (c : Connection) (h : Handle) (size : ObjectSize) :
    (c.step (.allocateResults h size)).2 = if c.holds h then (c.allocateResults h.id size).2 else c := by
  simp only [step]
  split
  · split <;> next heq => rw [heq]
  · rfl

theorem step_setBootstrap_snd (c : Connection) (h : Handle) (cap : Capability) :
    (c.step (.setBootstrap h cap)).2 = if c.holds h then (c.setBootstrap h.id cap).2 else c := by
  simp only [step]
  split
  · split <;> next heq => rw [heq]
  · rfl

theorem step_edit_snd (c : Connection) (ref : StructRef) (change : StructEdit) :
    (c.step (.edit ref change)).2 = { c with messages := (c.messages.edit ref change).2 } := by
  simp only [step]
  split <;> next heq => rw [heq]

theorem step_forward_snd (c : Connection) (id : AnswerId) (call : PipelinedCall) :
    (c.step (.forward id call)).2 = (c.forward id call).2 := by
  simp only [step]
  split <;> next heq => rw [heq]

/-! ## Runs -/

/-- A connection on which nothing has happened. -/
def initial (options : Options) : Connection :=
  { options := options }

/-- What a sequence of actions makes of a connection. -/
def after (c : Connection) (actions : List Action) : Connection :=
  actions.foldl (fun c action => (c.step action).2) c

/-- The connections that can come about, as long as the program runs and beyond. -/
inductive Reachable : Connection → Prop where
  | initial (options : Options) : Reachable (initial options)
  | step {c : Connection} (action : Action) : Reachable c → Reachable (c.step action).2

@[simp] theorem after_nil (c : Connection) : c.after [] = c := rfl

@[simp] theorem after_cons (c : Connection) (action : Action) (rest : List Action) :
    c.after (action :: rest) = ((c.step action).2).after rest := rfl

theorem Reachable.after {c : Connection} (h : Reachable c) (actions : List Action) :
    Reachable (c.after actions) := by
  induction actions generalizing c with
  | nil => exact h
  | cons action rest ih => exact ih (.step action h)

end Connection

end Callee
