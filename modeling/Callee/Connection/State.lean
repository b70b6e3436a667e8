import Callee.Answer
import Callee.Deliveries
import Callee.Exports.Basic

set_option autoImplicit false

/-! # The state of a connection

Everything that the callee's side of one connection holds: the table of answers, the exports, the
messages, the work that is suspended, and the far ends that it talks to - the transport and the
receivers of pipelined calls. What it called out to is kept in `history`, newest first, and is never
taken back. -/

namespace Callee

/-! ## Settings -/

/-- The settings of a connection. -/
structure Options where
  /-- The size, in words, that each message is reserved with. It is only a hint. -/
  returnSizeHint : UInt32 := 64
  /-- Whether accepting a call with an id in use breaks the connection. -/
  abortOnDuplicate : Bool := true
  deriving DecidableEq

/-- Whether the connection is up, or what broke it. -/
inductive Link where
  | up
  | broken (error : Error)
  deriving DecidableEq

/-! ## The far ends -/

/-- The transport. It fails when it is told to, and a transmission may be held up by a gate. A message is accepted
    when its transmission comes to an end: one whose transmission is dropped on the way was handed over, and is
    not accepted. -/
structure Transport where
  /-- The limit that new messages get. -/
  wordLimit : Option Nat := none
  failReservations : Option Error := none
  failSends : Option Error := none
  failShutdown : Option Error := none
  /-- The gates for the coming transmissions, the one for the next in front. -/
  sendGates : List GateId := []
  shutdownGate : Option GateId := none
  /-- The gates that are closed. -/
  closedGates : List GateId := []
  nextGate : GateId := 0
  /-- The number of messages handed over. -/
  started : Nat := 0
  /-- The number of messages accepted. -/
  accepted : Nat := 0
  /-- The accepted messages that are still kept, the first one in front. -/
  sent : List Envelope := []
  deriving DecidableEq

/-- Whether a transmission that was given a gate has to wait for it. -/
def Transport.holdsUp (x : Transport) (gate : Option GateId) : Bool :=
  match gate with
  | some g => g ∈ x.closedGates
  | none => false

/-- Whether the gate is still meant for a transmission to come. -/
def Transport.keepsGate (x : Transport) (gate : GateId) : Bool :=
  gate ∈ x.sendGates || x.shutdownGate = some gate

/-- What a receiver of pipelined calls does with a call. It does so at once, but for an acknowledgement that it holds
    back. -/
inductive CallerMode where
  /-- Acknowledges it later. -/
  | hold
  /-- Acknowledges it at once. -/
  | acknowledge
  /-- Forwards it, with the question id lowered by one, to another answer and acknowledges it then.
      A call with question id zero is only acknowledged. -/
  | forward (target : AnswerId)
  deriving DecidableEq

/-- A receiver of pipelined calls. It outlives the answers that it is installed for and the calls that were sent to
    it, and what it has yet to acknowledge can be acknowledged at any time. -/
structure Caller where
  mode : CallerMode
  /-- The number of calls received. -/
  received : Nat := 0
  /-- The calls whose deliveries it has yet to acknowledge, the first one in front. -/
  held : List CallId := []
  deriving DecidableEq

/-! ## Suspended work -/

/-- How far a message on its way out has come. -/
inductive SendStage where
  /-- It waits until no other message is being transmitted. -/
  | waiting (envelope : Envelope)
  /-- It was handed to the transport. -/
  | transmitting (envelope : Envelope) (gate : Option GateId)
  deriving DecidableEq

/-- The message on its way out. -/
def SendStage.envelope : SendStage → Envelope
  | .waiting e => e
  | .transmitting e _ => e

/-- How far the completion of a call has come. -/
inductive ReturnStage where
  | unbegun (result : Except Error Unit)
  /-- Also says whether the peer's finish was in when the completion began. -/
  | sending (send : SendStage) (finishReceived : Bool)
  /-- The return is out, and pipelined calls are still being delivered. -/
  | draining (wait : Wait)

/-- How far the end of a connection has come. -/
inductive DisconnectStage where
  | unbegun
  | aborting (send : SendStage)
  | shuttingDown (gate : Option GateId)
  deriving DecidableEq

/-- How far the acceptance of a call has come. -/
inductive AcceptStage where
  | unbegun (id : AnswerId) (token : Token)
  /-- The id was in use, and the connection is coming to its end because of that. -/
  | refusing (error : Error) (stage : DisconnectStage)
  deriving DecidableEq

/-- A piece of work that may be suspended. -/
inductive Work where
  | sendReturn (handle : Handle) (stage : ReturnStage)
  | accept (stage : AcceptStage)
  | disconnect (error : Error) (stage : DisconnectStage)

/-- A piece of work, and the token that cancels it, if one does. -/
structure Task where
  work : Work
  guard : Option Token := none

/-- The message that a piece of work has on its way out. -/
def Work.send? : Work → Option SendStage
  | .sendReturn _ (.sending s _) => some s
  | .accept (.refusing _ (.aborting s)) => some s
  | .disconnect _ (.aborting s) => some s
  | _ => none

/-! ## History -/

/-- What a connection calls out to. -/
inductive Event where
  /-- The transport was asked for a new message. -/
  | reserved (hint : UInt32)
  /-- A message was handed to the transport: the return of a call or, without one, an abort. -/
  | handedOver (call : Option CallId) (message : Message)
  /-- The transport accepted a message. -/
  | accepted (call : Option CallId) (message : Message)
  /-- The transport was told to shut down. -/
  | shutDown (reason : Error)
  /-- An error was reported that concerns nobody else. -/
  | reported (error : Error)
  /-- An answer was created with its return reserved. -/
  | created (id : AnswerId)
  /-- An answer left the table because of the peer's finish. -/
  | releasedOnFinish (id : AnswerId)
  /-- An answer left the table because its return was sent. -/
  | releasedAfterReturn (id : AnswerId)
  /-- The connection is coming to its end. -/
  | disconnecting (error : Error)
  /-- A receiver of pipelined calls was handed a call. -/
  | pipelined (caller : CallerName) (call : PipelinedCall)
  /-- What became of a call that a receiver forwarded. -/
  | nested (result : Except Error Forwarded)

/-! ## The connection -/

/-- The callee's side of one connection. -/
structure Connection where
  options : Options := {}
  link : Link := .up
  answers : Table AnswerId Answer := .empty
  exports : Exports := {}
  messages : MessageStore := {}
  /-- The deliveries of each call, also after its answer is gone. -/
  deliveries : Table CallId Deliveries := .empty
  /-- The handles that stand alone, each under the serial number of its call. -/
  handles : Table CallId AnswerId := .empty
  tasks : Table TaskId Task := .empty
  /-- The task whose message is being transmitted. -/
  sender : Option TaskId := none
  transport : Transport := {}
  callers : Table CallerName Caller := .empty
  /-- The tokens that were told to cancel, once for each time. -/
  cancellations : List Token := []
  nextCall : CallId := 0
  nextTask : TaskId := 0
  history : List Event := []
  /-- Whether a number did not fit into its 32 bits. The program has panicked then, and what the connection
      holds and does from there on is of no account. -/
  panicked : Bool := false

namespace Connection

/-! ## Looking -/

/-- Whether the connection is broken. -/
def isDown (c : Connection) : Bool :=
  match c.link with
  | .up => false
  | .broken _ => true

/-- The state of an answer. -/
def answerState? (c : Connection) (id : AnswerId) : Option AnswerState :=
  (c.answers.get? id).map (·.state)

/-- The deliveries of a call. -/
def deliveriesOf (c : Connection) (call : CallId) : Deliveries :=
  (c.deliveries.get? call).getD {}

/-- Whether a token was told to cancel. -/
def isCanceled (c : Connection) (token : Token) : Bool :=
  token ∈ c.cancellations

/-- The number of messages that are reserved and neither handed over nor discarded. -/
def openMessages (c : Connection) : Nat :=
  (c.answers.values.filterMap (·.message)).length +
    (c.tasks.values.filter fun task =>
      match task.work.send? with
      | some (.waiting _) => true
      | _ => false).length

/-- The arenas that something of the connection still refers to. -/
def arenas (c : Connection) : List ArenaId :=
  (c.answers.values.filterMap (·.message)).map (·.arena) ++
    (c.answers.values.filterMap (·.results)).map (·.arena) ++
    (c.tasks.values.filterMap (·.work.send?)).map (·.envelope.arena) ++
    c.transport.sent.map (·.arena)

/-- Whether work that is under way waits for a gate. -/
def waitsAt (c : Connection) (gate : GateId) : Bool :=
  c.tasks.values.any fun task =>
    match task.work with
    | .sendReturn _ (.sending (.transmitting _ g) _) => g = some gate
    | .accept (.refusing _ (.aborting (.transmitting _ g))) => g = some gate
    | .accept (.refusing _ (.shuttingDown g)) => g = some gate
    | .disconnect _ (.aborting (.transmitting _ g)) => g = some gate
    | .disconnect _ (.shuttingDown g) => g = some gate
    | _ => false

/-! ## Answers -/

/-- Stores the record of an answer. One that is done leaves the table instead. -/
def putAnswer (c : Connection) (id : AnswerId) (a : Answer) : Connection :=
  { c with answers := if a.state.isDone then c.answers.erase id else c.answers.insert id a }

/-! ## Calling out -/

/-- Notes what was called out to. -/
def emit (c : Connection) (e : Event) : Connection :=
  { c with history := e :: c.history }

/-- Reports an error. -/
def report (c : Connection) (e : Error) : Connection :=
  c.emit (.reported e)

/-- Reports errors in order. -/
def reportAll (c : Connection) (es : List Error) : Connection :=
  es.foldl report c

end Connection

end Callee
