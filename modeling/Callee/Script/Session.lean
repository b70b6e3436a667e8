import Callee.Log
import Callee.Script.Holdings

set_option autoImplicit false

/-! # Scripts on a connection

A `Session` is a connection together with what a script holds on it by name: handles, tasks, gates and
cancellation tokens. `Session.step` carries out one step, and `Session.run` a whole script, with what
each line gave, what the connection called out to meanwhile, and what can be seen of it afterwards.
Whatever is stored under a name in use takes the place of what was there, which is then dropped. -/

namespace Callee.Script

/-! ## What is held -/

/-- How a newly admitted call is to be kept and shown. -/
structure AdmissionNames where
  /-- The name for the handle. -/
  keep : String
  /-- Whether the admission is also to describe itself. -/
  describe : Bool := false
  /-- Whether only the error of a failed admission is to be kept. -/
  convert : Bool := false
  deriving DecidableEq

/-- A handle, and the token that its answer was created with. -/
structure HeldHandle where
  handle : Handle
  token : Token
  deriving DecidableEq

/-- A task and, if it is to accept a call, what becomes of the admission. -/
structure HeldTask where
  task : TaskId
  admission : Option (AdmissionNames × Token) := none
  deriving DecidableEq

/-- A connection and what a script holds on it. -/
structure Session where
  connection : Connection := {}
  items : Holdings := {}
  handles : Table String HeldHandle := .empty
  tasks : Table String HeldTask := .empty
  gates : Table String GateId := .empty
  /-- The tokens that were created, in order. -/
  tokens : List Token := []
  /-- The tokens that have been given a task to cancel. -/
  spentTokens : List Token := []
  /-- The answer ids that the script has spelled out. -/
  spelledIds : List AnswerId := []

/-- A step on a connection. -/
inductive SessionStep where
  | item (step : ItemStep)
  | configure (settings : List TransportSetting)
  | newAnswer (id : AnswerId) (token : Option Token) (names : AdmissionNames)
  | accept (id : AnswerId) (token : Option Token) (names : AdmissionNames) (task : String)
      (lazy : Bool)
  | allocateResults (handle : String) (size : ObjectSize) (keep : Option String)
  | setBootstrap (handle : String) (cap : String) (move : Bool)
  | handleState (handle : String)
  | answerState (id : AnswerId)
  | newCaller (name : String) (mode : CallerMode)
  | setPipeline (id : AnswerId) (caller : String)
  | setPipelineOf (handle : String) (caller : String)
  | acknowledge (caller : String) (count : Option Nat)
  | forward (id : AnswerId) (call : PipelinedCall) (keep : Option String)
  | finish (id : AnswerId) (releaseCaps : Bool)
  | sendReturn (handle : String) (result : Except Error Unit) (task : String) (abortable : Bool)
      (lazy : Bool)
  | dropHandle (handle : String)
  | disconnect (error : Error) (task : String) (lazy : Bool)
  | poll (task : String)
  | dropTask (task : String)
  | cancel (token : Token)
  | gateSend (name : String)
  | gateShutdown (name : String)
  | openGate (name : String)
  | sent (index : Nat)
  | takeSent
  | unknown

/-- A line of a script: a step, and the answer id that the line spells out, if it does. An answer is
    shown once its id has been spelled out; one that was only ever meant by default stays unshown. -/
structure SessionLine where
  step : SessionStep
  id : Option AnswerId := none

namespace Session

/-! ## Acting on the connection -/

/-- Carries out an action on the connection. -/
def act (s : Session) (action : Action) : Reply × Session :=
  let (reply, c) := s.connection.step action
  (reply, { s with connection := c })

/-- What a reply gives when there is nothing more to say about it. -/
def plain : Reply → Result
  | .done => .done
  | .failed e => .failed e
  | .forwarded outcome => .forwarded outcome
  | .counted n => .number n
  | .opened held => .flag held
  | _ => .skipped

/-- Carries out an action and gives its plain result. -/
def actPlain (s : Session) (action : Action) : Result × Session :=
  let (reply, s) := s.act action
  (plain reply, s)

/-! ## Tokens, handles and tasks -/

/-- The token of a new call: the named one, or a fresh one that is named by its number. -/
def takeToken (s : Session) (name : Option Token) : Token × Session :=
  let token := name.getD s!"c{s.tokens.length}"
  (token, if token ∈ s.tokens then s else { s with tokens := s.tokens ++ [token] })

/-- Stores a handle under a name and drops the one that was there. -/
def keepHandle (s : Session) (name : String) (held : HeldHandle) : Session :=
  let old := s.handles.get? name
  let s := { s with handles := s.handles.insert name held }
  match old with
  | some old => (s.act (.dropHandle old.handle)).2
  | none => s

/-- Keeps what an admission gave, and reports on it. -/
def keepAdmission (s : Session) (names : AdmissionNames) (token : Token) (admission : Admission) :
    AdmissionReport × Session :=
  let report : AdmissionReport := {
    admission := admission
    description := if names.describe then some admission.description else none }
  match admission with
  | .created h => (report, s.keepHandle names.keep { handle := h, token := token })
  | .duplicate _ => ({ report with converted := names.convert }, s)
  | .unsendable h _ =>
      if names.convert then ({ report with converted := true }, (s.act (.dropHandle h)).2)
      else (report, s.keepHandle names.keep { handle := h, token := token })

/-- Stores a task under a name and drops the one that was there. -/
def keepTask (s : Session) (name : String) (held : HeldTask) : Session :=
  let old := s.tasks.get? name
  let s := { s with tasks := s.tasks.insert name held }
  match old with
  | some old => (s.act (.dropTask old.task)).2
  | none => s

/-- Polls a task. It is gone when it is over. -/
def pollTask (s : Session) (name : String) : Result × Session :=
  match s.tasks.get? name with
  | none => (.skipped, s)
  | some held =>
      let (reply, s) := s.act (.poll held.task)
      let gone := { s with tasks := s.tasks.erase name }
      match reply, held.admission with
      | .polled .pending, _ => (.pending, s)
      | .polled .aborted, _ => (.aborted, gone)
      | .polled .finished, _ => (.ready none, gone)
      | .polled (.admitted admission), some (names, token) =>
          let (report, s) := gone.keepAdmission names token admission
          (.ready (some report), s)
      | _, _ => (.skipped, gone)

/-- Takes up a task under a name and, unless it is lazy, polls it at once. -/
def startTask (s : Session) (name : String) (lazy : Bool) (action : Action)
    (admission : Option (AdmissionNames × Token)) : Result × Session :=
  match s.act action with
  | (.spawned t, s) =>
      let s := s.keepTask name { task := t, admission := admission }
      if lazy then (.created, s) else s.pollTask name
  | (_, s) => (.skipped, s)

/-- Stores a gate under a name. Nobody can open the one that was there any more, so it is no longer
    waited for. -/
def keepGate (s : Session) (name : String) (gate : GateId) : Session :=
  let old := s.gates.get? name
  let s := { s with gates := s.gates.insert name gate }
  match old with
  | some old => (s.act (.openGate old)).2
  | none => s

/-- Closes a gate and stores it under a name. -/
def closeGate (s : Session) (name : String) (action : Action) : Result × Session :=
  match s.act action with
  | (.gate g, s) => (.done, s.keepGate name g)
  | (_, s) => (.skipped, s)

/-! ## Steps -/

/-- Carries out a step on a capability or a struct. -/
def itemStep (s : Session) (step : ItemStep) : Result × Session :=
  match s.items.step s.connection.messages step with
  | .ended result items => (result, { s with items := items })
  | .write ref change keep items =>
      let (reply, s) := ({ s with items := items }).act (.edit ref change)
      match reply with
      | .edited child =>
          let (result, items) := s.items.afterWrite keep (.ok child)
          (result, { s with items := items })
      | reply => (plain reply, s)

/-- Carries out one step. -/
def step (s : Session) : SessionStep → Result × Session
  | .item step => s.itemStep step
  | .configure settings =>
      (.done, settings.foldl (fun s setting => (s.act (.configure setting)).2) s)
  | .newAnswer id token names =>
      let (token, s) := s.takeToken token
      match s.act (.newAnswer id token) with
      | (.admitted admission, s) =>
          let (report, s) := s.keepAdmission names token admission
          (.admission report, s)
      | (_, s) => (.skipped, s)
  | .accept id token names task lazy =>
      let (token, s) := s.takeToken token
      s.startTask task lazy (.accept id token) (some (names, token))
  | .allocateResults handle size keep =>
      match s.handles.get? handle with
      | none => (.skipped, s)
      | some held =>
          match s.act (.allocateResults held.handle size) with
          | (.allocated ref, s) =>
              (.pointer (.struct ref.index), { s with items := s.items.keepStruct keep ref })
          | (reply, s) => (plain reply, s)
  | .setBootstrap handle cap move =>
      match s.handles.get? handle, s.items.give cap move with
      | some held, some (cap, items) =>
          ({ s with items := items }).actPlain (.setBootstrap held.handle cap)
      | _, _ => (.skipped, s)
  | .handleState handle =>
      match s.handles.get? handle with
      | none => (.skipped, s)
      | some held =>
          (.handle (s.connection.answerState? held.handle.id) held.handle.id
            held.handle.description, s)
  | .answerState id => (.answerState (s.connection.answerState? id), s)
  | .newCaller name mode => s.actPlain (.newCaller name mode)
  | .setPipeline id caller => s.actPlain (.setPipeline id caller)
  | .setPipelineOf handle caller =>
      match s.handles.get? handle with
      | none => (.skipped, s)
      | some held => s.actPlain (.setPipeline held.handle.id caller)
  | .acknowledge caller count => s.actPlain (.acknowledge caller count)
  | .forward id call keep =>
      match s.act (.forward id call) with
      | (.forwarded (.resolved target call), s) =>
          (.forwarded (.resolved target call), { s with items := s.items.keepCap keep target })
      | (reply, s) => (plain reply, s)
  | .finish id releaseCaps => s.actPlain (.finish id releaseCaps)
  | .sendReturn handle result task abortable lazy =>
      match s.handles.get? handle with
      | none => (.skipped, s)
      | some held =>
          let guarded := abortable && held.token ∉ s.spentTokens
          let s := { s with
            handles := s.handles.erase handle
            spentTokens := if guarded then held.token :: s.spentTokens else s.spentTokens }
          s.startTask task lazy
            (.sendReturn held.handle result (if guarded then some held.token else none)) none
  | .dropHandle handle =>
      match s.handles.get? handle with
      | none => (.skipped, s)
      | some held =>
          ({ s with handles := s.handles.erase handle }).actPlain (.dropHandle held.handle)
  | .disconnect e task lazy => s.startTask task lazy (.disconnect e) none
  | .poll task => s.pollTask task
  | .dropTask task =>
      match s.tasks.get? task with
      | none => (.skipped, s)
      | some held => ({ s with tasks := s.tasks.erase task }).actPlain (.dropTask held.task)
  | .cancel token => if token ∈ s.tokens then s.actPlain (.cancel token) else (.skipped, s)
  | .gateSend name => s.closeGate name .gateSend
  | .gateShutdown name => s.closeGate name .gateShutdown
  | .openGate name =>
      match s.gates.get? name with
      | none => (.skipped, s)
      | some gate => ({ s with gates := s.gates.erase name }).actPlain (.openGate gate)
  | .sent index =>
      match s.connection.transport.sent[index]? with
      | some envelope => (.message (s.connection.messages.message envelope), s)
      | none => (.skipped, s)
  | .takeSent => s.actPlain .takeSent
  | .unknown => (.skipped, s)

/-! ## What can be seen -/

/-- What can be seen of a connection between two steps. -/
structure View where
  /-- The answers by ascending id, as far as the script has spelled out their ids. -/
  answers : List (AnswerId × AnswerState)
  /-- The number of all answers. -/
  answerCount : Nat
  exports : Nat
  openMessages : Nat
  started : Nat
  accepted : Nat
  down : Bool
  canceled : List Token
  /-- The live references to each capability. -/
  live : List (String × Nat)
  /-- For each receiver of pipelined calls: the answers that send to it, the calls it received, and
      the deliveries it holds. -/
  callers : List (String × Nat × Nat × Nat)

/-- What can be seen of the connection of a session. -/
def view (s : Session) : View :=
  let c := s.connection
  { answers :=
      ((c.answers.entries.filter fun e => e.1 ∈ s.spelledIds).map fun e =>
        (e.1, e.2.state)).mergeSort fun a b => a.1 ≤ b.1
    answerCount := c.answers.size
    exports := c.exports.table.size
    openMessages := c.openMessages
    started := c.transport.started
    accepted := c.transport.accepted
    down := c.isDown
    canceled := s.tokens.filter c.isCanceled
    live := s.items.live c.messages c.arenas (c.exports.table.values.map (·.cap))
    callers := c.callers.entries.map fun e =>
      (e.1, c.answers.values.countP fun a => a.caller = some e.1, e.2.received, e.2.held.length) }

/-! ## Runs -/

/-- What is recorded of one line. -/
structure Record where
  result : Result
  /-- What the connection called out to, in order. -/
  events : List Event
  view : View

/-- What the connection called out to since it was as it was before. -/
def eventsSince (s before : Session) : List Event :=
  (s.connection.history.take
    (s.connection.history.length - before.connection.history.length)).reverse

/-- Carries out one line. The id that it spells out is known from this line on. -/
def line (s : Session) (l : SessionLine) : Result × Session :=
  ({ s with spelledIds := l.id.toList ++ s.spelledIds }).step l.step

/-- Carries out a script from left to right, up to a line at which the program panics, and records each
    line. -/
def run (s : Session) : List SessionLine → List Record × Session
  | [] => ([], s)
  | l :: rest =>
      let (result, after) := s.line l
      let record (result : Result) : Record :=
        { result := result, events := after.eventsSince s, view := after.view }
      if after.connection.panicked then ([record .broken], after)
      else
        let (records, last) := after.run rest
        (record result :: records, last)

/-- A session on a connection on which nothing has happened. -/
def initial (options : Options) (settings : List TransportSetting) : Session :=
  (({ connection := Connection.initial options } : Session).step (.configure settings)).2

end Session

end Callee.Script
