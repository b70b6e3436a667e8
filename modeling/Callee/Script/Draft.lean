import Callee.Script.Holdings

set_option autoImplicit false

/-! # Scripts on a message

A `Draft` is one message under construction together with what a script holds of it by name. When the
message is given up for a new one, the handles and the readers of the old one keep its storage. -/

namespace Callee.Script

/-- A message under construction and what a script holds of it. -/
structure Draft where
  messages : MessageStore
  current : Envelope
  items : Holdings := {}
  readers : Table String ResultsRef := .empty

/-- A step on a message. -/
inductive DraftStep where
  | item (step : ItemStep)
  | size (size : ObjectSize)
  | initReturn (id : AnswerId)
  | getReturn
  | setReleaseParamCaps (value : Bool)
  | initAbort (type : ExceptionType) (reason : String)
  | initResults
  | getResults
  | setContent (content : Pointer)
  | initException (type : ExceptionType)
  | setExceptionReason (reason : String)
  | initCapTable (len : UInt32)
  | newStruct (size : ObjectSize) (keep : Option String)
  | addCap (cap : String) (move : Bool)
  | capTableLen
  | cap (index : Nat) (keep : Option String)
  | reader (keep : String)
  | dropReader (reader : String)
  | readCap (reader : String) (path : List PathStep) (keep : Option String)
  | reset (wordLimit : Option Nat)
  | unknown

namespace Draft

/-- An empty message. -/
def initial (wordLimit : Option Nat) : Draft :=
  let (envelope, messages) := ({} : MessageStore).create wordLimit
  { messages := messages, current := envelope }

/-- The message as it stands. -/
def message (d : Draft) : Message :=
  d.messages.message d.current

/-- Puts the message back after it was worked on. -/
def put (d : Draft) (m : Message) : Draft :=
  let (envelope, messages) := d.messages.put d.current m
  { d with current := envelope, messages := messages }

/-! ## Steps -/

/-- Ends a step that leaves the message alone if it fails. -/
def build (d : Draft) (built : Except Error Message) (result : Message → Result) : Result × Draft :=
  match built with
  | .ok m => (result m, d.put m)
  | .error e => (.failed e, d)

/-- Ends a step that may have charged the message although it failed. -/
def charge (d : Draft) : Except Error Unit × Message → Result × Draft
  | (.ok (), m) => (.done, d.put m)
  | (.error e, m) => (.failed e, d.put m)

/-- Ends a step that may panic. It leaves the message alone then. -/
def check {α : Type} (d : Draft) (r : Checked α) (finish : α → Result × Draft) : Result × Draft :=
  match r.outcome? with
  | some a => finish a
  | none => (.broken, d)

/-- The return that a message is, as a result. -/
def returnOf (m : Message) : Result :=
  .return (m.getReturn.toOption)

/-- The content of the results of a message, as a result. -/
def contentOf (m : Message) : Result :=
  match m.getResults with
  | .ok payload => .pointer payload.content
  | .error e => .failed e

/-- The exception of a message, as a result. -/
def exceptionOf (m : Message) : Result :=
  match m.getReturn with
  | .ok { outcome := .exception exc, .. } => .exception exc
  | .ok _ => .failed .notAnException
  | .error e => .failed e

/-- Carries out a step on a capability or a struct. -/
def itemStep (d : Draft) (step : ItemStep) : Result × Draft :=
  match d.items.step d.messages step with
  | .ended result items => (result, { d with items := items })
  | .write ref change keep items =>
      let (written, messages) := d.messages.edit ref change
      let (result, items) := items.afterWrite keep written
      (result, { d with messages := messages, items := items })

/-- Carries out one step. -/
def step (d : Draft) : DraftStep → Result × Draft
  | .item step => d.itemStep step
  | .size size => (.number size.total.toNat, d)
  | .initReturn id => d.build (d.message.initReturn id) returnOf
  | .getReturn => (returnOf d.message, d)
  | .setReleaseParamCaps value =>
      d.build (d.message.modifyReturn fun ret => { ret with releaseParamCaps := value })
        fun _ => .done
  | .initAbort type reason =>
      d.check (d.message.initAbort type reason) fun built => d.build built fun _ => .done
  | .initResults => d.build d.message.initResults contentOf
  | .getResults => (contentOf d.message, d)
  | .setContent content => d.build (d.message.setContent content) fun _ => .done
  | .initException type => d.build (d.message.initException type) exceptionOf
  | .setExceptionReason reason => d.charge (d.message.setExceptionReason reason)
  | .initCapTable len => d.check (d.message.initCapTable len) d.charge
  | .newStruct size keep =>
      match d.message.newStruct size with
      | .error e => (.failed e, d)
      | .ok (index, m) =>
          let ref : StructRef := { arena := d.current.arena, index := index }
          let d := d.put m
          (.pointer (.struct index), { d with items := d.items.keepStruct keep ref })
  | .addCap cap move =>
      match d.items.give cap move with
      | none => (.skipped, d)
      | some (cap, items) =>
          let (index, m) := d.message.addCapability cap
          let d := d.put m
          (.number index, { d with items := items })
  | .capTableLen => (.number d.message.arena.caps.length, d)
  | .cap index keep =>
      match d.message.arena.capability? index with
      | none => (.capability none, d)
      | some cap => (.capability (some cap.identity), { d with items := d.items.keepCap keep cap })
  | .reader keep =>
      match d.current.results? with
      | none => (.reader none, d)
      | some results =>
          (.reader (some results.content), { d with readers := d.readers.insert keep results })
  | .dropReader reader =>
      if d.readers.contains reader then (.done, { d with readers := d.readers.erase reader })
      else (.skipped, d)
  | .readCap reader path keep =>
      match d.readers.get? reader with
      | none => (.skipped, d)
      | some results =>
          match d.messages.resolve results path with
          | .error e => (.ofError e, d)
          | .ok cap =>
              (.capability (some cap.identity), { d with items := d.items.keepCap keep cap })
  | .reset wordLimit =>
      let (envelope, messages) := d.messages.create wordLimit
      (.done, { d with messages := messages, current := envelope })
  | .unknown => (.skipped, d)

/-! ## What can be seen -/

/-- What can be seen of a message between two steps. -/
structure View where
  message : Message
  /-- The live references to each capability. -/
  live : List (String × Nat)

/-- What can be seen of the message of a draft. -/
def view (d : Draft) : View :=
  { message := d.message
    live := d.items.live d.messages (d.current.arena :: d.readers.values.map (·.arena)) [] }

/-! ## Runs -/

/-- What is recorded of one step. -/
structure Record where
  result : Result
  /-- There is nothing to see once the script has broken off. -/
  view : Option View

/-- Carries out a script from left to right, up to a step at which it breaks off, and records each
    step. -/
def run (d : Draft) : List DraftStep → List Record × Draft
  | [] => ([], d)
  | step :: rest =>
      let (result, after) := d.step step
      if result = .broken then ([{ result := result, view := none }], after)
      else
        let (records, last) := after.run rest
        ({ result := result, view := some after.view } :: records, last)

end Draft

end Callee.Script
