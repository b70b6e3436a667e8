import Callee.Checked
import Callee.Message.Arena

set_option autoImplicit false

/-! # Messages under construction

A callee sends two sorts of messages: a return, with results or an exception in it, and an abort. A
`Message` is one under construction: its storage and, once it has been chosen, its root. Each step of
the construction charges its words; what is replaced is not refunded. All but two operations leave
nothing behind when they fail. `setExceptionReason` and `initCapTable` charge first and look at the
root afterwards, so they keep the charge. A charge has 32 bits. Where it is added up from a length that
comes from outside it may not fit, and then the operation panics before it has done anything. -/

namespace Callee

/-! ## Contents -/

/-- The sort of an exception. -/
inductive ExceptionType where
  | failed
  | overloaded
  | disconnected
  | unimplemented
  deriving DecidableEq

/-- The identifier of a sort of exception. -/
def ExceptionType.name : ExceptionType → String
  | failed => "Failed"
  | overloaded => "Overloaded"
  | disconnected => "Disconnected"
  | unimplemented => "Unimplemented"

/-- The sort under which an error reaches the peer. What the peer has no sort for is a failure. -/
def Error.exceptionType (e : Error) : ExceptionType :=
  match e.kind with
  | .overloaded => .overloaded
  | .disconnected => .disconnected
  | .unimplemented => .unimplemented
  | _ => .failed

/-- What went wrong, as the peer is told. -/
structure Exception where
  type : ExceptionType
  reason : String
  deriving DecidableEq

/-- How the peer reaches one capability of a payload: under an export id of ours, or not at all. -/
abbrev Descriptor := Option ExportId

/-- The results of a call. -/
structure Payload where
  content : Pointer := .null
  /-- One descriptor for each slot of the message's capability table, once they are written. -/
  capTable : List Descriptor := []
  deriving DecidableEq

/-- What a return holds. -/
inductive Outcome where
  /-- Nothing yet. -/
  | unset
  | results (payload : Payload)
  | exception (exc : Exception)
  deriving DecidableEq

/-- The answer to a call. -/
structure Return where
  answerId : AnswerId
  releaseParamCaps : Bool := true
  outcome : Outcome := .unset
  deriving DecidableEq

/-- What a message is. -/
inductive Root where
  | return (ret : Return)
  | abort (exc : Exception)
  deriving DecidableEq

/-- A message under construction. -/
structure Message where
  arena : Arena := {}
  root : Option Root := none
  deriving DecidableEq

/-! ## Sizes in words -/

/-- The words of the message itself. -/
def messageWords : UInt32 := 2
/-- The words of a return. -/
def returnWords : UInt32 := 3
/-- The words of a payload. -/
def payloadWords : UInt32 := 2
/-- The words of an exception without its reason. -/
def exceptionWords : UInt32 := 3
/-- The words of a descriptor. -/
def descriptorWords : UInt32 := 2
/-- The words in front of a list. -/
def listTagWords : UInt32 := 1

/-- The words of a text: its bytes and a closing zero, rounded up. -/
def textWords (text : String) : UInt32 :=
  ((text.utf8ByteSize + 8) / 8).toUInt32

/-- The words of an abort with a reason. -/
def abortWords (reason : String) : Nat :=
  (messageWords + exceptionWords).toNat + (textWords reason).toNat

/-- The words of a table of descriptors. -/
def capTableWords (len : UInt32) : Nat :=
  listTagWords.toNat + len.toNat * descriptorWords.toNat

namespace Message

/-- The words charged so far. -/
def size (m : Message) : Nat := m.arena.wordsUsed

/-! ## Choosing the root -/

/-- Makes the message a return that holds nothing yet. -/
def initReturn (m : Message) (id : AnswerId) : Except Error Message :=
  (m.arena.allocate (messageWords + returnWords)).map fun a =>
    { arena := a, root := some (.return { answerId := id }) }

/-- Makes the message an abort. It panics if the words of the abort do not fit into 32 bits. -/
def initAbort (m : Message) (type : ExceptionType) (reason : String) : Checked (Except Error Message) where
  value := (m.arena.charge (abortWords reason)).map fun a =>
    { arena := a, root := some (.abort { type := type, reason := reason }) }
  panicked := UInt32.size ≤ abortWords reason

/-- The return that the message is. -/
def getReturn (m : Message) : Except Error Return :=
  match m.root with
  | some (.return ret) => .ok ret
  | _ => .error .notAReturn

/-- Changes the return that the message is. -/
def modifyReturn (m : Message) (f : Return → Return) : Except Error Message :=
  m.getReturn.map fun ret => { m with root := some (.return (f ret)) }

/-! ## Results -/

/-- The results in the message. -/
def getResults (m : Message) : Except Error Payload :=
  match m.getReturn with
  | .error e => .error e
  | .ok ret =>
      match ret.outcome with
      | .results payload => .ok payload
      | _ => .error .notResults

/-- Changes the results in the message. -/
def modifyResults (m : Message) (f : Payload → Payload) : Except Error Message :=
  match m.getResults with
  | .error e => .error e
  | .ok payload => m.modifyReturn fun ret => { ret with outcome := .results (f payload) }

/-- Makes the return hold empty results. What it held before is dropped. -/
def initResults (m : Message) : Except Error Message :=
  match m.getReturn with
  | .error e => .error e
  | .ok ret =>
      (m.arena.allocate payloadWords).map fun a =>
        { arena := a, root := some (.return { ret with outcome := .results {} }) }

/-- Points the results at something. -/
def setContent (m : Message) (p : Pointer) : Except Error Message :=
  m.modifyResults fun payload => { payload with content := p }

/-- Makes room for the descriptors of a number of capabilities. It panics if the words of their table do
    not fit into 32 bits. -/
def initCapTable (m : Message) (len : UInt32) : Checked (Except Error Unit × Message) where
  value :=
    match m.arena.charge (capTableWords len) with
    | .error e => (.error e, m)
    | .ok a =>
        let charged := { m with arena := a }
        match charged.modifyResults fun payload =>
          { payload with capTable := List.replicate len.toNat none } with
        | .error e => (.error e, charged)
        | .ok filled => (.ok (), filled)
  panicked := UInt32.size ≤ capTableWords len

/-! ## Exceptions -/

/-- Makes the return hold an exception without a reason. What it held before is dropped. -/
def initException (m : Message) (type : ExceptionType) : Except Error Message :=
  match m.getReturn with
  | .error e => .error e
  | .ok ret =>
      (m.arena.allocate exceptionWords).map fun a =>
        { arena := a,
          root := some (.return { ret with outcome := .exception { type := type, reason := "" } }) }

/-- Puts a reason into the exception that the return holds. -/
def putReason (m : Message) (reason : String) : Except Error Message :=
  match m.getReturn with
  | .error e => .error e
  | .ok ret =>
      match ret.outcome with
      | .exception exc =>
          m.modifyReturn fun r => { r with outcome := .exception { exc with reason := reason } }
      | _ => .error .notAnException

/-- Gives the exception its reason. -/
def setExceptionReason (m : Message) (reason : String) : Except Error Unit × Message :=
  match m.arena.allocate (textWords reason) with
  | .error e => (.error e, m)
  | .ok a =>
      let charged := { m with arena := a }
      match charged.putReason reason with
      | .error e => (.error e, charged)
      | .ok filled => (.ok (), filled)

/-! ## Storage -/

/-- Allocates a struct and gives its index. -/
def newStruct (m : Message) (size : ObjectSize) : Except Error (Nat × Message) :=
  (m.arena.newStruct size).map fun (index, a) => (index, { m with arena := a })

/-- Adds a capability to the table and gives its index. -/
def addCapability (m : Message) (cap : Capability) : Nat × Message :=
  let (index, a) := m.arena.addCapability cap
  (index, { m with arena := a })

/-! ## Building a return -/

/-- Makes the message the return of a call that has only been received. The callee keeps the
    capabilities that came with the parameters, so the return says that they are not released. -/
def startReturn (m : Message) (id : AnswerId) : Except Error Message :=
  match m.initReturn id with
  | .error e => .error e
  | .ok m₁ => m₁.modifyReturn fun ret => { ret with releaseParamCaps := false }

/-- Makes a new struct the results and gives its index. What the results were before is dropped, also
    if there is no room for the struct. -/
def allocateResults (m : Message) (size : ObjectSize) : Except Error Nat × Message :=
  match m.initResults with
  | .error e => (.error e, m)
  | .ok m₁ =>
      match m₁.newStruct size with
      | .error e => (.error e, m₁)
      | .ok (index, m₂) =>
          match m₂.setContent (.struct index) with
          | .error e => (.error e, m₂)
          | .ok m₃ => (.ok index, m₃)

/-- Makes a single capability the results. The capability stays in the table if that fails. -/
def setBootstrap (m : Message) (cap : Capability) : Except Error Unit × Message :=
  let (index, m₁) := m.addCapability cap
  match m₁.initResults with
  | .error e => (.error e, m₁)
  | .ok m₂ =>
      match m₂.setContent (.capability index) with
      | .error e => (.error e, m₂)
      | .ok m₃ => (.ok (), m₃)

/-- Sees to it that the return holds results, empty ones if it held none, and gives what there is to
    report. -/
def ensureResults (m : Message) : Message × List Error :=
  match m.getResults with
  | .ok _ => (m, [])
  | .error _ =>
      match m.initResults with
      | .ok m₁ => (m₁, [])
      | .error e => (m, [.sendingReturn e])

/-- Makes the message the abort that tells the peer of an error. -/
def writeAbort (m : Message) (e : Error) : Checked (Except Error Message) :=
  m.initAbort e.exceptionType e.message

/-- Makes the return hold an error as an exception with the whole text of the error as reason. -/
def writeException (m : Message) (e : Error) : Except Error Unit × Message :=
  match m.initException e.exceptionType with
  | .error x => (.error x, m)
  | .ok m₁ => m₁.setExceptionReason e.message

end Message

end Callee
