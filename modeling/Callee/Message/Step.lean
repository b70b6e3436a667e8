import Callee.Message.Basic

set_option autoImplicit false

/-! # Messages step by step

Everything that can be done to one message: building it, writing into its structs through handles, and the few
assignments that are made to what its root holds. Each step is one of the operations on messages, carried out on
the message as it stands; a step that fails may still have charged it, and one that panics leaves it alone. -/

namespace Callee

/-- One step of work on a message. -/
inductive MessageStep where
  | initReturn (id : AnswerId)
  | initAbort (type : ExceptionType) (reason : String)
  | initResults
  | initException (type : ExceptionType)
  | setExceptionReason (reason : String)
  | initCapTable (len : UInt32)
  | newStruct (size : ObjectSize)
  | addCapability (cap : Capability)
  /-- A write through a handle to a struct. -/
  | edit (struct : Nat) (change : StructEdit)
  /-- The return is assigned to a call, and what it says about parameters is set. -/
  | address (id : AnswerId) (releaseParamCaps : Bool)
  | setContent (content : Pointer)
  /-- The descriptors of the results are replaced by as many others. -/
  | describe (table : List Descriptor)
  deriving DecidableEq

/-- How an operation ends. -/
inductive Ending (α : Type) where
  | done (value : α)
  | failed (error : Error)
  /-- A number did not fit into 32 bits. -/
  | panicked
  deriving DecidableEq

/-- What the value of an operation that is done is turned into. -/
def Ending.map {α β : Type} (f : α → β) : Ending α → Ending β
  | done a => .done (f a)
  | failed e => .failed e
  | panicked => .panicked

/-- How an operation ends that does not panic. -/
def Ending.of {α : Type} : Except Error α → Ending α
  | .ok a => .done a
  | .error e => .failed e

namespace Message

/-- A message before anything is done to it. -/
def empty (wordLimit : Option Nat) : Message := { arena := { wordLimit := wordLimit } }

/-- Ends a step that leaves the message alone if it fails. -/
def settle (m : Message) : Except Error Message → Ending (Option Nat) × Message
  | .ok m' => (.done none, m')
  | .error e => (.failed e, m)

/-- Ends a step that may have charged the message although it failed. -/
def charge : Except Error Unit × Message → Ending (Option Nat) × Message
  | (written, m) => (.of (written.map fun _ => none), m)

/-- Ends a step that may panic. It leaves the message alone then. -/
def check {α : Type} (m : Message) (r : Checked α) (finish : α → Ending (Option Nat) × Message) :
    Ending (Option Nat) × Message :=
  match r.outcome? with
  | some a => finish a
  | none => (.panicked, m)

theorem check_of_calm {α : Type} (m : Message) {r : Checked α} (h : r.panicked = false)
    (finish : α → Ending (Option Nat) × Message) : m.check r finish = finish r.value := by
  unfold check
  rw [Checked.outcome?_eq_some_iff.2 ⟨h, rfl⟩]

theorem check_of_panicked {α : Type} (m : Message) {r : Checked α} (h : r.panicked = true)
    (finish : α → Ending (Option Nat) × Message) : m.check r finish = (.panicked, m) := by
  unfold check
  rw [Checked.outcome?_eq_none_iff.2 h]

/-- Carries out one step. It gives the index of what was allocated or added, if anything was. -/
def step (m : Message) : MessageStep → Ending (Option Nat) × Message
  | .initReturn id => m.settle (m.initReturn id)
  | .initAbort type reason => m.check (m.initAbort type reason) m.settle
  | .initResults => m.settle m.initResults
  | .initException type => m.settle (m.initException type)
  | .setExceptionReason reason => charge (m.setExceptionReason reason)
  | .initCapTable len => m.check (m.initCapTable len) charge
  | .newStruct size =>
      match m.newStruct size with
      | .ok (index, m') => (.done (some index), m')
      | .error e => (.failed e, m)
  | .addCapability cap =>
      let (index, m') := m.addCapability cap
      (.done (some index), m')
  | .edit struct change =>
      match m.arena.edit struct change with
      | .ok (child, a) => (.done child, { m with arena := a })
      | .error e => (.failed e, m)
  | .address id releaseParamCaps =>
      m.settle (m.modifyReturn fun ret =>
        { ret with answerId := id, releaseParamCaps := releaseParamCaps })
  | .setContent content => m.settle (m.setContent content)
  | .describe table =>
      m.settle (m.modifyResults fun payload =>
        if table.length = payload.capTable.length then { payload with capTable := table } else payload)

/-- The message after a sequence of steps. -/
def after (m : Message) (steps : List MessageStep) : Message :=
  steps.foldl (fun m s => (m.step s).2) m

/-! ## Runs -/

@[simp] theorem after_nil (m : Message) : m.after [] = m := rfl

@[simp] theorem after_cons (m : Message) (s : MessageStep) (rest : List MessageStep) :
    m.after (s :: rest) = (m.step s).2.after rest := rfl

theorem after_append (m : Message) (steps more : List MessageStep) :
    m.after (steps ++ more) = (m.after steps).after more :=
  List.foldl_append

end Message

end Callee
