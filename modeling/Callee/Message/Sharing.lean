import Callee.Message.Step
import Callee.Message.Store

set_option autoImplicit false

/-! # Messages that are shared

The storage of a message is not its owner's alone: whoever has a handle to one of its structs writes into it, hangs
new structs and capabilities below it, and passes the handle on. A `Workpiece` is a message in the making with all
handles to its structs. A handle that is given up is one that nobody uses any more. -/

namespace Callee

/-- One step of work on a message that is shared. -/
inductive SharedStep where
  /-- A step of the message's owner. -/
  | build (s : MessageStep)
  /-- One more handle is made to the struct of a handle. -/
  | share (handle : Nat)
  /-- A write through a handle. -/
  | write (handle : Nat) (change : StructEdit)
  deriving DecidableEq

/-- The struct that a step has allocated, if it has allocated one, by how the step ended. -/
def MessageStep.allocated? : MessageStep → Ending (Option Nat) → Option Nat
  | .newStruct _, .done made => made
  | .edit _ _, .done made => made
  | _, _ => none

/-- A message that is worked on, in the store that it shares its storage in. -/
structure Workpiece where
  messages : MessageStore
  envelope : Envelope
  /-- The handles to structs of the message, in the order in which they were made. -/
  handles : List StructRef := []

namespace Workpiece

/-- A new message, to which there are no handles. -/
def start (messages : MessageStore) (wordLimit : Option Nat) : Workpiece :=
  let (envelope, messages) := messages.create wordLimit
  { messages := messages, envelope := envelope }

/-- The message as it stands. -/
def message (w : Workpiece) : Message := w.messages.message w.envelope

/-! ## Reading through a handle -/

/-- The word that is read through a handle. -/
def word (w : Workpiece) (ref : StructRef) (offset : UInt16) : UInt64 :=
  (w.messages.arena ref.arena).word ref.index offset

/-- The field that is read through a handle. -/
def field (w : Workpiece) (ref : StructRef) (index : UInt16) : Pointer :=
  (w.messages.arena ref.arena).field ref.index index

/-! ## Steps -/

/-- Carries out one step. A handle that was not made cannot be used, and nothing happens. -/
def step (w : Workpiece) : SharedStep → Ending Unit × Workpiece
  | .build s =>
      let (done, m) := w.message.step s
      let (envelope, messages) := w.messages.put w.envelope m
      let made := (s.allocated? done).map (StructRef.mk w.envelope.arena)
      (done.map fun _ => (),
        { messages := messages, envelope := envelope, handles := w.handles ++ made.toList })
  | .share handle => (.done (), { w with handles := w.handles ++ w.handles[handle]?.toList })
  | .write handle change =>
      match w.handles[handle]? with
      | none => (.done (), w)
      | some ref =>
          match w.messages.edit ref change with
          | (.ok made, messages) =>
              (.done (), { w with messages := messages, handles := w.handles ++ made.toList })
          | (.error e, messages) => (.failed e, { w with messages := messages })

/-- Carries out a sequence of steps. -/
def after (w : Workpiece) (steps : List SharedStep) : Workpiece :=
  steps.foldl (fun w s => (w.step s).2) w

@[simp] theorem after_nil (w : Workpiece) : w.after [] = w := rfl

@[simp] theorem after_cons (w : Workpiece) (s : SharedStep) (rest : List SharedStep) :
    w.after (s :: rest) = (w.step s).2.after rest := rfl

end Workpiece

end Callee
