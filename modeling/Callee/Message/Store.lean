import Callee.Message.Basic
import Callee.Message.Path
import Callee.Table

set_option autoImplicit false

/-! # Messages with shared storage

The storage of a message outlives its construction: handles to its structs still write into it after
it was sent, and retained results are read from it. A `MessageStore` holds every arena under a serial
number. What is passed around is a small value with that number in it: an `Envelope` is a whole
message, a `StructRef` one of its structs, a `ResultsRef` its results as they were at one moment. -/

namespace Callee

/-- A message whose storage is shared. -/
structure Envelope where
  arena : ArenaId
  root : Option Root := none
  deriving DecidableEq

/-- A handle to a struct. -/
structure StructRef where
  arena : ArenaId
  index : Nat
  deriving DecidableEq

/-- The results of a message, as far as paths through them are concerned. -/
structure ResultsRef where
  arena : ArenaId
  content : Pointer
  deriving DecidableEq

/-- The results of a message, if it has any. -/
def Envelope.results? (e : Envelope) : Option ResultsRef :=
  match e.root with
  | some (.return { outcome := .results payload, .. }) =>
      some { arena := e.arena, content := payload.content }
  | _ => none

/-- The arenas of all messages. -/
structure MessageStore where
  arenas : Table ArenaId Arena := .empty
  /-- The next serial number. -/
  next : ArenaId := 0

namespace MessageStore

/-- An arena by its number. A number that was not given out stands for an empty one. -/
def arena (s : MessageStore) (id : ArenaId) : Arena :=
  (s.arenas.get? id).getD {}

/-- Replaces an arena. -/
def putArena (s : MessageStore) (id : ArenaId) (a : Arena) : MessageStore :=
  { s with arenas := s.arenas.insert id a }

/-- Starts an empty message. -/
def create (s : MessageStore) (wordLimit : Option Nat) : Envelope × MessageStore :=
  ({ arena := s.next },
    { arenas := s.arenas.insert s.next { wordLimit := wordLimit }, next := s.next + 1 })

/-- The message in an envelope. -/
def message (s : MessageStore) (e : Envelope) : Message :=
  { arena := s.arena e.arena, root := e.root }

/-- Puts a changed message back. -/
def put (s : MessageStore) (e : Envelope) (m : Message) : Envelope × MessageStore :=
  ({ e with root := m.root }, s.putArena e.arena m.arena)

/-- Carries out one write through a handle to a struct. It gives a handle to the struct that was
    allocated, if one was. -/
def edit (s : MessageStore) (ref : StructRef) (change : StructEdit) :
    Except Error (Option StructRef) × MessageStore :=
  match (s.arena ref.arena).edit ref.index change with
  | .error e => (.error e, s)
  | .ok (child, a) => (.ok (child.map (StructRef.mk ref.arena)), s.putArena ref.arena a)

/-- The capability at the end of a path through results. -/
def resolve (s : MessageStore) (r : ResultsRef) (path : List PathStep) : Except Error Capability :=
  (s.arena r.arena).resolve r.content path

/-! ## Reading back -/

@[simp] theorem arena_putArena_self (s : MessageStore) (id : ArenaId) (a : Arena) :
    (s.putArena id a).arena id = a := by
  simp [putArena, arena]

theorem arena_putArena_of_ne (s : MessageStore) {id j : ArenaId} (h : j ≠ id) (a : Arena) :
    (s.putArena id a).arena j = s.arena j := by
  simp [putArena, arena, Table.get?_insert_of_ne _ h]

@[simp] theorem message_put (s : MessageStore) (e : Envelope) (m : Message) :
    (s.put e m).2.message (s.put e m).1 = m := by
  simp [put, message]

end MessageStore

end Callee
