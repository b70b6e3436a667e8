import Callee.Exports.Slots
import Callee.Message.Basic
import Callee.Table

set_option autoImplicit false

/-! # Exported capabilities

The capabilities that the peer may call. A capability has one export however often it is sent: the
index by identity finds it again, and its count says how many references to it the peer holds. When
the peer has given all of them back the export goes away and its id is free. Counts have 32 bits and so
has the number of ids, and where one of them grows this is checked. -/

namespace Callee

/-- One exported capability. -/
structure Export where
  /-- The references that the peer holds, a number of 32 bits. -/
  refs : Nat
  cap : Capability
  deriving DecidableEq

/-- All exports of a connection. -/
structure Exports where
  table : Slots Export := {}
  /-- The export of each capability, by identity. -/
  byIdentity : Table UInt64 ExportId := .empty

/-- What giving references back has done so far. -/
structure Release where
  exports : Exports
  /-- The ids that were not in use at their turn. -/
  invalid : List ExportId := []
  /-- The references that we gave up ourselves, one for each export that went away. -/
  released : List Capability := []

namespace Exports

/-- The export that a capability has, if it has one. -/
def find? (x : Exports) (cap : Capability) : Option (ExportId × Export) :=
  match x.byIdentity.get? cap.identity with
  | some id => (x.table.get? id).map fun e => (id, e)
  | none => none

/-- Hands one reference to a capability to the peer. It panics if the count of the export would outgrow
    its 32 bits, or the number of ids if the export is new. -/
def add (x : Exports) (cap : Capability) : Checked (ExportId × Exports) :=
  match x.find? cap with
  | some (id, e) =>
      { value := (id, { x with table := x.table.set id { e with refs := e.refs + 1 } })
        panicked := UInt32.size ≤ e.refs + 1 }
  | none =>
      let (id, table) := x.table.push { refs := 1, cap := cap }
      { value := (id, { table := table, byIdentity := x.byIdentity.insert cap.identity id })
        panicked := UInt32.size ≤ id + 1 }

/-- Hands one reference for each filled slot of a capability table to the peer, and describes the
    slots. -/
def describe (x : Exports) : List (Option Capability) → Checked (List Descriptor × Exports)
  | [] => pure ([], x)
  | none :: rest => do
      let (ds, x') ← x.describe rest
      return (none :: ds, x')
  | some cap :: rest => do
      let (id, x₁) ← x.add cap
      let (ds, x₂) ← x₁.describe rest
      return (some id :: ds, x₂)

/-- Writes a descriptor for each slot of a message's capability table into its results and gives the
    ids that were written. Nothing is exported if there is no room for them. -/
def writeDescriptors (x : Exports) (m : Message) :
    Checked (Except Error (List ExportId) × Message × Exports) := do
  match ← m.initCapTable m.arena.caps.length.toUInt32 with
  | (.error e, m) => return (.error e, m, x)
  | (.ok (), m) =>
      let (ds, x') ← x.describe m.arena.caps
      return match m.modifyResults fun payload => { payload with capTable := ds } with
        | .error e => (.error e, m, x')
        | .ok m => (.ok (ds.filterMap id), m, x')

/-- What writing out the results of a call has come to. -/
structure WrittenResults where
  message : Message
  exports : Exports
  /-- The references that were handed to the peer, if the descriptors could be written. -/
  ids : Option (List ExportId)
  errors : List Error
  /-- Whether a number did not fit into 32 bits. -/
  panicked : Bool := false

/-- Writes out the results in a return: empty ones if there are none, and on a connection that is up
    the descriptors of their capabilities. -/
def writeResults (x : Exports) (m : Message) (down : Bool) : WrittenResults :=
  let (m, missed) := m.ensureResults
  if down then { message := m, exports := x, ids := none, errors := missed }
  else
    let written := x.writeDescriptors m
    match written.value with
    | (.ok ids, m, x) =>
        { message := m, exports := x, ids := some ids, errors := missed, panicked := written.panicked }
    | (.error e, m, x) =>
        { message := m, exports := x, ids := none, errors := missed ++ [.sendingReturn e]
          panicked := written.panicked }

/-- Gives up all exports, whatever the peer still holds. -/
def drain (x : Exports) : List Export × Exports :=
  (x.table.drain.1, { table := x.table.drain.2 })

/-- Takes one reference back from the peer. -/
def releaseOne (r : Release) (id : ExportId) : Release :=
  match r.exports.table.get? id with
  | none => { r with invalid := r.invalid ++ [id] }
  | some e =>
      if e.refs - 1 = 0 then
        { r with
          exports :=
            { table := (r.exports.table.erase id).2
              byIdentity := r.exports.byIdentity.erase e.cap.identity }
          released := r.released ++ [e.cap] }
      else
        { r with
          exports :=
            { r.exports with table := r.exports.table.set id { e with refs := e.refs - 1 } } }

/-- Takes one reference back from the peer for each id. An id that is not in use is noted, and the
    others are still released. -/
def release (x : Exports) (ids : List ExportId) : Release :=
  ids.foldl releaseOne { exports := x }

end Exports

/-- What there is to report about references that were given back. -/
def Release.errors (r : Release) : List Error :=
  if r.invalid = [] then [] else [.invalidExports r.invalid]

@[simp] theorem Exports.release_nil (x : Exports) : x.release [] = { exports := x } := rfl

/-! ## What the counts come to -/

namespace Exports

@[simp] theorem value_describe_nil (x : Exports) : (x.describe []).value = ([], x) := rfl

@[simp] theorem value_describe_none (x : Exports) (rest : List (Option Capability)) :
    (x.describe (none :: rest)).value = (none :: (x.describe rest).value.1, (x.describe rest).value.2) := rfl

@[simp] theorem value_describe_some (x : Exports) (cap : Capability) (rest : List (Option Capability)) :
    (x.describe (some cap :: rest)).value =
      (some (x.add cap).value.1 :: ((x.add cap).value.2.describe rest).value.1,
        ((x.add cap).value.2.describe rest).value.2) := rfl

theorem value_writeDescriptors (x : Exports) (m : Message) :
    (x.writeDescriptors m).value = match (m.initCapTable m.arena.caps.length.toUInt32).value with
      | (.error e, m) => (.error e, m, x)
      | (.ok (), m) =>
          let (ds, x') := (x.describe m.arena.caps).value
          match m.modifyResults fun payload => { payload with capTable := ds } with
          | .error e => (.error e, m, x')
          | .ok m => (.ok (ds.filterMap id), m, x') := by
  unfold writeDescriptors
  rw [Checked.value_bind]
  split <;> rfl

/-! ## Whether the counts fit -/

@[simp] theorem panicked_describe_nil (x : Exports) : (x.describe []).panicked = false := rfl

@[simp] theorem panicked_describe_none (x : Exports) (rest : List (Option Capability)) :
    (x.describe (none :: rest)).panicked = (x.describe rest).panicked :=
  Bool.or_false _

@[simp] theorem panicked_describe_some (x : Exports) (cap : Capability) (rest : List (Option Capability)) :
    (x.describe (some cap :: rest)).panicked =
      ((x.add cap).panicked || ((x.add cap).value.2.describe rest).panicked) :=
  congrArg ((x.add cap).panicked || ·) (Bool.or_false _)

theorem panicked_writeDescriptors (x : Exports) (m : Message) :
    (x.writeDescriptors m).panicked = ((m.initCapTable m.arena.caps.length.toUInt32).panicked ||
      match (m.initCapTable m.arena.caps.length.toUInt32).value with
        | (.error _, _) => false
        | (.ok (), m) => (x.describe m.arena.caps).panicked) := by
  unfold writeDescriptors
  rw [Checked.panicked_bind]
  split
  · rfl
  · exact congrArg ((m.initCapTable m.arena.caps.length.toUInt32).panicked || ·) (Bool.or_false _)

end Exports

end Callee
