import Callee.Names

set_option autoImplicit false

/-! # Slots with recycled ids

A table whose ids we choose ourselves. A new value gets the lowest id that is free: the lowest one
that was given back, or the next one that was never used. -/

namespace Callee

/-- A table from ids of our own choice to values. -/
structure Slots (α : Type) where
  slots : List (Option α) := []
  /-- The ids of the empty slots, lowest first. -/
  free : List ExportId := []
  deriving DecidableEq

namespace Slots

variable {α : Type}

/-- Puts an id where it belongs among ascending ids. -/
def insertAscending (id : ExportId) : List ExportId → List ExportId
  | [] => [id]
  | first :: rest => if id ≤ first then id :: first :: rest else first :: insertAscending id rest

/-- The value under an id. -/
def get? (t : Slots α) (id : ExportId) : Option α :=
  (t.slots[id]?).join

/-- The values that are stored, by ascending id. -/
def values (t : Slots α) : List α :=
  t.slots.filterMap id

/-- The number of values that are stored. -/
def size (t : Slots α) : Nat :=
  t.values.length

/-- Stores a value under the lowest free id. -/
def push (t : Slots α) (v : α) : ExportId × Slots α :=
  match t.free with
  | id :: rest => (id, { slots := t.slots.set id (some v), free := rest })
  | [] => (t.slots.length, { t with slots := t.slots ++ [some v] })

/-- Takes a value out and frees its id. -/
def erase (t : Slots α) (id : ExportId) : Option α × Slots α :=
  match t.get? id with
  | some v =>
      (some v, { slots := t.slots.set id none, free := insertAscending id t.free })
  | none => (none, t)

/-- Takes all values out. No id has been used yet afterwards. -/
def drain (t : Slots α) : List α × Slots α :=
  (t.values, {})

/-- Replaces the value under an id that is in use. -/
def set (t : Slots α) (id : ExportId) (v : α) : Slots α :=
  { t with slots := t.slots.set id (some v) }

/-! ## Ascending ids -/

theorem mem_insertAscending (id j : ExportId) (ids : List ExportId) :
    j ∈ insertAscending id ids ↔ j = id ∨ j ∈ ids := by
  induction ids with
  | nil => simp [insertAscending]
  | cons first rest ih =>
      unfold insertAscending
      split
      · simp
      · simp only [List.mem_cons, ih]; grind

end Slots

end Callee
