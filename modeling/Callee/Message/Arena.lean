import Callee.Capability
import Callee.Error

set_option autoImplicit false

/-! # The storage of a message

The structs and capabilities of one message live in an arena and refer to each other by index. What
is allocated is charged in words against a budget and never given back, so running out of room is
an ordinary error. An operation that fails leaves no new arena behind. -/

namespace Callee

/-! ## Pointers and structs -/

/-- A pointer inside a message. Its index has 32 bits, as far as there are enough of them. -/
inductive Pointer where
  | null
  /-- To a struct of the arena. -/
  | struct (index : Nat)
  /-- To a slot of the capability table. -/
  | capability (index : Nat)
  deriving DecidableEq

/-- The index of what a pointer leads to. -/
def Pointer.index : Pointer → Nat
  | null => 0
  | struct index => index
  | capability index => index

/-- The size of a struct: the words of its data section and those of its pointer section. -/
structure ObjectSize where
  data : UInt16
  pointers : UInt16
  deriving DecidableEq

/-- The words of both sections. -/
def ObjectSize.total (size : ObjectSize) : UInt32 :=
  size.data.toUInt32 + size.pointers.toUInt32

/-- The contents of a struct. -/
structure StructBody where
  data : List UInt64
  pointers : List Pointer
  deriving DecidableEq

/-- A new struct holds zeros and null pointers. -/
def StructBody.blank (size : ObjectSize) : StructBody where
  data := List.replicate size.data.toNat 0
  pointers := List.replicate size.pointers.toNat .null

/-- The storage of one message. -/
structure Arena where
  wordsUsed : Nat := 0
  /-- The most words that the message may use, if there is a limit. -/
  wordLimit : Option Nat := none
  structs : List StructBody := []
  /-- The capability table. -/
  caps : List (Option Capability) := []
  deriving DecidableEq

namespace Arena

/-! ## Allocation -/

/-- Charges a number of words. -/
def charge (a : Arena) (words : Nat) : Except Error Arena :=
  match a.wordLimit with
  | none => .ok { a with wordsUsed := a.wordsUsed + words }
  | some limit =>
      if a.wordsUsed + words ≤ limit then .ok { a with wordsUsed := a.wordsUsed + words }
      else .error (.sizeLimit limit)

/-- Charges a number of words that has 32 bits. -/
def allocate (a : Arena) (words : UInt32) : Except Error Arena :=
  a.charge words.toNat

/-- Allocates a struct and gives its index. Nothing points to it yet. -/
def newStruct (a : Arena) (size : ObjectSize) : Except Error (Nat × Arena) :=
  (a.allocate size.total).map fun b =>
    (b.structs.length, { b with structs := b.structs ++ [StructBody.blank size] })

/-- Adds a capability to the table and gives its index. -/
def addCapability (a : Arena) (cap : Capability) : Nat × Arena :=
  (a.caps.length, { a with caps := a.caps ++ [some cap] })

/-- The capability in a slot of the table, if the slot is filled. -/
def capability? (a : Arena) (index : Nat) : Option Capability :=
  (a.caps[index]?).join

/-! ## The fields of structs -/

/-- A word of a struct's data section; zero outside it. -/
def word (a : Arena) (struct : Nat) (offset : UInt16) : UInt64 :=
  match a.structs[struct]? with
  | some body => body.data.getD offset.toNat 0
  | none => 0

/-- A field of a struct's pointer section; null outside it. -/
def field (a : Arena) (struct : Nat) (index : UInt16) : Pointer :=
  match a.structs[struct]? with
  | some body => body.pointers.getD index.toNat .null
  | none => .null

/-- The length of a struct's data section. -/
def wordCount (a : Arena) (struct : Nat) : Nat :=
  match a.structs[struct]? with
  | some body => body.data.length
  | none => 0

/-- The length of a struct's pointer section. -/
def fieldCount (a : Arena) (struct : Nat) : Nat :=
  match a.structs[struct]? with
  | some body => body.pointers.length
  | none => 0

/-- Puts a pointer into a field that exists. -/
def putField (a : Arena) (struct : Nat) (index : UInt16) (p : Pointer) : Arena :=
  { a with
    structs := a.structs.modify struct fun body =>
      { body with pointers := body.pointers.set index.toNat p } }

/-- Writes a word of the data section. -/
def setWord (a : Arena) (struct : Nat) (offset : UInt16) (value : UInt64) : Except Error Arena :=
  if offset.toNat < a.wordCount struct then
    .ok { a with
      structs := a.structs.modify struct fun body =>
        { body with data := body.data.set offset.toNat value } }
  else .error (.dataOutOfBounds offset.toNat)

/-- Adds a capability to the table and points a field to it. -/
def setCapability (a : Arena) (struct : Nat) (index : UInt16) (cap : Capability) :
    Except Error Arena :=
  if index.toNat < a.fieldCount struct then
    let (slot, b) := a.addCapability cap
    .ok (b.putField struct index (.capability slot))
  else .error (.pointerOutOfBounds index.toNat)

/-- Allocates a struct, points a field to it and gives its index. -/
def initStruct (a : Arena) (struct : Nat) (index : UInt16) (size : ObjectSize) :
    Except Error (Nat × Arena) :=
  if index.toNat < a.fieldCount struct then
    (a.newStruct size).map fun (child, b) => (child, b.putField struct index (.struct child))
  else .error (.pointerOutOfBounds index.toNat)

end Arena

/-! ## Writing through a handle to a struct -/

/-- One write through a handle to a struct. -/
inductive StructEdit where
  | setWord (offset : UInt16) (value : UInt64)
  | setCapability (index : UInt16) (cap : Capability)
  | initStruct (index : UInt16) (size : ObjectSize)
  deriving DecidableEq

/-- Carries out one write. It gives the index of the struct that was allocated, if one was. -/
def Arena.edit (a : Arena) (struct : Nat) : StructEdit → Except Error (Option Nat × Arena)
  | .setWord offset value => (a.setWord struct offset value).map fun b => (none, b)
  | .setCapability index cap => (a.setCapability struct index cap).map fun b => (none, b)
  | .initStruct index size =>
      (a.initStruct struct index size).map fun (child, b) => (some child, b)

/-! ## What allocation does to the budget -/

theorem Arena.charge_eq_ok_iff (a b : Arena) (words : Nat) :
    a.charge words = .ok b ↔
      (∀ limit, a.wordLimit = some limit → a.wordsUsed + words ≤ limit) ∧
        b = { a with wordsUsed := a.wordsUsed + words } := by
  unfold Arena.charge
  cases h : a.wordLimit with
  | none => simp [eq_comm]
  | some limit =>
      by_cases fits : a.wordsUsed + words ≤ limit
      · simp [fits, eq_comm]
      · simp [fits]

theorem Arena.charge_eq_error_iff (a : Arena) (words : Nat) (e : Error) :
    a.charge words = .error e ↔
      ∃ limit, a.wordLimit = some limit ∧ limit < a.wordsUsed + words ∧ e = .sizeLimit limit := by
  unfold Arena.charge
  cases a.wordLimit with
  | none => simp
  | some limit =>
      by_cases fits : a.wordsUsed + words ≤ limit
      · simp [fits, Nat.not_lt_of_le fits]
      · simp [fits, Nat.lt_of_not_le fits, eq_comm]

theorem Arena.allocate_eq_ok_iff (a b : Arena) (words : UInt32) :
    a.allocate words = .ok b ↔
      (∀ limit, a.wordLimit = some limit → a.wordsUsed + words.toNat ≤ limit) ∧
        b = { a with wordsUsed := a.wordsUsed + words.toNat } :=
  a.charge_eq_ok_iff b words.toNat

theorem Arena.allocate_eq_error_iff (a : Arena) (words : UInt32) (e : Error) :
    a.allocate words = .error e ↔
      ∃ limit, a.wordLimit = some limit ∧ limit < a.wordsUsed + words.toNat ∧ e = .sizeLimit limit :=
  a.charge_eq_error_iff words.toNat e

end Callee
