import Callee.Script.Result

set_option autoImplicit false

/-! # Capabilities and structs by name

What every script can hold: references to capabilities, and handles to structs. Writing into a struct
is left to whoever owns the messages, so a step here may end in a request to do so. -/

namespace Callee.Script

/-- The references and handles that a script holds by name. -/
structure Holdings where
  caps : Table String Capability := .empty
  /-- The first reference to each capability that the script made, in order. -/
  made : List Capability := []
  structs : Table String StructRef := .empty

/-- A step on a capability or a struct. -/
inductive ItemStep where
  | newCap (name : String) (identity : UInt64)
  | dropCap (name : String)
  | describeCap (name : String)
  | setWord (struct : String) (offset : UInt16) (value : UInt64)
  | word (struct : String) (offset : UInt16)
  | field (struct : String) (index : UInt16)
  | setCap (struct : String) (index : UInt16) (cap : String) (move : Bool)
  | initStruct (struct : String) (index : UInt16) (size : ObjectSize) (keep : Option String)
  | dropStruct (struct : String)
  deriving DecidableEq

/-- How far a step comes without writing into a message. -/
inductive ItemOutcome where
  | ended (result : Result) (holdings : Holdings)
  /-- Something is to be written through a handle, and a new handle to be kept under a name. -/
  | write (ref : StructRef) (change : StructEdit) (keep : Option String) (holdings : Holdings)

namespace Holdings

/-! ## Taking and keeping -/

/-- The reference under a name, to be passed on: a new one to the same capability, or the script's
    own, which it then no longer holds. -/
def give (h : Holdings) (name : String) (move : Bool) : Option (Capability × Holdings) :=
  (h.caps.get? name).map fun cap =>
    (cap, if move then { h with caps := h.caps.erase name } else h)

/-- Keeps a reference, if there is a name for it. -/
def keepCap (h : Holdings) (name : Option String) (cap : Capability) : Holdings :=
  match name with
  | some name => { h with caps := h.caps.insert name cap }
  | none => h

/-- Keeps a handle to a struct, if there is a name for it. -/
def keepStruct (h : Holdings) (name : Option String) (ref : StructRef) : Holdings :=
  match name with
  | some name => { h with structs := h.structs.insert name ref }
  | none => h

/-! ## Steps -/

/-- Carries out a step as far as it goes without writing into a message. -/
def step (h : Holdings) (messages : MessageStore) : ItemStep → ItemOutcome
  | .newCap name identity =>
      if h.made.any fun cap => cap.source = name then .ended .skipped h
      else
        let cap : Capability := { source := name, identity := identity }
        .ended .done { h with caps := h.caps.insert name cap, made := h.made ++ [cap] }
  | .dropCap name =>
      if h.caps.contains name then .ended .done { h with caps := h.caps.erase name }
      else .ended .skipped h
  | .describeCap name =>
      match h.caps.get? name with
      | some cap => .ended (.text cap.description) h
      | none => .ended .skipped h
  | .setWord struct offset value =>
      match h.structs.get? struct with
      | some ref => .write ref (.setWord offset value) none h
      | none => .ended .skipped h
  | .word struct offset =>
      match h.structs.get? struct with
      | some ref => .ended (.word ((messages.arena ref.arena).word ref.index offset)) h
      | none => .ended .skipped h
  | .field struct index =>
      match h.structs.get? struct with
      | some ref => .ended (.pointer ((messages.arena ref.arena).field ref.index index)) h
      | none => .ended .skipped h
  | .setCap struct index cap move =>
      match h.structs.get? struct, h.give cap move with
      | some ref, some (cap, h) => .write ref (.setCapability index cap) none h
      | _, _ => .ended .skipped h
  | .initStruct struct index size keep =>
      match h.structs.get? struct with
      | some ref => .write ref (.initStruct index size) keep h
      | none => .ended .skipped h
  | .dropStruct struct =>
      if h.structs.contains struct then .ended .done { h with structs := h.structs.erase struct }
      else .ended .skipped h

/-- Ends a step that wrote into a message. -/
def afterWrite (h : Holdings) (keep : Option String) :
    Except Error (Option StructRef) → Result × Holdings
  | .error e => (.failed e, h)
  | .ok none => (.done, h)
  | .ok (some child) => (.pointer (.struct child.index), h.keepStruct keep child)

/-! ## Counting references -/

/-- The arenas that handles refer to. -/
def arenas (h : Holdings) : List ArenaId :=
  h.structs.values.map (·.arena)

/-- The references to each capability that the script made: those that the script holds, those in the
    arenas that something refers to, and others that are held elsewhere. -/
def live (h : Holdings) (messages : MessageStore) (arenas : List ArenaId)
    (others : List Capability) : List (String × Nat) :=
  let held := h.caps.values ++ others ++
    (h.arenas ++ arenas).eraseDups.flatMap fun arena => (messages.arena arena).caps.filterMap id
  h.made.map fun cap => (cap.source, held.countP fun other => other.source = cap.source)

end Holdings

end Callee.Script
