import Callee.Message.Arena

set_option autoImplicit false

/-! # Paths through results

A pipelined call names its target by a path from the content of the results. `Arena.resolve` follows
it. A path that meets a null pointer stays null, so it fails only at its end; one that meets a
capability before its end fails there. -/

namespace Callee

/-- One step of a path. -/
inductive PathStep where
  /-- Stays where it is. -/
  | stay
  /-- Goes on to a pointer field. -/
  | field (index : UInt16)
  deriving DecidableEq

namespace Arena

/-- Where one step leads. -/
def follow (a : Arena) (p : Pointer) : PathStep → Except Error Pointer
  | .stay => .ok p
  | .field index =>
      match p with
      | .null => .ok .null
      | .struct s => if s < a.structs.length then .ok (a.field s index) else .error (.missingStruct s)
      | .capability _ => .error .throughCapability

/-- Where a path leads. -/
def walk (a : Arena) (p : Pointer) : List PathStep → Except Error Pointer
  | [] => .ok p
  | step :: rest =>
      match a.follow p step with
      | .ok q => a.walk q rest
      | .error e => .error e

/-- The capability that a pointer stands for. -/
def target (a : Arena) : Pointer → Except Error Capability
  | .null => .error .nullTarget
  | .struct _ => .error .structTarget
  | .capability index =>
      match a.capability? index with
      | some cap => .ok cap
      | none => .error (.emptySlot index)

/-- The capability at the end of a path. -/
def resolve (a : Arena) (content : Pointer) (path : List PathStep) : Except Error Capability :=
  match a.walk content path with
  | .ok p => a.target p
  | .error e => .error e

/-! ## Walking -/

@[simp] theorem walk_nil (a : Arena) (p : Pointer) : a.walk p [] = .ok p := rfl

@[simp] theorem walk_stay (a : Arena) (p : Pointer) (rest : List PathStep) :
    a.walk p (.stay :: rest) = a.walk p rest := rfl

theorem walk_null (a : Arena) (path : List PathStep) : a.walk .null path = .ok .null := by
  induction path with
  | nil => rfl
  | cons step rest ih => cases step <;> exact ih

end Arena

end Callee
