set_option autoImplicit false

/-! # Names of things

The numbers and labels by which the parts of a connection refer to each other. Only `AnswerId` and
`ExportId` ever reach the peer; the serial numbers are never reused, so each stands for one thing
over the whole life of a connection. -/

namespace Callee

/-! ## Names shared with the peer -/

/-- The peer's number for one of its calls, and ours for the answer to it. The peer picks it and
    may use it again once the answer is gone. -/
abbrev AnswerId := UInt32

/-- Our number for a capability that the peer may call. It has 32 bits, as far as there are enough of
    them. -/
abbrev ExportId := Nat

/-! ## Serial numbers -/

/-- The serial number of a received call. Unlike its `AnswerId` it is never used twice. -/
abbrev CallId := Nat

/-- The serial number of the storage of one message. -/
abbrev ArenaId := Nat

/-- The serial number of a suspended piece of work. -/
abbrev TaskId := Nat

/-- The serial number of a gate in front of a transmission. -/
abbrev GateId := Nat

/-- A place among the waiters of one delivery count. -/
abbrev Ticket := Nat

/-! ## Labels given from outside -/

/-- The label of a cancellation token. -/
abbrev Token := String

/-- The label of a receiver of pipelined calls. -/
abbrev CallerName := String

end Callee
