set_option autoImplicit false

/-! # Capabilities

A value of type `Capability` is one owned reference. Two references are to the same capability when
their identities agree; from which object a reference was minted does not matter for that, and is
kept so that the references to each object can be counted. -/

namespace Callee

/-- One reference to a capability. -/
structure Capability where
  /-- The object that the reference was minted from. -/
  source : String
  /-- The same for every reference to one capability. -/
  identity : UInt64
  deriving DecidableEq

end Callee
