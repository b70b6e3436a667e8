import Callee.Answer
import Callee.Text.Quoted

set_option autoImplicit false

/-! # Descriptions

How the values of this library show themselves to a developer: the name of the value, and its parts
between braces or parentheses. -/

namespace Callee

open Text

/-- The parts of a value between braces. -/
def braced (name : String) (parts : List String) : String :=
  name ++ " \x7b " ++ ", ".intercalate parts ++ " \x7d"

/-- A capability shows its identity in hexadecimal. -/
def Capability.description (cap : Capability) : String :=
  "Client(0x" ++ hexDigits cap.identity.toNat ++ ")"

/-- An error shows its kind and its quoted detail. -/
def Error.description (e : Error) : String :=
  braced "Error" ["kind: " ++ e.kind.name, "extra: " ++ quoted e.detail]

/-- A handle shows the id of its answer. -/
def Handle.description (h : Handle) : String :=
  braced "AnswerHandle" [s!"id: {h.id}"]

/-- An admission shows whether it succeeded, and what it came to. -/
def Admission.description : Admission → String
  | .created h => "Ok(" ++ h.description ++ ")"
  | .duplicate e => "Err(Duplicate(" ++ e.description ++ "))"
  | .unsendable h e =>
      "Err(" ++ braced "Unsendable" ["answer: " ++ h.description, "error: " ++ e.description] ++ ")"

end Callee
