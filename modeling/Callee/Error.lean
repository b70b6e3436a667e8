import Callee.Names

set_option autoImplicit false

/-! # Errors

An error is its cause. Each cause has a kind, a detail, and the text `message` that a report, a log
line or an exception shows: the text of the kind alone when there is no detail, and the two joined
by a colon otherwise. An error that was met while doing something else keeps the whole text of the
first one inside its own. -/

namespace Callee

/-! ## Kinds -/

/-- What sort of thing went wrong. -/
inductive ErrorKind where
  | failed
  | overloaded
  | disconnected
  | unimplemented
  | bufferNotLargeEnough
  | emptyBuffer
  | emptySlice
  | fieldNotFound
  | messageSizeOverflow
  | nestingLimitExceeded
  | notAStruct
  | prematureEndOfFile
  | readLimitExceeded
  | typeMismatch
  | unknownPointerType
  deriving DecidableEq

namespace ErrorKind

/-- The identifier of a kind. -/
def name : ErrorKind → String
  | failed => "Failed"
  | overloaded => "Overloaded"
  | disconnected => "Disconnected"
  | unimplemented => "Unimplemented"
  | bufferNotLargeEnough => "BufferNotLargeEnough"
  | emptyBuffer => "EmptyBuffer"
  | emptySlice => "EmptySlice"
  | fieldNotFound => "FieldNotFound"
  | messageSizeOverflow => "MessageSizeOverflow"
  | nestingLimitExceeded => "NestingLimitExceeded"
  | notAStruct => "NotAStruct"
  | prematureEndOfFile => "PrematureEndOfFile"
  | readLimitExceeded => "ReadLimitExceeded"
  | typeMismatch => "TypeMismatch"
  | unknownPointerType => "UnknownPointerType"

/-- The words in which a kind is shown to people. -/
def text : ErrorKind → String
  | failed => "Failed"
  | overloaded => "Overloaded"
  | disconnected => "Disconnected"
  | unimplemented => "Unimplemented"
  | bufferNotLargeEnough => "buffer is not large enough"
  | emptyBuffer => "empty buffer"
  | emptySlice => "empty slice"
  | fieldNotFound => "field not found"
  | messageSizeOverflow => "Message's size cannot be represented in usize"
  | nestingLimitExceeded => "nesting limit exceeded"
  | notAStruct => "not a struct"
  | prematureEndOfFile => "Premature end of file"
  | readLimitExceeded => "Read limit exceeded"
  | typeMismatch => "type mismatch"
  | unknownPointerType => "Unknown pointer type."

end ErrorKind

/-! ## Causes -/

/-- Why something failed. -/
inductive Error where
  /-- Handed in from outside, by the transport or as the outcome of a call. -/
  | external (kind : ErrorKind) (detail : String)
  /-- A call came with an id whose answer is still live. -/
  | idReused (id : AnswerId)
  /-- Results are set on an answer that is already complete. -/
  | alreadyReturned (id : AnswerId)
  /-- Results are set on an answer for which no message could be reserved. -/
  | noReturnMessage (id : AnswerId)
  /-- Results are set on an answer that is gone. -/
  | answerGone (id : AnswerId)
  /-- A call completes whose answer is gone. -/
  | returnWithoutAnswer (id : AnswerId)
  /-- A call completes for which no message could be reserved. -/
  | nothingToSend (id : AnswerId)
  /-- The executor gave up on the call. -/
  | callCanceled
  /-- The executor gave up on a call that the peer still waits for. -/
  | droppedUnreturned (id : AnswerId)
  /-- A pipelined call came before there is anywhere to send it. -/
  | notReady (id : AnswerId)
  /-- A pipelined call addresses an answer that completed without results. -/
  | noResults (id : AnswerId)
  /-- A pipelined call addresses an id without an answer. -/
  | noSuchAnswer (id : AnswerId)
  /-- The peer finishes an id without an answer. -/
  | unknownQuestion (id : AnswerId)
  /-- References were given back that nobody held. -/
  | invalidExports (ids : List ExportId)
  /-- A message would outgrow its limit. -/
  | sizeLimit (words : Nat)
  /-- The message is empty or an abort. -/
  | notAReturn
  /-- The return is empty or holds an exception. -/
  | notResults
  /-- The return is empty or holds results. -/
  | notAnException
  /-- A word outside the data section is written. -/
  | dataOutOfBounds (offset : Nat)
  /-- A field outside the pointer section is written. -/
  | pointerOutOfBounds (index : Nat)
  /-- A path goes on where a capability stands. -/
  | throughCapability
  /-- A path goes on into a struct that was never allocated. -/
  | missingStruct (index : Nat)
  /-- A path ends at a capability that was never added. -/
  | emptySlot (index : Nat)
  /-- A path ends nowhere. -/
  | nullTarget
  /-- A path ends at a struct. -/
  | structTarget
  /-- While the return message of a new call was set up. -/
  | creatingReturn (cause : Error)
  /-- While room for results was made. -/
  | allocatingResults (cause : Error)
  /-- While a single capability was made the results. -/
  | allocatingBootstrap (cause : Error)
  /-- While results were written out or sent. -/
  | sendingReturn (cause : Error)
  /-- While an exception was written out. -/
  | sendingException (cause : Error)
  deriving DecidableEq

namespace Error

/-- Every cause of our own is a plain failure. -/
def kind : Error → ErrorKind
  | external k _ => k
  | _ => .failed

/-- The text of a kind with its detail behind it, if there is one. -/
def textOf (kind : ErrorKind) (detail : String) : String :=
  if detail = "" then kind.text else kind.text ++ ": " ++ detail

/-- A list of ids as it stands in an error. -/
def idList (ids : List ExportId) : String :=
  "[" ++ ", ".intercalate (ids.map toString) ++ "]"

/-- What is said about a cause beside its kind. -/
def detail : Error → String
  | external _ d => d
  | idReused id => s!"answer ID {id} reused"
  | alreadyReturned id => s!"results for answer {id} have already been returned"
  | noReturnMessage id => s!"answer {id} has no return message"
  | answerGone id => s!"answer {id} is not in the answer table"
  | returnWithoutAnswer id => s!"Return for answer {id} that is no longer in the answer table"
  | nothingToSend id => s!"answer {id} has no return message to send"
  | callCanceled => "Call canceled."
  | droppedUnreturned id => s!"answer {id} dropped without a return"
  | notReady id => s!"answer {id} is not ready to accept pipelined calls"
  | noResults id => s!"answer {id} returned no results"
  | noSuchAnswer id =>
      s!"Pipeline call on answer {id}, which returned no capabilities or was already closed."
  | unknownQuestion id => s!"Invalid question ID {id} in Finish message."
  | invalidExports ids => s!"Tried to release invalid export IDs {idList ids}."
  | sizeLimit words => s!"message exceeds its size limit of {words} words"
  | notAReturn => "message is not a Return"
  | notResults => "Return does not hold results"
  | notAnException => "Return does not hold an exception"
  | dataOutOfBounds offset => s!"data offset {offset} is out of bounds"
  | pointerOutOfBounds index => s!"pointer index {index} is out of bounds"
  | throughCapability => "Pipelined call traverses a capability pointer."
  | missingStruct index => s!"Pipelined call traverses missing struct {index}."
  | emptySlot index => s!"Pipelined call refers to empty capability table slot {index}."
  | nullTarget => "Pipelined call on a null pointer."
  | structTarget => "Pipelined call target is a struct, not a capability."
  | creatingReturn e => "create return: " ++ textOf e.kind e.detail
  | allocatingResults e => "alloc results: " ++ textOf e.kind e.detail
  | allocatingBootstrap e => "alloc bootstrap results: " ++ textOf e.kind e.detail
  | sendingReturn e => "send return: " ++ textOf e.kind e.detail
  | sendingException e => "send exception: " ++ textOf e.kind e.detail

/-- The whole text of an error. -/
def message (e : Error) : String :=
  textOf e.kind e.detail

end Error

end Callee
