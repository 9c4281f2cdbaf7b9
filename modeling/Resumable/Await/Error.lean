import Resumable.Record.Envelope

/-!
# Await errors

Ways in which an await operation ends without the results asked for.
-/

namespace Resumable

/-- Results in the order of the calls; calls that have not reported have none. -/
abbrev Slots := List (Option CallResult)

/-- Causes for which an await operation fails. -/
inductive AwaitError where
  /-- Calls failed; the cause holds every failure seen. -/
  | failed (slots : Slots) (cause : Failure)
  /-- No call was dispatched; the whole operation is to be retried. -/
  | dispatch (slots : Slots) (error : RemoteError)
  /-- The execution lost its driver. -/
  | detached
  /-- The execution was resumed with an input. -/
  | unexpectedRequest
  /-- An output did not unbox into the type asked for. -/
  | decode (index : Nat) (error : CodecError)

namespace AwaitError

/-- The results gathered before the operation stopped. -/
def slots? : AwaitError → Option Slots
  | failed slots _ | dispatch slots _ => some slots
  | detached | unexpectedRequest | decode _ _ => none

/-- The failure under the error. -/
def source? : AwaitError → Option Failure
  | failed _ cause => some cause
  | dispatch _ error => some (.leaf (.remote error))
  | detached => some (.leaf .detached)
  | unexpectedRequest => none
  | decode _ error => some error.toFailure

/-- The name of each cause. -/
def name : AwaitError → String
  | failed _ _ => "Failed"
  | dispatch _ _ => "Dispatch"
  | detached => "Suspend"
  | unexpectedRequest => "UnexpectedRequest"
  | decode _ _ => "Decode"

/-- The wording of each cause. -/
def message : AwaitError → String
  | failed _ cause => "call failed: " ++ cause.display
  | dispatch _ error => "calls were not dispatched: " ++ error.display
  | detached => "suspend error: " ++ Failure.Nature.message .detached
  | unexpectedRequest => "resumed with input instead of poll results"
  | decode index error => s!"cannot decode result {index}: " ++ error.message

/-- The error as a failure over its source. -/
def toFailure (e : AwaitError) : Failure := Failure.ofNature (.await e.message) e.source?

end AwaitError

end Resumable
