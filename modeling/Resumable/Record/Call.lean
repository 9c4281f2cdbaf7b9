import Resumable.Failure.Basic

/-!
# Calls and their results

A call is one outbound invocation, a result what the remote side reports for it. Amendments give a
changed copy. A result may hold an output and an error at once; the error alone makes it a failure.
-/

namespace Resumable

/-- One outbound invocation. -/
structure Call where
  endpoint : String := ""
  function : String := ""
  input : Boxed := .null
  correlationId : UInt64 := 0
  /-- Zero leaves it to the remote side. -/
  expiration : Span := .zero
  version : String := ""
  deriving DecidableEq, Repr, Inhabited

/-- A change of one field of a call. -/
inductive Call.Amendment where
  | correlationId (id : UInt64)
  | expiration (span : Span)
  | version (version : String)
  | endpoint (endpoint : String)
  deriving DecidableEq, Repr

namespace Call

/-- The call with one field changed. -/
def amend (call : Call) : Amendment → Call
  | .correlationId id => { call with correlationId := id }
  | .expiration span => { call with expiration := span }
  | .version version => { call with version := version }
  | .endpoint endpoint => { call with endpoint := endpoint }

/-- The call with fields changed in order. -/
def amended (call : Call) (amendments : List Amendment) : Call := amendments.foldl amend call

end Call

/-- The outcome of one call. -/
structure CallResult where
  correlationId : UInt64 := 0
  output : Option Boxed := none
  error : Option RemoteError := none
  dispatchId : String := ""
  deriving DecidableEq, Repr, Inhabited

/-- A change of one field of a result. -/
inductive CallResult.Amendment where
  | output (output : Boxed)
  | error (error : RemoteError)
  | dispatchId (id : String)
  | correlationId (id : UInt64)
  deriving DecidableEq, Repr

namespace CallResult

/-- A result with an output. -/
def ofOutput (output : Boxed) : CallResult := { output := some output }

/-- A result with an error. -/
def ofError (error : RemoteError) : CallResult := { error := some error }

/-- The result with one field changed. -/
def amend (result : CallResult) : Amendment → CallResult
  | .output output => { result with output := some output }
  | .error error => { result with error := some error }
  | .dispatchId id => { result with dispatchId := id }
  | .correlationId id => { result with correlationId := id }

/-- The result with fields changed in order. -/
def amended (result : CallResult) (amendments : List Amendment) : CallResult :=
  amendments.foldl amend result

/-- Whether the call failed. -/
def isFailure (result : CallResult) : Bool := result.error.isSome

end CallResult

end Resumable
