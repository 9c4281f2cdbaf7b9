import Resumable.Failure.Remote
import Resumable.Record.Call

/-!
# Requests and responses

A request starts an execution with an input or resumes one with results; a response suspends it with
a poll or ends it with an exit. A poll asks for calls to be dispatched and for the execution to be
woken once enough results are there; what it is woken with is a poll result.
-/

namespace Resumable

/-- Dispatch these calls, and wake the execution when at least `minResults` results are there, with
at most `maxResults` of them, or after `maxWait`. -/
structure Poll where
  minResults : UInt32 := 0
  maxResults : UInt32 := 0
  maxWait : Span := .zero
  calls : List Call := []
  /-- Kept by the orchestrator and given back when the execution is resumed. -/
  state : Boxed := .null
  deriving DecidableEq, Repr, Inhabited

/-- What a suspended execution is resumed with. An error means that no call was dispatched. -/
structure PollResult where
  results : List CallResult := []
  state : Boxed := .null
  error : Option RemoteError := none
  deriving DecidableEq, Repr, Inhabited

namespace Poll

/-- The poll with other calls. -/
def withCalls (poll : Poll) (calls : List Call) : Poll := { poll with calls := calls }

/-- The poll with another state. -/
def withState (poll : Poll) (state : Boxed) : Poll := { poll with state := state }

end Poll

namespace PollResult

/-- The poll result with other results. -/
def withResults (r : PollResult) (results : List CallResult) : PollResult :=
  { r with results := results }

/-- The poll result with an error. -/
def withError (r : PollResult) (error : RemoteError) : PollResult := { r with error := some error }

end PollResult

/-- What a request asks for. -/
inductive Request.Directive where
  /-- Start with this input. -/
  | input (input : Boxed)
  /-- Resume with these results. -/
  | pollResult (result : PollResult)
  deriving DecidableEq, Repr

/-- A request of the orchestrator. -/
structure Request where
  function : String
  directive : Request.Directive
  dispatchId : String := ""
  parentDispatchId : String := ""
  rootDispatchId : String := ""
  creationTime : Option Instant := none
  expirationTime : Option Instant := none
  deriving DecidableEq, Repr

/-- The end of an execution: its result, and a call to go on with, if any. -/
structure Exit where
  result : CallResult := {}
  tailCall : Option Call := none
  deriving DecidableEq, Repr, Inhabited

/-- The exit with a call to go on with. -/
def Exit.withTailCall (exit : Exit) (call : Call) : Exit := { exit with tailCall := some call }

/-- What a response asks for. -/
inductive Response.Directive where
  /-- The execution has ended. -/
  | exit (exit : Exit)
  /-- The execution is suspended. -/
  | poll (poll : Poll)
  deriving DecidableEq, Repr

/-- A response to the orchestrator. -/
structure Response where
  status : Status
  directive : Response.Directive
  deriving DecidableEq, Repr

namespace Response

/-- Ends with an exit. -/
def exit (status : Status) (exit : Exit) : Response := ⟨status, .exit exit⟩

/-- Suspends with a poll. -/
def poll (poll : Poll) : Response := ⟨.ok, .poll poll⟩

/-- Ends well with an output. -/
def output (output : Boxed) : Response := exit .ok { result := .ofOutput output }

/-- Ends with a failure and its status. -/
def failed (f : Failure) : Response := exit f.classify { result := .ofError f.toRemote }

/-- The response with another status. -/
def withStatus (r : Response) (status : Status) : Response := { r with status := status }

/-- The exit, if the response is one. -/
def exit? (r : Response) : Option Exit :=
  match r.directive with
  | .exit exit => some exit
  | .poll _ => none

/-- The poll, if the response is one. -/
def poll? (r : Response) : Option Poll :=
  match r.directive with
  | .exit _ => none
  | .poll poll => some poll

/-- Whether the response ends the execution. -/
def isExit (r : Response) : Bool := r.exit?.isSome

end Response

end Resumable
