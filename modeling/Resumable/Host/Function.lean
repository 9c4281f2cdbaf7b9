import Resumable.Boxed.Forms
import Resumable.Execution.Process

/-!
# Functions

A function is invoked by name with a boxed input and runs as a process that ends in a response. A
typed function unboxes its input, runs its handler and boxes what that returns; a callee is the same
function seen by a caller, who boxes the input and unboxes the output.
-/

namespace Resumable

/-- What a running function knows of its invocation. -/
structure Context where
  function : String
  dispatchId : String
  parentDispatchId : String
  rootDispatchId : String
  /-- Where the calls it builds are addressed. -/
  endpoint : String
  /-- The longest its polls may wait. -/
  maxWait : Span

namespace Context

/-- The context of the execution that a request starts. -/
def ofRequest (request : Request) (endpoint : String) (maxWait : Span) : Context where
  function := request.function
  dispatchId := request.dispatchId
  parentDispatchId := request.parentDispatchId
  rootDispatchId := request.rootDispatchId
  endpoint := endpoint
  maxWait := maxWait

/-- A call of a function at this context's endpoint. -/
def call (ctx : Context) (function : String) (input : Forms) : Except CodecError Call := do
  return { endpoint := ctx.endpoint, function, input := ← input.box }

end Context

/-- A function that a host can start. -/
structure Function (ω : Type) where
  name : String
  run : Context → Boxed → Process ω Response

/-- A function on typed values. -/
structure TypedFunction (ω ι ο : Type) where
  name : String
  input : Target ι
  output : ο → Forms
  handler : Context → ι → Process ω (Except HandlerError ο)

/-- The response in which a handler's answer ends its execution. -/
def TypedFunction.respond {ω ι ο : Type} (f : TypedFunction ω ι ο) :
    Except HandlerError ο → Response
  | .ok value =>
    match (f.output value).box with
    | .ok boxed => .output boxed
    | .error e => .failed e.toFailure
  | .error e => .exit e.toFailure.classify { result := .ofError e.toRemote }

/-- A typed function on boxed values. An input that does not unbox is an invalid argument, and the
handler does not run. -/
def TypedFunction.toFunction {ω ι ο : Type} (f : TypedFunction ω ι ο) : Function ω where
  name := f.name
  run ctx boxed :=
    match boxed.unbox f.input with
    | .error e => .done ((Response.failed e.toFailure).withStatus .invalidArgument)
    | .ok value => do return f.respond (← f.handler ctx value)

/-- A function as its callers see it. -/
structure Callee (ι ο : Type) where
  name : String
  input : ι → Forms
  output : Target ο

namespace Callee

variable {ω ι ο : Type}

/-- A call of the function with an input. -/
def call (f : Callee ι ο) (ctx : Context) (input : ι) : Except CodecError Call :=
  ctx.call f.name (f.input input)

/-- The output that a call reported, or the error. -/
def outputOf (f : Callee ι ο) (slots : Slots) : Except HandlerError ο :=
  match slots.getLast?.join with
  | none => .error (.told ("no result for call of " ++ f.name))
  | some result =>
    match result.error with
    | some e => .error (.ofFailure (.leaf (.remote e)))
    | none =>
      ((result.output.getD .null).unbox f.output).mapError fun e => .ofFailure e.toFailure

/-- Calls the function and awaits its output. -/
def await (f : Callee ι ο) (ctx : Context) (input : ι) : Process ω (Except HandlerError ο) :=
  match f.call ctx input with
  | .error e => .done (.error (.ofFailure e.toFailure))
  | .ok call => do
    match ← Process.awaitAll [call] with
    | .error e => return .error (.ofFailure e.toFailure)
    | .ok slots => return f.outputOf slots

/-- Calls the function once for each input and awaits every output. Every call is built before the
first is handed out. -/
def gather (f : Callee ι ο) (ctx : Context) (inputs : List ι) :
    Process ω (Except HandlerError (List ο)) :=
  match inputs.mapM (f.call ctx) with
  | .error e => .done (.error (.ofFailure e.toFailure))
  | .ok calls => do
    return (← Process.gather f.output calls).mapError fun e => .ofFailure e.toFailure

end Callee

end Resumable
