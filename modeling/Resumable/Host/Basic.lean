import Resumable.Boxed.Standard
import Resumable.Frame.Reader
import Resumable.Host.Function
import Resumable.Residents

/-!
# The host

A host starts registered functions on requests and keeps their suspended executions resident. An
input starts a new execution; if it suspends, it is entered in the table and its poll carries the
boxed instance id as the state that the orchestrator gives back. A poll result is routed by that id
to its execution, whichever function the request names. An exit retires the execution.
-/

namespace Resumable

/-- Causes for which a host refuses a request. -/
inductive HostError where
  | functionNotFound (name : String)
  | duplicateFunction (name : String)
  | instanceNotFound (id : UInt64)
  /-- The state of a resume request names no instance. -/
  | invalidState (error : CodecError)
  /-- The execution went away while it was driven. -/
  | execution
  deriving DecidableEq, Repr

namespace HostError

/-- The name of each cause. -/
def name : HostError → String
  | functionNotFound _ => "FunctionNotFound"
  | duplicateFunction _ => "DuplicateFunction"
  | instanceNotFound _ => "InstanceNotFound"
  | invalidState _ => "InvalidState"
  | execution => "Execution"

/-- The wording of each cause. -/
def message : HostError → String
  | functionNotFound name => "function not found: " ++ name
  | duplicateFunction name => "function already registered: " ++ name
  | instanceNotFound id => s!"instance not found: {id.toNat}"
  | invalidState error => "invalid coroutine state: " ++ error.message
  | execution => "execution error: " ++ Failure.Nature.message .detached

/-- The failure under the error. -/
def source? : HostError → Option Failure
  | invalidState error => some error.toFailure
  | execution => some (.leaf .detached)
  | functionNotFound _ | duplicateFunction _ | instanceNotFound _ => none

/-- The error as a failure over its source. -/
def toFailure (e : HostError) : Failure := Failure.ofNature (.host e.message) e.source?

/-- The response that refuses a request with a status. -/
def response (e : HostError) (status : Status) : Response := .failed (.explicit status e.toFailure)

end HostError

/-- An execution of a process. -/
abbrev ProcessExecution (ω : Type) := Execution (Process.Waiting ω) (Shared ω)

/-- A host: its functions, the resident executions, and the generator that calls and instances draw
their ids from. -/
structure Host (ω : Type) where
  functions : List (Function ω) := []
  residents : Residents (ProcessExecution ω) := .empty
  ids : Ids
  endpoint : String := ""
  maxWait : Span := Operation.defaultMaxWait

/-- What a request leads to: the response, the notes taken meanwhile, and the host afterwards. -/
structure Host.Outcome (ω : Type) where
  response : Response
  notes : List ω
  host : Host ω

namespace Host

variable {ω : Type}

/-- The function of a name. -/
def lookup (host : Host ω) (name : String) : Except HostError (Function ω) :=
  match host.functions.find? (·.name == name) with
  | some f => .ok f
  | none => .error (.functionNotFound name)

/-- Registers a function under its name, which must be free. -/
def register (host : Host ω) (f : Function ω) : Except HostError (Host ω) :=
  if host.functions.any (·.name == f.name) then .error (.duplicateFunction f.name)
  else .ok { host with functions := host.functions ++ [f] }

/-- The number of suspended executions. -/
def resident (host : Host ω) : Nat := host.residents.size

/-- Terminates every suspended execution. -/
def close (host : Host ω) : Host ω := { host with residents := host.residents.close.2 }

/-- Retires an execution that may be resident. -/
def retire (host : Host ω) : Option UInt64 → Host ω
  | none => host
  | some id => { host with residents := host.residents.erase id }

/-- Keeps a suspended execution: under its id if it has one, and else under a new one. -/
def keep (host : Host ω) (e : ProcessExecution ω) : Option UInt64 → UInt64 × Host ω
  | some id => (id, { host with residents := host.residents.replace id e })
  | none =>
    let (id, residents, ids) := host.residents.register e host.ids
    (id, { host with residents, ids })

/-- Brings the table in step with what an execution replied. -/
def settle (host : Host ω) (e : ProcessExecution ω) (known : Option UInt64) (reply : Reply) :
    Response × Host ω :=
  match reply with
  | .response r =>
    match r.directive with
    | .exit exit => (.exit r.status exit, host.retire known)
    | .poll poll =>
      let (id, kept) := host.keep e known
      match (Value.uint id).encode with
      | .ok state => ((Response.poll (poll.withState state)).withStatus r.status, kept)
      | .error error => (.failed error.toFailure, kept.retire (some id))
  | .detached | .blocked => (HostError.execution.response .temporaryError, host.retire known)

/-- What bodies act on while they run. -/
def shared (host : Host ω) : Shared ω := ⟨host.ids, []⟩

/-- Takes what an execution came to: its reply, and the world it ran in. -/
def conclude (host : Host ω) (known : Option UInt64)
    (step : Reply × ProcessExecution ω × Shared ω) : Outcome ω :=
  let (reply, e, w) := step
  let (response, host) := { host with ids := w.ids }.settle e known reply
  ⟨response, w.notes, host⟩

/-- The execution in which a function runs on an input. -/
def spawn (host : Host ω) (f : Function ω) (request : Request) (input : Boxed) :
    ProcessExecution ω :=
  .spawn (Process.body host.maxWait
    (f.run (.ofRequest request host.endpoint host.maxWait) input))

/-- Starts a function. -/
def start (host : Host ω) (f : Function ω) (request : Request) (input : Boxed) : Outcome ω :=
  host.conclude none ((host.spawn f request input).next host.shared)

/-- Refuses a request, which changes nothing. -/
def refuse (host : Host ω) (status : Status) (e : HostError) : Outcome ω :=
  ⟨e.response status, [], host⟩

/-- The type of the integers that are instance ids. -/
def idType : Number.IntegerType := ⟨false, .w64⟩

/-- The instance id in the state of a resume request. -/
def instanceId (state : Boxed) : Except CodecError UInt64 :=
  (state.unbox (Target.integer idType)).map fun n => UInt64.ofNat n.val.toNat

/-- Resumes the execution that a poll result is for. -/
def resume (host : Host ω) (request : Request) (result : PollResult) : Outcome ω :=
  match instanceId result.state with
  | .error e => host.refuse .incompatibleState (.invalidState e)
  | .ok id =>
    match host.residents.find? id with
    | none => host.refuse .incompatibleState (.instanceNotFound id)
    | some e => host.conclude (some id) (e.resume request host.shared)

/-- Handles a request. -/
def run (host : Host ω) (request : Request) : Outcome ω :=
  match host.lookup request.function with
  | .error e => host.refuse .notFound e
  | .ok f =>
    match request.directive with
    | .input input => host.start f request input
    | .pollResult result => host.resume request result

/-- Handles a request frame; a frame that does not decode changes nothing. The notes and the host
come with the answer. -/
def runFrame (host : Host ω) (frame : Bytes) : Except CodecError Bytes × List ω × Host ω :=
  match Request.decode frame with
  | .error e => (.error e, [], host)
  | .ok request =>
    let outcome := host.run request
    (outcome.response.encode, outcome.notes, outcome.host)

end Host

end Resumable
