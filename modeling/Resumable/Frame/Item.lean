import Resumable.Boxed.Codec
import Resumable.Record.Envelope

/-!
# Records as items

Every record is a map of named fields, and a request or a response is a variant that names it around
its map. Absent optional fields are left out. A record has an item unless one of its times or spans
has none.
-/

namespace Resumable

open Wire

/-- Named items, in the order in which they are written. -/
abbrev Fields := List (String × Item)

/-- A field that is left out where it has no value. -/
def Fields.optional {α : Type} (name : String) (value : Option α)
    (toItem : α → Except CodecError Item) : Except CodecError Fields :=
  match value with
  | some a => do return [(name, ← toItem a)]
  | none => .ok []

/-- The item of a boxed value. -/
def Boxed.toItem (boxed : Boxed) : Item :=
  .map [("tag", .u64 boxed.shape.code), ("payload", .bytes boxed.payload)]

/-- The item of a call. -/
def Call.toItem (call : Call) : Except CodecError Item := do
  let expiration ← call.expiration.toItem
  return .map [("endpoint", .string call.endpoint), ("function", .string call.function),
    ("input", call.input.toItem), ("correlation_id", .u64 call.correlationId),
    ("expiration", expiration), ("version", .string call.version)]

/-- The item of a remote error. -/
def RemoteError.toItem (e : RemoteError) : Item :=
  .map ([("kind", .string e.kind), ("message", .string e.message)] ++
    (e.value.map fun value => ("value", .bytes value)).toList ++
    (e.traceback.map fun traceback => ("traceback", .bytes traceback)).toList)

/-- The item of a result. -/
def CallResult.toItem (result : CallResult) : Item :=
  .map ([("correlation_id", .u64 result.correlationId)] ++
    (result.output.map fun output => ("output", output.toItem)).toList ++
    (result.error.map fun error => ("error", error.toItem)).toList ++
    [("dispatch_id", .string result.dispatchId)])

/-- The item of a poll. -/
def Poll.toItem (poll : Poll) : Except CodecError Item := do
  let maxWait ← poll.maxWait.toItem
  let calls ← poll.calls.mapM Call.toItem
  return .map [("min_results", .u64 poll.minResults.toUInt64),
    ("max_results", .u64 poll.maxResults.toUInt64), ("max_wait", maxWait), ("calls", .list calls),
    ("coroutine_state", poll.state.toItem)]

/-- The item of a poll result. -/
def PollResult.toItem (result : PollResult) : Item :=
  .map ([("results", .list (result.results.map CallResult.toItem)),
      ("coroutine_state", result.state.toItem)] ++
    (result.error.map fun error => ("error", error.toItem)).toList)

/-- The item of an exit. -/
def Exit.toItem (exit : Exit) : Except CodecError Item := do
  let tailCall ← Fields.optional "tail_call" exit.tailCall Call.toItem
  return .map ([("result", exit.result.toItem)] ++ tailCall)

/-- The field that says what a request asks for. -/
def Request.Directive.toField : Request.Directive → String × Item
  | .input boxed => ("input", boxed.toItem)
  | .pollResult result => ("poll_result", result.toItem)

/-- The fields of a request. -/
def Request.fields (request : Request) : Except CodecError Fields := do
  let creationTime ← Fields.optional "creation_time" request.creationTime Instant.toItem
  let expirationTime ← Fields.optional "expiration_time" request.expirationTime Instant.toItem
  return [("function", .string request.function), ("dispatch_id", .string request.dispatchId),
    ("parent_dispatch_id", .string request.parentDispatchId),
    ("root_dispatch_id", .string request.rootDispatchId)] ++ creationTime ++ expirationTime ++
    [request.directive.toField]

/-- The field that says what a response asks for. -/
def Response.Directive.toField : Response.Directive → Except CodecError (String × Item)
  | .exit e => do return ("exit", ← e.toItem)
  | .poll p => do return ("poll", ← p.toItem)

/-- The fields of a response. -/
def Response.fields (response : Response) : Except CodecError Fields := do
  return [("status", .u64 response.status.code), ← response.directive.toField]

/-- The bytes of a request frame. -/
def Request.encode (request : Request) : Except CodecError Bytes := do
  CodecError.ofWire (Item.encode [.variant "Request" (.map (← request.fields))])

/-- The bytes of a response frame. -/
def Response.encode (response : Response) : Except CodecError Bytes := do
  CodecError.ofWire (Item.encode [.variant "Response" (.map (← response.fields))])

end Resumable
