import Resumable.Frame.Item

/-!
# Reading frames

A record is read by folding the entries of its map, in the order in which they arrive: a known field
replaces what an earlier one of its name gave, lists of calls and of results grow, an unknown field is
skipped. Required fields are asked for once the map is read. Only the frame itself has to end where
its bytes end; what follows an item inside a variant or a list window is not looked at.
-/

namespace Resumable

open Wire

namespace Frame

/-- A reader of a record or a field off a window. -/
abbrev Reader (α : Type) := Bytes → Except CodecError α

/-- A wire read as a reader of a window. -/
def reader {α : Type} (read : Read α) : Reader α := fun bs => CodecError.ofWire (read.eval bs)

/-- Folds the entries of the map at the front of a window. -/
def foldMap {σ : Type} (start : σ) (step : σ → String → Bytes → Except CodecError σ) :
    Reader σ := fun bs => do
  let (fields, failure) := Cursor.entries (← reader Cursor.map bs)
  let s ← fields.foldlM (fun s field => step s field.1 field.2) start
  CodecError.unlessFailed failure s

/-- Reads every item of the list at the front of a window. -/
def readList {α : Type} (item : Reader α) : Reader (List α) := fun bs => do
  let (windows, failure) := Cursor.items (← reader Cursor.list bs)
  let items ← windows.mapM item
  CodecError.unlessFailed failure items

/-- Passes over a field of an unknown name, whose item still has to be well formed. -/
def skipping {σ : Type} (s : σ) (bs : Bytes) : Except CodecError σ := do
  reader Cursor.skip bs
  return s

/-- A field that has to be there. -/
def required {α : Type} (name : String) : Option α → Except CodecError α
  | some a => .ok a
  | none => .error (.protocolViolation (.missing name))

/-- Reads a point in time. -/
def readInstant : Reader Instant := fun bs => do
  let (secs, nanos) ← reader Cursor.timestamp bs
  Instant.ofParts secs nanos

/-- Reads a span, which may not be negative. -/
def readSpan : Reader Span := fun bs => do
  let (secs, nanos) ← reader Cursor.duration bs
  match Span.ofParts? secs nanos with
  | some d => return d
  | none => throw (.protocolViolation (.negativeSpan secs.toInt nanos.toInt))

/-- Reads a count of 32 bits. -/
def readCount (name : String) : Reader UInt32 := fun bs => do
  let n ← reader Cursor.u64 bs
  if n.toNat < 0x100000000 then return n.toUInt32
  else throw (.protocolViolation (.countOutOfRange name n.toNat))

/-- Reads a shape by its code. -/
def readShape : Reader Shape := fun bs => do
  let code ← reader Cursor.u64 bs
  match Shape.ofCode? code with
  | some shape => return shape
  | none => throw (.unknownVariant (.shapeCode code.toNat))

/-- The fields of a boxed value, as far as they are read. -/
structure BoxedFields where
  shape : Option Shape := none
  payload : Option Bytes := none

/-- Reads a boxed value; both its fields are required. -/
def readBoxed : Reader Boxed := fun bs => do
  let fields ← foldMap {} (fun (fields : BoxedFields) name value => do
    match name with
    | "tag" => return { fields with shape := some (← readShape value) }
    | "payload" => return { fields with payload := some (← reader Cursor.bytes value) }
    | _ => skipping fields value) bs
  return ⟨← required "tag" fields.shape, ← required "payload" fields.payload⟩

/-- The fields of a call, as far as they are read: the required one, and the call of the others. -/
structure CallFields where
  function : Option String := none
  call : Call := {}

/-- Reads a call, whose function is required. -/
def readCall : Reader Call := fun bs => do
  let fields ← foldMap {} (fun (fields : CallFields) name value => do
    let call := fields.call
    match name with
    | "endpoint" =>
      return { fields with call := { call with endpoint := ← reader Cursor.string value } }
    | "function" => return { fields with function := some (← reader Cursor.string value) }
    | "input" => return { fields with call := { call with input := ← readBoxed value } }
    | "correlation_id" =>
      return { fields with call := { call with correlationId := ← reader Cursor.u64 value } }
    | "expiration" => return { fields with call := { call with expiration := ← readSpan value } }
    | "version" =>
      return { fields with call := { call with version := ← reader Cursor.string value } }
    | _ => skipping fields value) bs
  return { fields.call with function := ← required "call function" fields.function }

/-- Reads a remote error. -/
def readRemoteError : Reader RemoteError :=
  foldMap {} fun e name value => do
    match name with
    | "kind" => return { e with kind := ← reader Cursor.string value }
    | "message" => return { e with message := ← reader Cursor.string value }
    | "value" => return { e with value := some (← reader Cursor.bytes value) }
    | "traceback" => return { e with traceback := some (← reader Cursor.bytes value) }
    | _ => skipping e value

/-- Reads a result. -/
def readCallResult : Reader CallResult :=
  foldMap {} fun result name value => do
    match name with
    | "correlation_id" => return { result with correlationId := ← reader Cursor.u64 value }
    | "output" => return { result with output := some (← readBoxed value) }
    | "error" => return { result with error := some (← readRemoteError value) }
    | "dispatch_id" => return { result with dispatchId := ← reader Cursor.string value }
    | _ => skipping result value

/-- The fields of a poll, as far as they are read: the required ones, and the poll of the others. -/
structure PollFields where
  minResults : Option UInt32 := none
  maxResults : Option UInt32 := none
  maxWait : Option Span := none
  poll : Poll := {}

/-- Reads a poll; its counts and its wait are required. -/
def readPoll : Reader Poll := fun bs => do
  let fields ← foldMap {} (fun (fields : PollFields) name value => do
    let poll := fields.poll
    match name with
    | "min_results" => return { fields with minResults := some (← readCount "min_results" value) }
    | "max_results" => return { fields with maxResults := some (← readCount "max_results" value) }
    | "max_wait" => return { fields with maxWait := some (← readSpan value) }
    | "calls" =>
      return { fields with poll := poll.withCalls (poll.calls ++ (← readList readCall value)) }
    | "coroutine_state" => return { fields with poll := poll.withState (← readBoxed value) }
    | _ => skipping fields value) bs
  return { fields.poll with
    minResults := ← required "min_results" fields.minResults
    maxResults := ← required "max_results" fields.maxResults
    maxWait := ← required "max_wait" fields.maxWait }

/-- Reads a poll result. -/
def readPollResult : Reader PollResult :=
  foldMap {} fun result name value => do
    match name with
    | "results" =>
      return { result with results := result.results ++ (← readList readCallResult value) }
    | "coroutine_state" => return { result with state := ← readBoxed value }
    | "error" => return { result with error := some (← readRemoteError value) }
    | _ => skipping result value

/-- The fields of an exit, as far as they are read. -/
structure ExitFields where
  result : Option CallResult := none
  tailCall : Option Call := none

/-- Reads an exit, whose result is required. -/
def readExit : Reader Exit := fun bs => do
  let fields ← foldMap {} (fun (fields : ExitFields) name value => do
    match name with
    | "result" => return { fields with result := some (← readCallResult value) }
    | "tail_call" => return { fields with tailCall := some (← readCall value) }
    | _ => skipping fields value) bs
  return { result := ← required "exit result" fields.result, tailCall := fields.tailCall }

/-- The body of the one variant that some bytes have to be, with the bytes behind it. -/
def envelope (expected : String) (bs : Bytes) : Except CodecError (Bytes × Bytes) := do
  let ((name, body), rest) ← CodecError.reading Cursor.variant bs
  if name = expected then return (body, rest)
  else throw (.unknownVariant (.frame expected name))

/-- A frame ends where its bytes end. -/
def ended (rest : Bytes) : Except CodecError Unit :=
  if rest.isEmpty then .ok () else .error (.protocolViolation (.trailingFrame rest.length))

/-- The fields of a request, as far as they are read. -/
structure RequestFields where
  function : Option String := none
  directive : Option Request.Directive := none
  dispatchId : String := ""
  parentDispatchId : String := ""
  rootDispatchId : String := ""
  creationTime : Option Instant := none
  expirationTime : Option Instant := none

/-- Reads the fields of a request; of its directives the last one stands. -/
def readRequestFields : Reader RequestFields :=
  foldMap {} fun fields name value => do
    match name with
    | "function" => return { fields with function := some (← reader Cursor.string value) }
    | "dispatch_id" => return { fields with dispatchId := ← reader Cursor.string value }
    | "parent_dispatch_id" =>
      return { fields with parentDispatchId := ← reader Cursor.string value }
    | "root_dispatch_id" => return { fields with rootDispatchId := ← reader Cursor.string value }
    | "creation_time" => return { fields with creationTime := some (← readInstant value) }
    | "expiration_time" => return { fields with expirationTime := some (← readInstant value) }
    | "input" => return { fields with directive := some (.input (← readBoxed value)) }
    | "poll_result" =>
      return { fields with directive := some (.pollResult (← readPollResult value)) }
    | _ => skipping fields value

/-- The fields of a response, as far as they are read. -/
structure ResponseFields where
  status : Option Status := none
  directive : Option Response.Directive := none

/-- Reads the fields of a response; of its directives the last one stands. -/
def readResponseFields : Reader ResponseFields :=
  foldMap {} fun fields name value => do
    match name with
    | "status" =>
      return { fields with status := some (Status.ofCode (← reader Cursor.u64 value)) }
    | "exit" => return { fields with directive := some (.exit (← readExit value)) }
    | "poll" => return { fields with directive := some (.poll (← readPoll value)) }
    | _ => skipping fields value

end Frame

open Resumable.Frame

/-- The request of a frame. -/
def Request.decode (bs : Bytes) : Except CodecError Request := do
  let (body, rest) ← envelope "Request" bs
  let fields ← readRequestFields body
  ended rest
  let function ← required "function" fields.function
  let directive ← required "directive" fields.directive
  return {
    function, directive
    dispatchId := fields.dispatchId
    parentDispatchId := fields.parentDispatchId
    rootDispatchId := fields.rootDispatchId
    creationTime := fields.creationTime
    expirationTime := fields.expirationTime }

/-- The response of a frame. -/
def Response.decode (bs : Bytes) : Except CodecError Response := do
  let (body, rest) ← envelope "Response" bs
  let fields ← readResponseFields body
  ended rest
  let status ← required "status" fields.status
  let directive ← required "directive" fields.directive
  return { status, directive }

end Resumable
