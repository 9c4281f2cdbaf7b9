import Resumable.Await.Error
import Resumable.Boxed.Target
import Resumable.Ids

/-!
# Await operations

An operation hands out calls once, each under a fresh id, and then waits for their results. Results
are matched to calls by id alone, whatever their order and however they are split over the answers;
a result whose id is not pending belongs to another operation and is dropped. A batch of results is
recorded as a whole before it is decided whether the operation is done.
-/

namespace Resumable

/-- When an operation is done. -/
inductive Strategy where
  /-- When every call has succeeded, or at the first failure. -/
  | all
  /-- At the first success, or when every call has failed. -/
  | any
  deriving DecidableEq, Repr

/-- An operation under way: the ids that are pending with the slots of their calls, the results so
far, and the calls that are still to be handed out. -/
structure Operation where
  strategy : Strategy
  maxWait : Span
  pending : List (UInt64 × Nat)
  slots : Slots
  outgoing : List Call

namespace Operation

/-- The longest a poll may wait where nothing else is said. -/
def defaultMaxWait : Span := .ofSecs 300

/-- Starts an operation: an id is drawn for each call in order. -/
def start (strategy : Strategy) (maxWait : Span) (calls : List Call) (ids : Ids) :
    Operation × Ids :=
  let (drawn, ids) := ids.drawMany calls.length
  ({ strategy, maxWait
     pending := drawn.zipIdx
     slots := calls.map fun _ => none
     outgoing := calls.zipWith (fun call id => call.amend (.correlationId id)) drawn }, ids)

/-- The number of calls, as far as a count of a poll goes. -/
def count (op : Operation) : UInt32 := UInt32.ofNat (min op.slots.length 4294967295)

/-- Suspends with a poll for all results at once. It carries the calls that are still to be handed
out, which it does only once. -/
def poll (op : Operation) : Response × Operation :=
  (.poll { minResults := op.count, maxResults := op.count, maxWait := op.maxWait,
           calls := op.outgoing },
    { op with outgoing := [] })

/-- A batch of results under way: what is pending and recorded, and what was seen in the batch. -/
structure Tally where
  pending : List (UInt64 × Nat)
  slots : Slots
  succeeded : Bool := false
  failed : Bool := false

/-- Records a result in the slot of its call, unless its id is not pending. -/
def Tally.record (t : Tally) (result : CallResult) : Tally :=
  match t.pending.lookup result.correlationId with
  -- of another operation, or delivered again: no call waits for it
  | none => t
  | some index =>
    { pending := t.pending.filter (·.1 != result.correlationId)
      slots := t.slots.set index (some result)
      succeeded := t.succeeded || !result.isFailure
      failed := t.failed || result.isFailure }

/-- The errors of the results that failed, in the order of the calls. -/
def errors (slots : Slots) : List RemoteError := slots.filterMap fun slot => slot.bind (·.error)

/-- The failure of an operation, joined from the errors of its results. -/
def failure (slots : Slots) : AwaitError :=
  .failed slots (.join ((errors slots).map fun e => .leaf (.remote e)))

/-- What an answer makes of an operation. -/
inductive Progress where
  | waiting (op : Operation)
  | finished (answer : Except AwaitError Slots)

/-- Records a batch of results and decides whether the operation is done. -/
def receiveBatch (op : Operation) (results : List CallResult) : Progress :=
  -- all of the batch, so that a result behind the deciding one still reaches its slot
  let t := results.foldl Tally.record { pending := op.pending, slots := op.slots }
  match op.strategy with
  | .all =>
    if t.failed then .finished (.error (failure t.slots))
    else if t.pending.isEmpty then .finished (.ok t.slots)
    else .waiting { op with pending := t.pending, slots := t.slots }
  | .any =>
    if t.succeeded then .finished (.ok t.slots)
    else if t.pending.isEmpty then .finished (.error (failure t.slots))
    else .waiting { op with pending := t.pending, slots := t.slots }

/-- Receives the answer to a poll; there is none if the driver went away. -/
def receive (op : Operation) (answer : Option Request) : Progress :=
  match answer with
  | none => .finished (.error .detached)
  | some request =>
    match request.directive with
    | .input _ => .finished (.error .unexpectedRequest)
    | .pollResult result =>
      match result.error with
      | some error => .finished (.error (.dispatch op.slots error))
      | none => op.receiveBatch result.results

/-- What became of an operation: its answer, the polls it sent, and the requests it left over. -/
structure Run where
  answer : Except AwaitError Slots
  polls : List Response
  left : List Request

/-- Runs an operation over the requests that answer its polls; the driver goes away after them. -/
def run (op : Operation) : List Request → Run
  | [] => ⟨.error .detached, [op.poll.1], []⟩
  | request :: rest =>
    match op.poll.2.receive (some request) with
    | .finished answer => ⟨answer, [op.poll.1], rest⟩
    | .waiting op' =>
      let later := op'.run rest
      { later with polls := op.poll.1 :: later.polls }

/-- Awaits calls over the requests that answer the polls. No calls need no poll and no id. -/
def awaitCalls (strategy : Strategy) (maxWait : Span) (calls : List Call) (ids : Ids)
    (script : List Request) : Run × Ids :=
  if calls.isEmpty then (⟨.ok [], [], script⟩, ids)
  else
    let (op, ids) := start strategy maxWait calls ids
    (op.run script, ids)

theorem awaitCalls_of_ne_nil (strategy : Strategy) (maxWait : Span) {calls : List Call}
    (hne : calls ≠ []) (ids : Ids) (script : List Request) :
    awaitCalls strategy maxWait calls ids script =
      ((start strategy maxWait calls ids).1.run script, (start strategy maxWait calls ids).2) := by
  unfold awaitCalls
  rw [if_neg (by simpa using hne)]

/-- The output in a slot; what reported none has the boxed null. -/
def output (slot : Option CallResult) : Boxed := (slot.bind (·.output)).getD .null

/-- Unboxes the output of every slot; the first that does not unbox decides. -/
def unboxOutputs {α : Type} (target : Target α) (slots : Slots) : Except AwaitError (List α) :=
  slots.zipIdx.mapM fun (slot, index) => ((output slot).unbox target).mapError (.decode index)

end Operation

end Resumable
