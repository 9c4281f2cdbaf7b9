import Resumable.Await.Operation
import Resumable.Execution.Basic

/-!
# Processes

A process is a computation that awaits calls, one operation at a time, and may note things down on
its way: a tree of such steps that ends in a value or a panic. `Process.body` is the body that runs a
process to its response; while it is suspended, it holds the operation under way and what comes
after it. Notes and drawn identifiers are in the `Shared` world that all bodies of a host act on.
-/

namespace Resumable

/-- A computation that awaits calls and notes entries of type ω. -/
inductive Process (ω α : Type) where
  | done (a : α)
  | panic (payload : Panic)
  | note (entry : ω) (next : Process ω α)
  | await (strategy : Strategy) (calls : List Call)
      (next : Except AwaitError Slots → Process ω α)

/-- What the bodies of a host share: the generator of ids, and the notes taken so far. -/
structure Shared (ω : Type) where
  ids : Ids
  notes : List ω

namespace Process

variable {ω α β : Type}

/-- One process after another. -/
def bind : Process ω α → (α → Process ω β) → Process ω β
  | done a, f => f a
  | panic payload, _ => panic payload
  | note entry next, f => note entry (next.bind f)
  | await strategy calls next, f => await strategy calls fun answer => (next answer).bind f

instance : Monad (Process ω) where
  pure := done
  bind := bind

/-- Notes an entry down. -/
def tell (entry : ω) : Process ω Unit := note entry (done ())

/-- Awaits calls. -/
def awaitCalls (strategy : Strategy) (calls : List Call) : Process ω (Except AwaitError Slots) :=
  await strategy calls done

/-- Awaits calls until every one has succeeded. -/
def awaitAll (calls : List Call) : Process ω (Except AwaitError Slots) := awaitCalls .all calls

/-- Awaits calls until one has succeeded. -/
def awaitAny (calls : List Call) : Process ω (Except AwaitError Slots) := awaitCalls .any calls

/-- Awaits every call and unboxes the outputs, in the order of the calls. -/
def gather (target : Target α) (calls : List Call) : Process ω (Except AwaitError (List α)) := do
  return (← awaitAll calls).bind (Operation.unboxOutputs target)

/-- A suspended process: the operation it awaits, and what comes after it. -/
structure Waiting (ω : Type) where
  operation : Operation
  next : Except AwaitError Slots → Process ω Response

/-- Suspends on an operation. -/
def suspendOn (op : Operation) (next : Except AwaitError Slots → Process ω Response) :
    Move (Waiting ω) :=
  .suspend op.poll.1 ⟨op.poll.2, next⟩

/-- Runs a process until it suspends or ends. An operation without calls is answered at once. -/
def run (maxWait : Span) : Process ω Response → Shared ω → Move (Waiting ω) × Shared ω
  | done response, w => (.exit response, w)
  | panic payload, w => (.panic payload, w)
  | note entry next, w => next.run maxWait { w with notes := w.notes ++ [entry] }
  | await strategy calls next, w =>
    if calls.isEmpty then (next (.ok [])).run maxWait w
    else
      let (op, ids) := Operation.start strategy maxWait calls w.ids
      (suspendOn op next, { w with ids })

/-- Resumes a suspended process with a request: it goes on waiting, or its operation is finished and
it runs on. -/
def resume (maxWait : Span) (s : Waiting ω) (request : Request) (w : Shared ω) :
    Move (Waiting ω) × Shared ω :=
  match s.operation.receive (some request) with
  | .waiting op => (suspendOn op s.next, w)
  | .finished answer => (s.next answer).run maxWait w

/-- The body that runs a process. -/
def body (maxWait : Span) (p : Process ω Response) : Body (Waiting ω) (Shared ω) where
  start := p.run maxWait
  resume := resume maxWait

end Process

end Resumable
