import Resumable.Proofs.Execution.Process

/-!
# Driven executions

A driver begins an execution and resumes it with one request after another (`Execution.driven`). How
far the process of the execution has come by then is a relation on processes alone: `Process.Reaches`
says what is left of a process once its awaits were answered by the requests. Whatever comes after a
process, an execution that is driven to its rest replies as if it had begun with the rest
(`Execution.driven_of_reaches`).
-/

namespace Resumable

variable {ω α β : Type} {σ W : Type}

/-- The answer that an operation gives at the last of some requests, each of which answers a poll. -/
inductive Operation.Answers : Operation → List Request → Except AwaitError Slots → Prop
  | now {op : Operation} {request : Request} {answer : Except AwaitError Slots} :
      op.poll.2.receive (some request) = .finished answer → Answers op [request] answer
  | later {op op' : Operation} {request : Request} {rest : List Request}
      {answer : Except AwaitError Slots} :
      op.poll.2.receive (some request) = .waiting op' → Answers op' rest answer →
      Answers op (request :: rest) answer

/-- `p.Reaches maxWait w requests q w'` says that the process `p`, begun in the world `w`, is answered
with the requests and goes on as `q` in the world `w'`. -/
inductive Process.Reaches (maxWait : Span) :
    Process ω α → Shared ω → List Request → Process ω α → Shared ω → Prop
  | here (p : Process ω α) (w : Shared ω) : Reaches maxWait p w [] p w
  | note {entry : ω} {next q : Process ω α} {w w' : Shared ω} {requests : List Request} :
      Reaches maxWait next { w with notes := w.notes ++ [entry] } requests q w' →
      Reaches maxWait (note entry next) w requests q w'
  | awaitNone {strategy : Strategy} {next : Except AwaitError Slots → Process ω α}
      {q : Process ω α} {w w' : Shared ω} {requests : List Request} :
      Reaches maxWait (next (.ok [])) w requests q w' →
      Reaches maxWait (await strategy [] next) w requests q w'
  | await {strategy : Strategy} {calls : List Call} {next : Except AwaitError Slots → Process ω α}
      {answer : Except AwaitError Slots} {q : Process ω α} {w w' : Shared ω}
      {answering requests : List Request} :
      calls ≠ [] →
      (Operation.start strategy maxWait calls w.ids).1.Answers answering answer →
      Reaches maxWait (next answer)
        { w with ids := (Operation.start strategy maxWait calls w.ids).2 } requests q w' →
      Reaches maxWait (await strategy calls next) w (answering ++ requests) q w'

theorem Process.Reaches.trans {maxWait : Span} {p q r : Process ω α} {w w' w'' : Shared ω}
    {xs ys : List Request} (h : p.Reaches maxWait w xs q w') (h' : q.Reaches maxWait w' ys r w'') :
    p.Reaches maxWait w (xs ++ ys) r w'' := by
  induction h with
  | here p w => exact h'
  | note _ ih => exact .note (ih h')
  | awaitNone _ ih => exact .awaitNone (ih h')
  | await hcalls hanswers _ ih =>
    rw [List.append_assoc]
    exact .await hcalls hanswers (ih h')

namespace Execution

/-- Resumes an execution after its last reply. -/
def resumed (step : Reply × Execution σ W × W) (request : Request) : Reply × Execution σ W × W :=
  step.2.1.resume request step.2.2

/-- Begins an execution and resumes it with requests: its last reply, and how it is left. -/
def driven (e : Execution σ W) (w : W) (requests : List Request) : Reply × Execution σ W × W :=
  requests.foldl resumed (e.next w)

/-- The reply in which a body hands over its move, with the execution parked behind it. -/
def replied (body : Body σ W) (move : Move σ × W) : Reply × Execution σ W × W :=
  (.response move.1.response, parked body move.1.state?, move.2)

open Process

variable {maxWait : Span} {whole : Process ω Response} {w w' : Shared ω}

/-- Requests that an operation answers at the last of them lead on to what comes after the answer. -/
theorem foldl_resumed_of_answers {op : Operation} {answering : List Request}
    {answer : Except AwaitError Slots} (h : op.Answers answering answer)
    (next : Except AwaitError Slots → Process ω Response) (w : Shared ω) :
    answering.foldl resumed (replied (Process.body maxWait whole) (suspendOn op next, w)) =
      replied (Process.body maxWait whole) ((next answer).run maxWait w) := by
  -- an execution that waits for the operation is parked in a state, so that it can be resumed
  have hresumed : ∀ (op : Operation) (request : Request),
      resumed (replied (Process.body maxWait whole) (suspendOn op next, w)) request =
        replied (Process.body maxWait whole) (Process.resume maxWait ⟨op.poll.2, next⟩ request w) :=
    fun op request => resume_parked (Process.body maxWait whole) ⟨op.poll.2, next⟩ request w
  induction h with
  | now hreceive =>
    rw [List.foldl_cons, List.foldl_nil, hresumed, Process.resume, hreceive]
  | later hreceive _ ih =>
    rw [List.foldl_cons, hresumed, Process.resume, hreceive]
    exact ih

/-- An execution that is resumed until its process has reached its rest goes on as the rest does. -/
theorem foldl_resumed_of_reaches {p q : Process ω α} {requests : List Request}
    (h : p.Reaches maxWait w requests q w') (after : α → Process ω Response) :
    requests.foldl resumed
        (replied (Process.body maxWait whole) ((p.bind after).run maxWait w)) =
      replied (Process.body maxWait whole) ((q.bind after).run maxWait w') := by
  induction h with
  | here p w => rfl
  | note _ ih => exact ih
  | awaitNone _ ih => exact ih
  | @await strategy calls next answer q w w' answering requests hcalls hanswers _ ih =>
    have hempty : calls.isEmpty = false := by simpa using hcalls
    have hrun : ((Process.await strategy calls next).bind after).run maxWait w =
        (suspendOn (Operation.start strategy maxWait calls w.ids).1
            (fun answer => (next answer).bind after),
          { w with ids := (Operation.start strategy maxWait calls w.ids).2 }) := by
      simp [Process.bind, Process.run, hempty]
    rw [List.foldl_append, hrun, foldl_resumed_of_answers hanswers]
    exact ih

/-- A process that is driven to its rest, whatever comes after it, replies as the rest does. -/
theorem driven_of_reaches {p q : Process ω α} {requests : List Request}
    (h : p.Reaches maxWait w requests q w') (after : α → Process ω Response) :
    (spawn (Process.body maxWait (p.bind after))).driven w requests =
      replied (Process.body maxWait (p.bind after)) ((q.bind after).run maxWait w') := by
  rw [driven, next_spawn]
  exact foldl_resumed_of_reaches h after

end Execution

end Resumable
