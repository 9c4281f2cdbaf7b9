import Resumable.Execution.Basic

/-!
# Parked executions

Between two steps of its driver, an execution has no message under way: its body waits in a state or
is gone (`Execution.parked`). Beginning an execution and resuming a parked one each give the response
of the move that the body makes, and park the execution again (`next_spawn`, `resume_parked`); once
the body is gone, there is no response any more (`resume_gone`).
-/

namespace Resumable

variable {σ W : Type}

namespace Move

/-- The response that a move hands over. -/
def response : Move σ → Response
  | exit response => response
  | panic payload => payload.response
  | suspend response _ => response

/-- The state in which a move leaves the body waiting; a last move leaves it in none. -/
def state? : Move σ → Option σ
  | exit _ | panic _ => none
  | suspend _ state => some state

theorem task_eq (m : Move σ) : m.task = .offering m.response m.state? := by
  cases m <;> rfl

end Move

namespace Execution

/-- An execution without a message under way, whose body waits in a state or is gone. -/
def parked (body : Body σ W) (state? : Option σ) : Execution σ W where
  body := body
  task := state?.elim .finished .waiting

/-- A response that is offered with an empty inbox and outbox is the next one, and its execution is
parked behind it. -/
theorem next_offering (body : Body σ W) (response : Response) (state? : Option σ) (w : W) :
    { body, task := .offering response state? : Execution σ W }.next w =
      (.response response, parked body state?, w) := by
  cases state? <;> rfl

/-- Beginning an execution gives the response of its body's first move. -/
theorem next_spawn (body : Body σ W) (w : W) :
    (spawn body).next w =
      (.response (body.start w).1.response, parked body (body.start w).1.state?,
        (body.start w).2) := by
  -- what is begun goes on as if its first move had been offered before
  have hbegin : (spawn body).begin w =
      { body, task := .offering (body.start w).1.response (body.start w).1.state? :
        Execution σ W }.begin (body.start w).2 := by
    simp only [begin, spawn, Move.task_eq]
  rw [← next_offering, next, settle, hbegin]
  rfl

/-- Resuming a parked execution gives the response of its body's move on the request. -/
theorem resume_parked (body : Body σ W) (state : σ) (request : Request) (w : W) :
    (parked body (some state)).resume request w =
      (.response (body.resume state request w).1.response,
        parked body (body.resume state request w).1.state?, (body.resume state request w).2) := by
  have hsettle : { parked body (some state) with inbox := some request }.settle w =
      { body, task := .offering (body.resume state request w).1.response
          (body.resume state request w).1.state? : Execution σ W }.settle
        (body.resume state request w).2 := by
    simp [settle, begin, parked, hand, wake, Move.task_eq]
  -- the body waits and the inbox is empty, so that the request is sent
  show { parked body (some state) with inbox := some request }.next w = _
  rw [← next_offering, next, hsettle]
  rfl

/-- An execution whose body is gone takes no request. -/
theorem resume_gone (body : Body σ W) (request : Request) (w : W) :
    (parked body none).resume request w = (.detached, parked body none, w) :=
  rfl

end Execution

end Resumable
