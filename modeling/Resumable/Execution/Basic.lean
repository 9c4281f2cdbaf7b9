import Resumable.Record.Envelope

/-!
# Executions

An execution runs a body that hands over a response whenever it suspends and at its end, and that is
resumed with requests. Between the body and its driver lie two places of one message each: the outbox
holds a response that the driver has not taken, the inbox a request that the body has not taken. The
body is a `Task`: not yet begun, waiting for room in the outbox, waiting for a request, or finished.

`Execution.settle` lets the body go on until it waits or has finished. `next` and `resume` are what
a driver does; they are refused once the body is gone, and blocked when nothing can go on.
-/

namespace Resumable

/-- What a body panics with. -/
inductive Panic where
  | text (message : String)
  /-- Something that is no text. -/
  | other
  deriving DecidableEq, Repr

/-- The message of a panic. -/
def Panic.message : Panic → String
  | text message => message
  | other => "function panicked"

/-- The response in which a panic ends an execution. -/
def Panic.response (p : Panic) : Response :=
  .exit .permanentError { result := .ofError { kind := "panic", message := p.message } }

/-- What a body does when it goes on: it ends with a response, or hands one over and waits in a
state. -/
inductive Move (σ : Type) where
  | exit (response : Response)
  | panic (payload : Panic)
  | suspend (response : Response) (state : σ)

/-- A body with waiting states in σ, which acts on a world of type W. -/
structure Body (σ W : Type) where
  start : W → Move σ × W
  resume : σ → Request → W → Move σ × W

/-- The body that suspends on each of the responses and then makes its last move; its world is the
list of the requests it was resumed with. -/
def Body.listed (suspends : List Response) (last : Move (List Response)) :
    Body (List Response) (List Request) :=
  let go : List Response → Move (List Response)
    | [] => last
    | response :: rest => .suspend response rest
  { start := fun requests => (go suspends, requests)
    resume := fun rest request requests => (go rest, requests ++ [request]) }

/-- Where a body stands. -/
inductive Task (σ : Type) where
  | unstarted
  /-- The response is waiting for room; without a state behind it, it is the last one. -/
  | offering (response : Response) (state : Option σ)
  | waiting (state : σ)
  | finished

/-- The task that a move leads to. -/
def Move.task {σ : Type} : Move σ → Task σ
  | exit response => .offering response none
  | panic payload => .offering payload.response none
  | suspend response state => .offering response (some state)

/-- An execution: its body and where that stands, and the messages under way. -/
structure Execution (σ W : Type) where
  body : Body σ W
  task : Task σ := .unstarted
  inbox : Option Request := none
  outbox : Option Response := none

/-- What a driver gets. -/
inductive Reply where
  | response (response : Response)
  /-- The body is gone and will not respond. -/
  | detached
  /-- Nothing can go on; the wait is given up. -/
  | blocked

namespace Execution

variable {σ W : Type}

/-- An execution of a body that has not begun. -/
def spawn (body : Body σ W) : Execution σ W where
  body := body

/-- Whether the body has finished or was terminated. -/
def isFinished (e : Execution σ W) : Bool :=
  match e.task with
  | .finished => true
  | _ => false

/-- Begins the body. -/
def begin (e : Execution σ W) (w : W) : Execution σ W × W :=
  match e.task with
  | .unstarted =>
    let (move, w) := e.body.start w
    ({ e with task := move.task }, w)
  | _ => (e, w)

/-- Hands the offered response over, if there is room for it. -/
def hand (e : Execution σ W) : Execution σ W :=
  match e.task, e.outbox with
  | .offering response state, none =>
    { e with task := state.elim .finished .waiting, outbox := some response }
  | _, _ => e

/-- Lets a waiting body take a request and go on, if there is one. -/
def wake (e : Execution σ W) (w : W) : Execution σ W × W :=
  match e.task, e.inbox with
  | .waiting state, some request =>
    let (move, w) := e.body.resume state request w
    ({ e with task := move.task, inbox := none }, w)
  | _, _ => (e, w)

/-- Lets the body go on until it waits or has finished. One request at most can be under way, so it
is resumed at most once. -/
def settle (e : Execution σ W) (w : W) : Execution σ W × W :=
  let (e, w) := e.begin w
  let (e, w) := e.hand.wake w
  (e.hand, w)

/-- Takes the next response and lets the body go on. -/
def next (e : Execution σ W) (w : W) : Reply × Execution σ W × W :=
  let (e, w) := e.settle w
  match e.outbox with
  | some response =>
    let (e, w) := { e with outbox := none }.settle w
    (.response response, e, w)
  | none => (if e.isFinished then .detached else .blocked, e, w)

/-- Sends a request and takes the next response. A finished body takes no request, whatever is left
in the outbox; while the inbox is full, nothing is sent. -/
def resume (e : Execution σ W) (request : Request) (w : W) : Reply × Execution σ W × W :=
  if e.isFinished then (.detached, e, w)
  else match e.inbox with
  | some _ => (.blocked, e, w)
  | none => { e with inbox := some request }.next w

/-- Stops the body where it stands. What it has handed over can still be taken. -/
def terminate (e : Execution σ W) : Execution σ W := { e with task := .finished }

end Execution

end Resumable
