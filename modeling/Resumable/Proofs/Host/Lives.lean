import Mathlib.Data.List.Induction
import Resumable.Proofs.Host.Step

/-!
# Lives of executions

A host that handles one command after another is followed by a `Chronicle`, which keeps a `Life` for
every execution that was ever started: what it was started and resumed with, the ids that it drew for
its calls, and what it responded. A response of a resumed execution is entered in the latest life
under the id that the request names, whether or not that life goes on.

`Host.alone` runs a function by itself on what its life says it was given, in a world that gives it
these ids and has no other executions. A life is `Sound` if its execution did the same in the host.

A chronicle is about finitely many commands. Of a handler that would await for ever it sees the
awaits up to the last command, and these belong to a process that ends.
-/

namespace Resumable

variable {ω : Type}

/-! ## An execution by itself -/

/-- The input that a request starts an execution with; one that resumes has the boxed null. -/
def Request.startInput (request : Request) : Boxed :=
  match request.directive with
  | .input input => input
  | .pollResult _ => .null

namespace Host

/-- What an execution has responded, and what it is left as, after one more request with the ids that
it then draws. -/
def aloneResume (id : UInt64) (state : List Response × ProcessExecution ω)
    (asked : Request × List UInt64) : List Response × ProcessExecution ω :=
  let (reply, e, _) := state.2.resume asked.1 (.giving asked.2)
  (state.1 ++ [reply.told id], e)

/-- What a function responds all by itself, from its start to the last of the requests that resume
it, and its execution afterwards. It depends on what it is given alone: the request that starts it,
the requests that resume it, the ids that it draws each time, and its instance id. -/
def alone (host : Host ω) (f : Function ω) (request : Request) (given : List UInt64) (id : UInt64)
    (asked : List (Request × List UInt64)) : List Response × ProcessExecution ω :=
  let (reply, e, _) := (host.spawn f request request.startInput).next (.giving given)
  asked.foldl (aloneResume id) ([reply.told id], e)

end Host

/-! ## Lives -/

/-- A request that resumed an execution, the ids that the execution then drew for its calls, and its
response. -/
structure Resumption where
  request : Request
  given : List UInt64
  response : Response

/-- The life of an execution: the function, the request that started it, the ids that it then drew
for its calls, and its first response; then what resumed it, in order; and whether the host was
closed since it was started. -/
structure Life (ω : Type) where
  function : Function ω
  request : Request
  given : List UInt64
  first : Response
  resumptions : List Resumption := []
  closed : Bool := false

namespace Life

/-- The instance id in the first poll; an execution that exits at once has none. -/
def id? (life : Life ω) : Option UInt64 := life.first.instanceId?

/-- All responses, in order. -/
def responses (life : Life ω) : List Response := life.first :: life.resumptions.map (·.response)

/-- The most recent response. -/
def latest (life : Life ω) : Response := life.responses.getLast (List.cons_ne_nil _ _)

/-- Whether the most recent response is a poll and the host was not closed. -/
def suspended (life : Life ω) : Bool := !life.closed && !life.latest.isExit

/-- What the execution was resumed with: the requests, and the ids drawn for calls. -/
def asked (life : Life ω) : List (Request × List UInt64) :=
  life.resumptions.map fun r => (r.request, r.given)

/-- The life as its function would have it all by itself. -/
def alone (host : Host ω) (life : Life ω) : List Response × ProcessExecution ω :=
  host.alone life.function life.request life.given (life.id?.getD 0) life.asked

/-- The entry of a suspended execution in the table: the id in its most recent poll, and the
execution as it would be all by itself. -/
def resident? (host : Host ω) (life : Life ω) : Option (UInt64 × ProcessExecution ω) :=
  if life.suspended then life.latest.instanceId?.map (·, (life.alone host).2) else none

/-- The life after one more resumption. -/
def resumed (life : Life ω) (r : Resumption) : Life ω :=
  { life with resumptions := life.resumptions ++ [r] }

/-- The life after the host was closed. -/
def close (life : Life ω) : Life ω := { life with closed := true }

/-- Enters a resumption in the first of the lives that has an id. -/
def enter (id : UInt64) (r : Resumption) : List (Life ω) → List (Life ω)
  | [] => []
  | life :: rest =>
    if life.id? = some id then life.resumed r :: rest else life :: enter id r rest

/-- A life in which the execution did the same as by itself, told its one id in every poll, and did
not go on after an exit. -/
structure Sound (host : Host ω) (life : Life ω) : Prop where
  responses_eq : life.responses = (life.alone host).1
  addressed : ∀ r ∈ life.responses, r.isExit = false →
    ∃ id, life.id? = some id ∧ r.instanceId? = some id
  ended : ∀ r ∈ life.responses.dropLast, r.isExit = false

end Life

/-! ## Chronicles -/

namespace Host

/-- A host that was not asked anything yet. -/
def fresh (ids : Ids) (endpoint : String) (maxWait : Span) : Host ω := { ids, endpoint, maxWait }

/-- What is asked of a host. -/
inductive Command (ω : Type) where
  | register (f : Function ω)
  | run (request : Request)
  | close

/-- The host after a command. A registration under a name that is taken changes nothing. -/
def execute (host : Host ω) : Command ω → Host ω
  | .register f => (host.register f).toOption.getD host
  | .run request => (host.run request).host
  | .close => host.close

/-- A registration changes the functions only. -/
theorem execute_register (host : Host ω) (f : Function ω) :
    ∃ functions, host.execute (.register f) = { host with functions } := by
  show ∃ functions, (host.register f).toOption.getD host = _
  unfold register
  split
  · exact ⟨_, rfl⟩
  · exact ⟨_, rfl⟩

/-- The number of ids that the execution which a request goes to draws for its calls. -/
def calling (host : Host ω) (request : Request) : Nat :=
  match host.route request with
  | .start f input => (host.process f request input).draws
  | .resume _ e => e.draws request
  | .refused _ _ => 0

/-- The number of ids that are drawn to enter a new execution in the table. -/
def entering (host : Host ω) (request : Request) : Nat :=
  match host.route request with
  | .start f input =>
    if (host.begun f request input).1.response.isExit then 0
    else host.residents.draws (host.ids.after (host.calling request))
  | .resume _ _ | .refused _ _ => 0

/-- The ids that the execution which a request goes to draws for its calls. -/
def given (host : Host ω) (request : Request) : List UInt64 :=
  (host.ids.drawMany (host.calling request)).1

theorem given_of_start {host : Host ω} {f : Function ω} {request : Request} {input : Boxed}
    (h : host.route request = .start f input) :
    host.given request = (host.shared.ids.drawMany (host.process f request input).draws).1 := by
  simp only [given, calling, h]
  rfl

theorem given_of_resume {host : Host ω} {request : Request} {id : UInt64} {e : ProcessExecution ω}
    (h : host.route request = .resume id e) :
    host.given request = (host.shared.ids.drawMany (e.draws request)).1 := by
  simp only [given, calling, h]
  rfl

theorem lookup_eq_ok_iff {host : Host ω} {name : String} {f : Function ω} :
    host.lookup name = .ok f ↔ host.functions.find? (·.name == name) = some f := by
  unfold lookup
  cases host.functions.find? (·.name == name) <;> simp

/-- A function stays registered. -/
theorem lookup_execute {host : Host ω} {name : String} {f : Function ω}
    (h : host.lookup name = .ok f) (command : Command ω) :
    (host.execute command).lookup name = .ok f := by
  rw [lookup_eq_ok_iff] at h ⊢
  cases command with
  | register g =>
    show ((host.register g).toOption.getD host).functions.find? _ = _
    unfold register
    split
    · exact h
    · show (host.functions ++ [g]).find? _ = _
      rw [List.find?_append, h, Option.some_or]
  | run request =>
    rw [execute, run_functions]
    exact h
  | close => exact h

theorem lookup_foldl_execute {host : Host ω} {name : String} {f : Function ω}
    (h : host.lookup name = .ok f) (commands : List (Command ω)) :
    (commands.foldl execute host).lookup name = .ok f := by
  induction commands generalizing host with
  | nil => exact h
  | cons command rest ih => exact ih (lookup_execute h command)

end Host

/-- A host, and what came of the commands it has handled: the lives of all executions, the newest
first; the requests that resumed one, in order; and the number of ids drawn. -/
structure Chronicle (ω : Type) where
  host : Host ω
  lives : List (Life ω) := []
  accepted : List Request := []
  drawn : Nat := 0

namespace Chronicle

/-- The chronicle after a request. -/
def request (c : Chronicle ω) (request : Request) : Chronicle ω :=
  let outcome := c.host.run request
  let given := c.host.given request
  let drawn := c.drawn + (c.host.calling request + c.host.entering request)
  match c.host.route request with
  | .start f _ =>
    { c with
      host := outcome.host
      drawn
      lives := ⟨f, request, given, outcome.response, [], false⟩ :: c.lives }
  | .resume id _ =>
    { host := outcome.host
      drawn
      lives := Life.enter id ⟨request, given, outcome.response⟩ c.lives
      accepted := c.accepted ++ [request] }
  | .refused _ _ => { c with host := outcome.host, drawn }

/-- The chronicle after a command. -/
def step (c : Chronicle ω) : Host.Command ω → Chronicle ω
  | .register f => { c with host := c.host.execute (.register f) }
  | .run request => c.request request
  | .close => { c with host := c.host.execute .close, lives := c.lives.map Life.close }

/-- The chronicle of commands from a host without residents. -/
def of (host : Host ω) (commands : List (Host.Command ω)) : Chronicle ω :=
  commands.foldl step { host }

@[simp] theorem of_nil (host : Host ω) : of host [] = { host } := rfl

@[simp] theorem of_append_singleton (host : Host ω) (commands : List (Host.Command ω))
    (command : Host.Command ω) :
    of host (commands ++ [command]) = (of host commands).step command :=
  List.foldl_concat step _ command commands

theorem step_host (c : Chronicle ω) (command : Host.Command ω) :
    (c.step command).host = c.host.execute command := by
  cases command with
  | register f => rfl
  | close => rfl
  | run request =>
    simp only [step, Chronicle.request]
    cases c.host.route request <;> rfl

/-- A chronicle follows its host through the commands. -/
theorem of_host (host : Host ω) (commands : List (Host.Command ω)) :
    (of host commands).host = commands.foldl Host.execute host := by
  induction commands using List.reverseRecOn with
  | nil => rfl
  | append_singleton commands command ih =>
    rw [of_append_singleton, step_host, ih, List.foldl_concat]

end Chronicle

end Resumable
