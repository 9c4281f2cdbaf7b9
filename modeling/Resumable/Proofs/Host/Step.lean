import Resumable.Host.Basic
import Resumable.Proofs.Boxed.RoundTrip
import Resumable.Proofs.Execution.Process
import Resumable.Proofs.Residents

/-!
# Steps of a host

A request goes to a new execution, to a resident one, or nowhere (`Host.Route`). For each of these
there are lemmas that say all that a request makes of a host: `run_of_start_of_exit` and
`run_of_start_of_poll`, `run_of_resume`, and `run_of_refused`. An execution that is kept is told
apart by the id in the state of its polls (`Response.addressed`), which an orchestrator gives back
and which unboxes to that id again (`instanceId?_addressed`).
-/

namespace Resumable

variable {ω : Type}

/-! ## Responses of executions that are kept -/

/-- The boxed form of an id. -/
def Boxed.ofId (id : UInt64) : Boxed := ⟨.uint, (Wire.Item.u64 id).toBytes⟩

namespace Response

/-- The instance id that the state of a poll unboxes to. -/
def instanceId? (r : Response) : Option UInt64 :=
  r.poll?.bind fun poll => (Host.instanceId poll.state).toOption

/-- The response of an execution that is kept under an id: a poll has the boxed id as its state. -/
def addressed (id : UInt64) (r : Response) : Response :=
  match r.directive with
  | .exit _ => r
  | .poll poll => ⟨r.status, .poll (poll.withState (.ofId id))⟩

@[simp] theorem isExit_addressed (id : UInt64) (r : Response) :
    (r.addressed id).isExit = r.isExit := by
  obtain ⟨status, exit | poll⟩ := r <;> rfl

theorem addressed_of_isExit {r : Response} (h : r.isExit = true) (id : UInt64) :
    r.addressed id = r := by
  obtain ⟨status, exit | poll⟩ := r
  · rfl
  · cases h

theorem instanceId?_of_isExit {r : Response} (h : r.isExit = true) : r.instanceId? = none := by
  obtain ⟨status, exit | poll⟩ := r
  · rfl
  · cases h

end Response

namespace Host

theorem writable_id (id : UInt64) : (Wire.Item.u64 id).Writable := by
  refine (Wire.Item.writable_leaf rfl).2 ⟨trivial, ?_⟩
  intro body hbody
  cases hbody

theorem encode_id (id : UInt64) : (Value.uint id).encode = .ok (.ofId id) :=
  Value.encode_of_toItem? rfl (writable_id id)

/-- A boxed id unboxes to the id. -/
theorem instanceId_ofId (id : UInt64) : instanceId (.ofId id) = .ok id := by
  have hdecode : (Boxed.ofId id).decode = .ok (.uint id) :=
    Value.decode_of_toItem? (v := .uint id) rfl (writable_id id)
  have hlt := id.toNat_lt
  have hcontains : idType.Contains id.toNat := by
    constructor
    · exact Int.natCast_nonneg _
    · show (id.toNat : Int) ≤ ((1 <<< 64 : Nat) : Int) - 1
      omega
  have hunbox : (Boxed.ofId id).unbox (Target.integer idType) = .ok ⟨id.toNat, hcontains⟩ := by
    refine bind_eq_ok_iff.2 ⟨_, hdecode, ?_⟩
    show Option.elim (idType.num? id.toNat) _ _ = _
    rw [Number.IntegerType.num?, dif_pos hcontains]
    rfl
  rw [instanceId, hunbox]
  show Except.ok (UInt64.ofNat (id.toNat : Int).toNat) = _
  simp

end Host

/-- The poll of an execution that is kept is told apart by its id. -/
theorem Response.instanceId?_addressed {r : Response} (h : r.isExit = false) (id : UInt64) :
    (r.addressed id).instanceId? = some id := by
  obtain ⟨status, exit | poll⟩ := r
  · cases h
  · have hpoll : (addressed id ⟨status, .poll poll⟩).poll? = some (poll.withState (.ofId id)) := rfl
    rw [instanceId?, hpoll, Option.bind_some, Poll.withState, Host.instanceId_ofId]
    rfl

/-- What an orchestrator is told of the reply of an execution under an id. -/
def Reply.told (id : UInt64) : Reply → Response
  | .response r => r.addressed id
  | .detached | .blocked => HostError.execution.response .temporaryError

namespace Host

variable {host : Host ω} {f : Function ω} {request : Request} {input : Boxed} {id : UInt64}
  {e : ProcessExecution ω}

/-- A resident execution stays under its id until it exits. -/
theorem settle_known (host : Host ω) (e : ProcessExecution ω) (id : UInt64) (reply : Reply) :
    host.settle e (some id) reply =
      (reply.told id,
        { host with
          residents := if (reply.told id).isExit then host.residents.erase id
            else host.residents.replace id e }) := by
  cases reply with
  | detached => rfl
  | blocked => rfl
  | response r =>
    obtain ⟨status, exit | poll⟩ := r
    · rfl
    · simp only [settle, keep, encode_id]
      rfl

/-- A new execution is entered in the table unless it exits at once. -/
theorem settle_new (host : Host ω) (e : ProcessExecution ω) (r : Response) :
    host.settle e none (.response r) =
      if r.isExit then (r, host)
      else
        let entered := host.residents.register e host.ids
        (r.addressed entered.1, { host with residents := entered.2.1, ids := entered.2.2 }) := by
  obtain ⟨status, exit | poll⟩ := r
  · rfl
  · simp only [settle, keep, encode_id]
    rfl

/-! ## Routes -/

/-- Where a request goes. -/
inductive Route (ω : Type) where
  /-- To a new execution of a function on an input. -/
  | start (f : Function ω) (input : Boxed)
  /-- To the execution that is resident under an id. -/
  | resume (id : UInt64) (e : ProcessExecution ω)
  /-- Nowhere. -/
  | refused (status : Status) (error : HostError)

/-- The route of a request. -/
def route (host : Host ω) (request : Request) : Route ω :=
  match host.lookup request.function with
  | .error error => .refused .notFound error
  | .ok f =>
    match request.directive with
    | .input input => .start f input
    | .pollResult result =>
      match instanceId result.state with
      | .error error => .refused .incompatibleState (.invalidState error)
      | .ok id =>
        match host.residents.find? id with
        | none => .refused .incompatibleState (.instanceNotFound id)
        | some e => .resume id e

/-- The process that a function runs on an input. -/
def process (host : Host ω) (f : Function ω) (request : Request) (input : Boxed) :
    Process ω Response :=
  f.run (.ofRequest request host.endpoint host.maxWait) input

/-- What the first move of a new execution is, and the world after it. -/
def begun (host : Host ω) (f : Function ω) (request : Request) (input : Boxed) :
    Move (Process.Waiting ω) × Shared ω :=
  (host.process f request input).run host.maxWait host.shared

/-- A new execution as its first move leaves it. -/
def started (host : Host ω) (f : Function ω) (request : Request) (input : Boxed) :
    ProcessExecution ω :=
  .parked (Process.body host.maxWait (host.process f request input))
    (host.begun f request input).1.state?

/-- A request is handled as its route says. -/
theorem run_eq (host : Host ω) (request : Request) :
    host.run request =
      match host.route request with
      | .start f input => host.start f request input
      | .resume id e => host.conclude (some id) (e.resume request host.shared)
      | .refused status error => host.refuse status error := by
  -- both look the function up first, and the table only for a request to resume
  unfold run route
  cases host.lookup request.function with
  | error error => rfl
  | ok f =>
    cases request.directive with
    | input input => rfl
    | pollResult result =>
      unfold resume
      cases hid : instanceId result.state with
      | error error => simp only [hid]
      | ok id => cases hfind : host.residents.find? id <;> simp only [hid, hfind]

/-- Whether a request to resume is refused depends on the table alone. -/
theorem route_of_pollResult {result : PollResult} (hlookup : host.lookup request.function = .ok f)
    (hdirective : request.directive = .pollResult result)
    (hstate : instanceId result.state = .ok id) :
    host.route request =
      match host.residents.find? id with
      | none => .refused .incompatibleState (.instanceNotFound id)
      | some e => .resume id e := by
  unfold route
  simp only [hlookup, hdirective, hstate]

theorem next_spawned (host : Host ω) (f : Function ω) (request : Request) (input : Boxed) :
    (host.spawn f request input).next host.shared =
      (.response (host.begun f request input).1.response, host.started f request input,
        (host.begun f request input).2) :=
  Execution.next_spawn _ _

/-- A new execution that exits at once leaves the table as it is. -/
theorem run_of_start_of_exit (h : host.route request = .start f input)
    (hexit : (host.begun f request input).1.response.isExit = true) :
    host.run request =
      let (move, w) := host.begun f request input
      ⟨move.response, w.notes, { host with ids := w.ids }⟩ := by
  rw [run_eq, h]
  simp only [start, next_spawned, conclude, settle_new, hexit, if_true]

/-- A new execution that suspends is entered in the table. -/
theorem run_of_start_of_poll (h : host.route request = .start f input)
    (hpoll : (host.begun f request input).1.response.isExit = false) :
    host.run request =
      let (move, w) := host.begun f request input
      let (id, residents, ids) := host.residents.register (host.started f request input) w.ids
      ⟨move.response.addressed id, w.notes, { host with residents, ids }⟩ := by
  rw [run_eq, h]
  simp only [start, next_spawned, conclude, settle_new, hpoll, Bool.false_eq_true, if_false]

/-- A resident execution gives its next response, and stays in the table as it is left unless that is
an exit. -/
theorem run_of_resume (h : host.route request = .resume id e) :
    host.run request =
      let (reply, e', w) := e.resume request host.shared
      ⟨reply.told id, w.notes,
        { host with
          ids := w.ids
          residents := if (reply.told id).isExit then host.residents.erase id
            else host.residents.replace id e' }⟩ := by
  rw [run_eq, h]
  simp only [conclude, settle_known]

/-- A request that goes nowhere is refused, which changes nothing. -/
theorem run_of_refused {status : Status} {error : HostError}
    (h : host.route request = .refused status error) :
    host.run request = host.refuse status error := by
  rw [run_eq, h]

/-- A request changes the table and the generator only. -/
theorem run_host (host : Host ω) (request : Request) :
    ∃ residents ids, (host.run request).host = { host with residents, ids } := by
  cases hroute : host.route request with
  | start f input =>
    cases hexit : (host.begun f request input).1.response.isExit with
    | true => exact ⟨_, _, by rw [run_of_start_of_exit hroute hexit]⟩
    | false => exact ⟨_, _, by rw [run_of_start_of_poll hroute hexit]⟩
  | resume id e => exact ⟨_, _, by rw [run_of_resume hroute]⟩
  | refused status error => exact ⟨_, _, by rw [run_of_refused hroute]; rfl⟩

theorem run_functions (host : Host ω) (request : Request) :
    (host.run request).host.functions = host.functions := by
  obtain ⟨residents, ids, hhost⟩ := host.run_host request
  rw [hhost]

theorem run_maxWait (host : Host ω) (request : Request) :
    (host.run request).host.maxWait = host.maxWait := by
  obtain ⟨residents, ids, hhost⟩ := host.run_host request
  rw [hhost]

end Host

end Resumable
