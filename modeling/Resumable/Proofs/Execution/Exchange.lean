import Resumable.Proofs.Execution.Parked

/-!
# Exchanges of a body with its driver

The body of an execution and its driver each go on by themselves; what they share are the two places
for a message between them. `Exchange.Step` is what one of them does at a time, or that somebody
terminates the execution, and `Exchange.Run` is any interleaving of such steps, with what happened on
its way. What `Execution.next` and `Execution.resume` do is one of the runs of a call, in which
nothing happens but that the body goes on until it rests (`exists_run_next`, `exists_run_resume`).
-/

namespace Resumable

variable {σ W : Type}

/-- The response that a body waits to hand over. -/
@[simp] def Task.offered : Task σ → List Response
  | offering response _ => [response]
  | unstarted | waiting _ | finished => []

/-- Where a driver stands. -/
inductive Driver where
  /-- It has not called yet. -/
  | fresh
  /-- It has called `resume`, and is about to send the request. -/
  | sending (request : Request)
  /-- It has called `next` or has sent its request, and waits for the response. -/
  | receiving
  /-- Its last call has returned. -/
  | idle

/-- Whether a call of a driver is under way. -/
def Driver.Calls : Driver → Prop
  | sending _ | receiving => True
  | fresh | idle => False

/-- An execution with its driver. -/
structure Exchange (σ W : Type) where
  execution : Execution σ W
  world : W
  driver : Driver := .fresh
  /-- Whether the ends of both channels that belong to the body are gone. -/
  dropped : Bool := false

namespace Exchange

/-- A body that has not begun, with a driver that has not called. -/
def spawn (body : Body σ W) (w : W) : Exchange σ W where
  execution := .spawn body
  world := w

/-- What happens in an exchange. -/
inductive Event (σ : Type) where
  /-- The body made a move, on a request unless it began. -/
  | moved (request? : Option Request) (move : Move σ)
  /-- The body handed over what it offered. -/
  | handed
  /-- The ends of the body were dropped. -/
  | dropped
  /-- The driver called `next`, or `resume` with a request. -/
  | called (request? : Option Request)
  | sent (request : Request)
  /-- The call of the driver returned. -/
  | returned (reply : Reply)
  /-- The execution was terminated, with its body standing there. -/
  | terminated (task : Task σ)

namespace Event

/-- The response that the body has produced. -/
@[simp] def produced : Event σ → List Response
  | moved _ move => [move.response]
  | _ => []

/-- The request that the body has received. -/
@[simp] def taken : Event σ → List Request
  | moved request? _ => request?.toList
  | _ => []

/-- The response that the driver has received. -/
@[simp] def received : Event σ → List Response
  | returned (.response response) => [response]
  | _ => []

/-- The request that the driver has sent. -/
@[simp] def submitted : Event σ → List Request
  | sent request => [request]
  | _ => []

/-- The response that the body could not hand over any more. -/
@[simp] def withheld : Event σ → List Response
  | terminated task => task.offered
  | _ => []

/-- Whether the execution was terminated. -/
def Terminates : Event σ → Prop
  | terminated _ => True
  | _ => False

/-- Whether a call of the driver has returned. -/
def Returns : Event σ → Prop
  | returned _ => True
  | _ => False

end Event

/-- A step of the body, of the driver, or of whoever terminates the execution. The driver calls
`next` first and then `resume` any number of times. A request can be sent as long as there is
somebody to receive it, and what is in a channel can be received when its sender is gone. -/
inductive Step : Exchange σ W → Event σ → Exchange σ W → Prop
  -- the body
  | begin {s : Exchange σ W} : s.execution.task = .unstarted →
      Step s (.moved none (s.execution.body.start s.world).1)
        { s with
          execution := (s.execution.begin s.world).1
          world := (s.execution.begin s.world).2 }
  | hand {s : Exchange σ W} {response : Response} {state? : Option σ} :
      s.execution.task = .offering response state? → s.execution.outbox = none →
      Step s .handed { s with execution := s.execution.hand }
  | wake {s : Exchange σ W} {state : σ} {request : Request} :
      s.execution.task = .waiting state → s.execution.inbox = some request →
      Step s (.moved (some request) (s.execution.body.resume state request s.world).1)
        { s with
          execution := (s.execution.wake s.world).1
          world := (s.execution.wake s.world).2 }
  | drop {s : Exchange σ W} : s.execution.task = .finished → s.dropped = false →
      Step s .dropped { s with dropped := true }
  -- the driver
  | next {s : Exchange σ W} : s.driver = .fresh →
      Step s (.called none) { s with driver := .receiving }
  | resume {s : Exchange σ W} (request : Request) : s.driver = .idle →
      Step s (.called (some request)) { s with driver := .sending request }
  | send {s : Exchange σ W} {request : Request} :
      s.driver = .sending request → s.dropped = false → s.execution.inbox = none →
      Step s (.sent request)
        { s with execution := { s.execution with inbox := some request }, driver := .receiving }
  | refuse {s : Exchange σ W} {request : Request} :
      s.driver = .sending request → s.dropped = true →
      Step s (.returned .detached) { s with driver := .idle }
  | receive {s : Exchange σ W} {response : Response} :
      s.driver = .receiving → s.execution.outbox = some response →
      Step s (.returned (.response response))
        { s with execution := { s.execution with outbox := none }, driver := .idle }
  | hangUp {s : Exchange σ W} :
      s.driver = .receiving → s.execution.outbox = none → s.dropped = true →
      Step s (.returned .detached) { s with driver := .idle }
  -- anybody
  | terminate (s : Exchange σ W) :
      Step s (.terminated s.execution.task) { s with execution := s.execution.terminate }

/-- Any number of steps, with what happens in them. -/
inductive Run : Exchange σ W → List (Event σ) → Exchange σ W → Prop
  | refl (s : Exchange σ W) : Run s [] s
  | step {s t u : Exchange σ W} {event : Event σ} {events : List (Event σ)} :
      Step s event t → Run t events u → Run s (event :: events) u

variable {s t u : Exchange σ W} {event : Event σ} {events later : List (Event σ)}

theorem Run.append (h : Run s events t) (h' : Run t later u) : Run s (events ++ later) u := by
  induction h with
  | refl => exact h'
  | step hstep _ ih => exact .step hstep (ih h')

theorem Run.exists_of_append {before after : List (Event σ)} (h : Run s (before ++ after) u) :
    ∃ t, Run s before t ∧ Run t after u := by
  induction before generalizing s with
  | nil => exact ⟨s, .refl s, h⟩
  | cons event before ih =>
    cases h with
    | step hstep hrest =>
      obtain ⟨t, hbefore, hafter⟩ := ih hrest
      exact ⟨t, .step hstep hbefore, hafter⟩

end Exchange

/-! ## Steps of the body -/

namespace Execution

variable {e : Execution σ W}

theorem isFinished_iff : e.isFinished = true ↔ e.task = .finished := by
  unfold isFinished
  split <;> simp_all

theorem begin_of_unstarted (h : e.task = .unstarted) (w : W) :
    e.begin w = ({ e with task := (e.body.start w).1.task }, (e.body.start w).2) := by
  unfold begin
  rw [h]

theorem hand_of_offering {response : Response} {state? : Option σ}
    (h : e.task = .offering response state?) (houtbox : e.outbox = none) :
    e.hand = { e with task := state?.elim .finished .waiting, outbox := some response } := by
  unfold hand
  rw [h, houtbox]

theorem wake_of_waiting {state : σ} {request : Request} (h : e.task = .waiting state)
    (hinbox : e.inbox = some request) (w : W) :
    e.wake w = ({ e with task := (e.body.resume state request w).1.task, inbox := none },
      (e.body.resume state request w).2) := by
  unfold wake
  rw [h, hinbox]

end Execution

namespace Exchange

variable {s t u : Exchange σ W} {event : Event σ} {events later : List (Event σ)}

theorem exists_run_begin (s : Exchange σ W) :
    ∃ events, Run s events { s with
      execution := (s.execution.begin s.world).1, world := (s.execution.begin s.world).2 } := by
  cases htask : s.execution.task with
  | unstarted => exact ⟨_, .step (.begin htask) (.refl _)⟩
  | offering | waiting | finished =>
    refine ⟨[], ?_⟩
    simp only [Execution.begin, htask]
    exact .refl s

theorem exists_run_hand (s : Exchange σ W) :
    ∃ events, Run s events { s with execution := s.execution.hand } := by
  cases htask : s.execution.task with
  | offering response state? =>
    cases houtbox : s.execution.outbox with
    | none => exact ⟨_, .step (.hand htask houtbox) (.refl _)⟩
    | some response' =>
      refine ⟨[], ?_⟩
      simp only [Execution.hand, htask, houtbox]
      exact .refl s
  | unstarted | waiting | finished =>
    refine ⟨[], ?_⟩
    simp only [Execution.hand, htask]
    exact .refl s

theorem exists_run_wake (s : Exchange σ W) :
    ∃ events, Run s events { s with
      execution := (s.execution.wake s.world).1, world := (s.execution.wake s.world).2 } := by
  cases htask : s.execution.task with
  | waiting state =>
    cases hinbox : s.execution.inbox with
    | some request => exact ⟨_, .step (.wake htask hinbox) (.refl _)⟩
    | none =>
      refine ⟨[], ?_⟩
      simp only [Execution.wake, htask, hinbox]
      exact .refl s
  | unstarted | offering | finished =>
    refine ⟨[], ?_⟩
    simp only [Execution.wake, htask]
    exact .refl s

/-- A body that goes on until it waits or has finished makes a run. -/
theorem exists_run_settle (s : Exchange σ W) :
    ∃ events, Run s events { s with
      execution := (s.execution.settle s.world).1, world := (s.execution.settle s.world).2 } := by
  -- one run for each of the parts of `settle`, from where the one before has led
  obtain ⟨begun, hbegin⟩ := exists_run_begin s
  obtain ⟨handed, hhand⟩ := exists_run_hand { s with
    execution := (s.execution.begin s.world).1, world := (s.execution.begin s.world).2 }
  obtain ⟨woken, hwake⟩ := exists_run_wake { s with
    execution := (s.execution.begin s.world).1.hand, world := (s.execution.begin s.world).2 }
  obtain ⟨handedLast, hlast⟩ := exists_run_hand { s with
    execution := ((s.execution.begin s.world).1.hand.wake (s.execution.begin s.world).2).1
    world := ((s.execution.begin s.world).1.hand.wake (s.execution.begin s.world).2).2 }
  exact ⟨_, hbegin.append (hhand.append (hwake.append hlast))⟩

theorem exists_run_drop (hfinished : s.execution.task = .finished) :
    ∃ events, Run s events { s with dropped := true } := by
  cases hdropped : s.dropped with
  | false => exact ⟨_, .step (.drop hfinished hdropped) (.refl _)⟩
  | true =>
    refine ⟨[], ?_⟩
    rw [← hdropped]
    exact .refl s

/-- A driver that waits for a response and lets the body go on until it rests makes a run: its call
returns as `next` does, unless nothing can go on. -/
theorem exists_run_next (hdriver : s.driver = .receiving) {reply : Reply} {e : Execution σ W}
    {w : W} (h : s.execution.next s.world = (reply, e, w)) :
    ∃ events driver dropped, Run s events ⟨e, w, driver, dropped⟩ ∧
      (.returned reply ∈ events ∧ driver = .idle ∨ reply = .blocked) := by
  obtain ⟨settled, hsettled⟩ := exists_run_settle s
  unfold Execution.next at h
  generalize s.execution.settle s.world = rested at h hsettled
  obtain ⟨e', w'⟩ := rested
  dsimp only at h hsettled
  cases houtbox : e'.outbox with
  | some response =>
    rw [houtbox] at h
    cases h
    -- the body goes on once more behind the response, which does not concern the call
    obtain ⟨behind, hbehind⟩ := exists_run_settle
      { s with execution := { e' with outbox := none }, world := w', driver := .idle }
    refine ⟨_, _, _, hsettled.append (.step (.receive hdriver houtbox) hbehind), .inl ⟨?_, rfl⟩⟩
    simp
  | none =>
    rw [houtbox] at h
    cases h
    cases hfinished : e.isFinished with
    | true =>
      -- the driver gets to know that the body is gone when the ends of the body are dropped
      obtain ⟨dropping, hdrop⟩ := exists_run_drop (s := { s with execution := e, world := w })
        (Execution.isFinished_iff.1 hfinished)
      have hhangUp : Step { s with execution := e, world := w, dropped := true } _ _ :=
        .hangUp hdriver houtbox rfl
      refine ⟨_, _, _, hsettled.append (hdrop.append (.step hhangUp (.refl _))), .inl ⟨?_, rfl⟩⟩
      simp
    | false => exact ⟨_, _, _, hsettled, .inr rfl⟩

/-- A driver that resumes a body and lets it go on until it rests makes a run. -/
theorem exists_run_resume (hdriver : s.driver = .idle)
    (hdropped : s.dropped = true → s.execution.task = .finished) {request : Request} {reply : Reply}
    {e : Execution σ W} {w : W} (h : s.execution.resume request s.world = (reply, e, w)) :
    ∃ events driver dropped,
      Run s (.called (some request) :: events) ⟨e, w, driver, dropped⟩ ∧
      (.returned reply ∈ events ∧ driver = .idle ∨ reply = .blocked) := by
  have hcall : Step s (.called (some request)) { s with driver := .sending request } :=
    .resume request hdriver
  unfold Execution.resume at h
  cases hfinished : s.execution.isFinished with
  | true =>
    rw [if_pos hfinished] at h
    cases h
    obtain ⟨dropping, hdrop⟩ := exists_run_drop (s := { s with driver := .sending request })
      (Execution.isFinished_iff.1 hfinished)
    have hrefuse : Step { s with driver := .sending request, dropped := true } _ _ :=
      .refuse rfl rfl
    refine ⟨_, _, _, .step hcall (hdrop.append (.step hrefuse (.refl _))), .inl ⟨?_, rfl⟩⟩
    simp
  | false =>
    rw [if_neg (Bool.eq_false_iff.1 hfinished)] at h
    cases hinbox : s.execution.inbox with
    | some waiting =>
      rw [hinbox] at h
      cases h
      exact ⟨_, _, _, .step hcall (.refl _), .inr rfl⟩
    | none =>
      rw [hinbox] at h
      have hends : s.dropped = false := by
        refine Bool.eq_false_iff.2 fun hgone => ?_
        rw [Execution.isFinished_iff.2 (hdropped hgone)] at hfinished
        cases hfinished
      obtain ⟨events, driver, dropped, hrun, hreply⟩ := exists_run_next (s := { s with
        execution := { s.execution with inbox := some request }, driver := .receiving }) rfl h
      refine ⟨_, _, _, .step hcall (.step (.send rfl hends hinbox) hrun), hreply.imp_left ?_⟩
      exact fun hreturned => ⟨List.mem_cons_of_mem _ hreturned.1, hreturned.2⟩

end Exchange

end Resumable
