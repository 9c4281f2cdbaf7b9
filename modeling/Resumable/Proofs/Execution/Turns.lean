import Resumable.Proofs.Execution.Exchange

/-!
# Turns of a body and its driver

A body and its driver take turns, though nothing but the two channels keeps them to it: at any time
the body goes on, or a response is in flight, or the driver goes on, or a request is in flight
(`Exchange.Turn`). So one place in each channel is enough. What has been sent is what has been
received and what is in flight, in the same order (`Run.requests_eq`, `Run.responses_eq`); a call
that is under way returns (`Orderly.returns`); and nothing comes behind the end (`Over.silent`).
-/

namespace Resumable

variable {σ W : Type}

/-- Whether a task waits for a request. -/
def Task.Waits : Task σ → Prop
  | waiting _ => True
  | unstarted | offering _ _ | finished => False

/-- Whether a task waits for a request or has finished. -/
def Task.Rests : Task σ → Prop
  | waiting _ | finished => True
  | unstarted | offering _ _ => False

/-- The steps that a task makes until it rests. -/
def Task.steps : Task σ → Nat
  | unstarted => 2
  | offering _ _ => 1
  | waiting _ | finished => 0

/-- Whether it is on a driver to go on. -/
def Driver.Acts : Driver → Prop
  | idle | sending _ => True
  | fresh | receiving => False

namespace Exchange

variable {s t u : Exchange σ W} {event : Event σ} {events later : List (Event σ)}

/-! ## Accounts of the messages -/

/-- A request is put into the inbox by the driver and taken out of it by the body. -/
theorem Step.requests_eq (h : Step s event t) :
    s.execution.inbox.toList ++ event.submitted = event.taken ++ t.execution.inbox.toList := by
  cases h with
  | begin htask =>
    rw [Execution.begin_of_unstarted htask]
    simp
  | hand htask houtbox =>
    rw [Execution.hand_of_offering htask houtbox]
    simp
  | wake htask hinbox =>
    rw [Execution.wake_of_waiting htask hinbox]
    simp [hinbox]
  | send _ _ hinbox => simp [hinbox]
  | drop | next | resume | refuse | receive | hangUp | terminate =>
    simp [Execution.terminate]

/-- The requests that were sent are those that the body has received, in that order, and the one in
flight. -/
theorem Run.requests_eq (h : Run s events t) :
    s.execution.inbox.toList ++ events.flatMap Event.submitted =
      events.flatMap Event.taken ++ t.execution.inbox.toList := by
  induction h with
  | refl => simp
  | step hstep _ ih =>
    rw [List.flatMap_cons, List.flatMap_cons, List.append_assoc, ← ih, ← List.append_assoc,
      hstep.requests_eq, List.append_assoc]

/-- A response is offered by the body when it is produced, handed over and received, or withheld if
the execution is terminated before. -/
theorem Step.responses_eq (h : Step s event t) :
    s.execution.outbox.toList ++ s.execution.task.offered ++ event.produced =
      event.received ++ t.execution.outbox.toList ++ t.execution.task.offered ++ event.withheld := by
  cases h with
  | begin htask =>
    rw [Execution.begin_of_unstarted htask, Move.task_eq]
    simp [htask]
  | @hand _ state? htask houtbox =>
    rw [Execution.hand_of_offering htask houtbox]
    cases state? <;> simp [htask, houtbox]
  | wake htask hinbox =>
    rw [Execution.wake_of_waiting htask hinbox, Move.task_eq]
    simp [htask]
  | receive _ houtbox => simp [houtbox]
  | terminate => simp [Execution.terminate]
  | drop | next | resume | send | refuse | hangUp => simp

/-- A body that has finished does nothing any more. -/
theorem Step.of_finished (h : Step s event t) (hs : s.execution.task = .finished) :
    t.execution.task = .finished ∧ event.produced = [] ∧ event.withheld = [] := by
  cases h with
  | begin htask | hand htask | wake htask => cases hs.symm.trans htask
  | terminate => exact ⟨rfl, rfl, by simp [hs]⟩
  | drop | next | resume | send | refuse | receive | hangUp => exact ⟨hs, rfl, rfl⟩

theorem Run.of_finished (h : Run s events t) (hs : s.execution.task = .finished) :
    t.execution.task = .finished ∧ events.flatMap Event.produced = [] ∧
      events.flatMap Event.withheld = [] := by
  induction h with
  | refl => exact ⟨hs, rfl, rfl⟩
  | step hstep _ ih =>
    obtain ⟨ht, hproduced, hwithheld⟩ := hstep.of_finished hs
    obtain ⟨hu, hproduced', hwithheld'⟩ := ih ht
    rw [List.flatMap_cons, List.flatMap_cons, hproduced, hwithheld]
    exact ⟨hu, hproduced', hwithheld'⟩

/-- Only a termination makes the body withhold a response. -/
theorem Step.withheld_cases (h : Step s event t) :
    event.withheld = [] ∨ t.execution.task = .finished := by
  cases h with
  | terminate => exact .inr rfl
  | begin | hand | wake | drop | next | resume | send | refuse | receive | hangUp => exact .inl rfl

/-- The responses that were produced are those that the driver has received, in that order, the one
in flight, and the one that the body has not handed over. -/
theorem Run.responses_eq (h : Run s events t) :
    s.execution.outbox.toList ++ s.execution.task.offered ++ events.flatMap Event.produced =
      events.flatMap Event.received ++ t.execution.outbox.toList ++ t.execution.task.offered ++
        events.flatMap Event.withheld := by
  induction h with
  | refl => simp
  | @step s t u event events hstep hrun ih =>
    simp only [List.flatMap_cons]
    rw [← List.append_assoc, hstep.responses_eq]
    rcases hstep.withheld_cases with hwithheld | ht
    · simp only [hwithheld, List.append_assoc, List.nil_append, List.append_nil] at ih ⊢
      rw [ih]
    · -- nothing is produced any more, so that what is withheld now stays the last
      obtain ⟨hu, hproduced, hwithheld⟩ := hrun.of_finished ht
      simp only [ht, hu, hproduced, hwithheld, Task.offered, List.append_nil] at ih ⊢
      simp only [ih, List.append_assoc]

/-! ## Turns -/

/-- Who has the turn: the body, a response in flight, the driver, or a request in flight. -/
inductive Turn : Exchange σ W → Prop
  | body {s : Exchange σ W} : ¬s.execution.task.Waits → s.execution.inbox = none →
      s.execution.outbox = none → ¬s.driver.Acts → Turn s
  | response {s : Exchange σ W} {response : Response} : s.execution.task.Rests →
      s.execution.inbox = none → s.execution.outbox = some response → ¬s.driver.Acts → Turn s
  /-- A request that was sent before the ends of the body were dropped stays where it is. -/
  | driver {s : Exchange σ W} : s.execution.task.Rests →
      (s.dropped = false → s.execution.inbox = none) → s.execution.outbox = none →
      s.driver.Acts → Turn s
  | request {s : Exchange σ W} {request : Request} : s.execution.task.Rests →
      s.execution.inbox = some request → s.execution.outbox = none → s.driver = .receiving → Turn s

/-- An exchange in which one of them has the turn, and the body is gone if its ends are. -/
structure Orderly (s : Exchange σ W) : Prop where
  turn : s.Turn
  finished_of_dropped : s.dropped = true → s.execution.task = .finished

theorem orderly_spawn (body : Body σ W) (w : W) : (spawn body w).Orderly where
  turn := .body not_false rfl rfl not_false
  finished_of_dropped := nofun

/-- While the body goes on, nothing is in flight. -/
theorem Turn.of_not_rests (h : s.Turn) (htask : ¬s.execution.task.Rests) :
    s.execution.inbox = none ∧ s.execution.outbox = none ∧ ¬s.driver.Acts := by
  cases h with
  | body _ hinbox houtbox hdriver => exact ⟨hinbox, houtbox, hdriver⟩
  | response hrests | driver hrests | request hrests => exact absurd hrests htask

/-- While the driver goes on, nothing is in flight. -/
theorem Turn.of_acts (h : s.Turn) (hdriver : s.driver.Acts) :
    s.execution.task.Rests ∧ (s.dropped = false → s.execution.inbox = none) ∧
      s.execution.outbox = none := by
  cases h with
  | body _ _ _ hother | response _ _ _ hother => exact absurd hdriver hother
  | driver hrests hinbox houtbox _ => exact ⟨hrests, hinbox, houtbox⟩
  | request _ _ _ hother =>
    rw [hother] at hdriver
    cases hdriver

/-- A response in flight is alone. -/
theorem Turn.of_outbox (h : s.Turn) {response : Response}
    (houtbox : s.execution.outbox = some response) :
    s.execution.task.Rests ∧ s.execution.inbox = none := by
  cases h with
  | response hrests hinbox _ _ => exact ⟨hrests, hinbox⟩
  | body _ _ hnone _ | driver _ _ hnone _ | request _ _ hnone _ => cases hnone.symm.trans houtbox

/-- A request in flight to a body that is there is alone, and the driver waits for the answer. -/
theorem Turn.of_inbox (h : s.Turn) {request : Request} (hdropped : s.dropped = false)
    (hinbox : s.execution.inbox = some request) :
    s.execution.outbox = none ∧ s.driver = .receiving := by
  cases h with
  | body _ hnone _ _ | response _ hnone _ _ => cases hnone.symm.trans hinbox
  | driver _ hnone _ _ => cases (hnone hdropped).symm.trans hinbox
  | request _ _ houtbox hdriver => exact ⟨houtbox, hdriver⟩

theorem Orderly.step (h : s.Orderly) (hstep : Step s event t) : t.Orderly := by
  cases hstep with
  | begin htask =>
    obtain ⟨hinbox, houtbox, hdriver⟩ := h.turn.of_not_rests (by simp [htask, Task.Rests])
    rw [Execution.begin_of_unstarted htask, Move.task_eq]
    refine ⟨.body not_false hinbox houtbox hdriver, fun hdropped => ?_⟩
    cases (h.finished_of_dropped hdropped).symm.trans htask
  | @hand response state? htask houtbox =>
    obtain ⟨hinbox, -, hdriver⟩ := h.turn.of_not_rests (by simp [htask, Task.Rests])
    rw [Execution.hand_of_offering htask houtbox]
    refine ⟨.response ?_ hinbox rfl hdriver, fun hdropped => ?_⟩
    · cases state? <;> trivial
    · cases (h.finished_of_dropped hdropped).symm.trans htask
  | wake htask hinbox =>
    -- a request is taken by a body that is there, so it is the one that the driver waits over
    have hdropped : s.dropped = false := by
      refine Bool.eq_false_iff.2 fun hdropped => ?_
      cases (h.finished_of_dropped hdropped).symm.trans htask
    obtain ⟨houtbox, hdriver⟩ := h.turn.of_inbox hdropped hinbox
    rw [Execution.wake_of_waiting htask hinbox, Move.task_eq]
    refine ⟨.body not_false rfl houtbox ?_, fun hgone => ?_⟩
    · simp [hdriver, Driver.Acts]
    · cases hdropped.symm.trans hgone
  | drop htask hdropped =>
    refine ⟨?_, fun _ => htask⟩
    cases h.turn with
    | body hwaits hinbox houtbox hdriver => exact .body hwaits hinbox houtbox hdriver
    | response hrests hinbox houtbox hdriver => exact .response hrests hinbox houtbox hdriver
    | driver hrests _ houtbox hdriver => exact .driver hrests nofun houtbox hdriver
    | request hrests hinbox houtbox hdriver => exact .request hrests hinbox houtbox hdriver
  | next hfresh =>
    refine ⟨?_, h.finished_of_dropped⟩
    cases h.turn with
    | body hwaits hinbox houtbox _ => exact .body hwaits hinbox houtbox not_false
    | response hrests hinbox houtbox _ => exact .response hrests hinbox houtbox not_false
    | driver _ _ _ hdriver =>
      rw [hfresh] at hdriver
      cases hdriver
    | request _ _ _ hdriver => cases hfresh.symm.trans hdriver
  | resume request hidle =>
    obtain ⟨hrests, hinbox, houtbox⟩ := h.turn.of_acts (by rw [hidle]; trivial)
    exact ⟨.driver hrests hinbox houtbox trivial, h.finished_of_dropped⟩
  | send hsending _ _ =>
    obtain ⟨hrests, -, houtbox⟩ := h.turn.of_acts (by rw [hsending]; trivial)
    exact ⟨.request hrests rfl houtbox rfl, h.finished_of_dropped⟩
  | refuse hsending _ =>
    obtain ⟨hrests, hinbox, houtbox⟩ := h.turn.of_acts (by rw [hsending]; trivial)
    exact ⟨.driver hrests hinbox houtbox trivial, h.finished_of_dropped⟩
  | receive _ houtbox =>
    obtain ⟨hrests, hinbox⟩ := h.turn.of_outbox houtbox
    exact ⟨.driver hrests (fun _ => hinbox) rfl trivial, h.finished_of_dropped⟩
  | hangUp _ houtbox hdropped =>
    -- only here the driver gets the turn with a request left in the inbox
    refine ⟨.driver ?_ (fun hthere => ?_) houtbox trivial, h.finished_of_dropped⟩
    · rw [h.finished_of_dropped hdropped]
      trivial
    · cases hthere.symm.trans hdropped
  | terminate =>
    refine ⟨?_, fun _ => rfl⟩
    cases h.turn with
    | body _ hinbox houtbox hdriver => exact .body not_false hinbox houtbox hdriver
    | response _ hinbox houtbox hdriver => exact .response trivial hinbox houtbox hdriver
    | driver _ hinbox houtbox hdriver => exact .driver trivial hinbox houtbox hdriver
    | request _ hinbox houtbox hdriver => exact .request trivial hinbox houtbox hdriver

theorem Run.orderly (h : Run s events t) (hs : s.Orderly) : t.Orderly := by
  induction h with
  | refl => exact hs
  | step hstep _ ih => exact ih (hs.step hstep)

/-! ## Calls -/

/-- `s.Returns p` says that the call under way returns with a reply of which `p` holds, whatever the
body and the driver do until then. -/
inductive Returns (p : Reply → Prop) : Exchange σ W → Prop
  | intro {s : Exchange σ W} :
      (∃ event t, Step s event t ∧ ¬event.Terminates) →
      (∀ reply t, Step s (.returned reply) t → p reply) →
      (∀ event t, Step s event t → ¬event.Terminates → ¬event.Returns → t.Returns p) →
      s.Returns p

/-- The steps that are left to a call at most, before it returns. -/
def steps (s : Exchange σ W) : Nat :=
  s.execution.task.steps + 2 * s.execution.inbox.toList.length +
    (match s.driver with | .sending _ => 3 | _ => 0) + (if s.dropped then 0 else 1)

/-- Every step of a call that does not return brings it closer to its end. -/
theorem Step.steps_lt (h : Step s event t) (hcalls : s.driver.Calls)
    (hterminates : ¬event.Terminates) (hreturns : ¬event.Returns) :
    t.driver.Calls ∧ t.steps < s.steps := by
  cases h with
  | begin htask =>
    refine ⟨hcalls, ?_⟩
    rw [Execution.begin_of_unstarted htask, Move.task_eq]
    simp [steps, htask, Task.steps]
  | @hand response state? htask houtbox =>
    refine ⟨hcalls, ?_⟩
    rw [Execution.hand_of_offering htask houtbox]
    cases state? <;> simp [steps, htask, Task.steps]
  | wake htask hinbox =>
    refine ⟨hcalls, ?_⟩
    rw [Execution.wake_of_waiting htask hinbox, Move.task_eq]
    simp [steps, htask, hinbox, Task.steps]
  | drop htask hdropped => exact ⟨hcalls, by simp [steps, hdropped]⟩
  | next hdriver | resume _ hdriver =>
    rw [hdriver] at hcalls
    cases hcalls
  | send hdriver hdropped hinbox =>
    refine ⟨trivial, ?_⟩
    simp [steps, hdriver, hinbox]
  | refuse | receive | hangUp => exact absurd trivial hreturns
  | terminate => exact absurd trivial hterminates

/-- A driver that waits for a response of a body that has gone gets to know it. -/
theorem exists_step_of_finished (hdriver : s.driver = .receiving)
    (hfinished : s.execution.task = .finished) (houtbox : s.execution.outbox = none) :
    ∃ event t, Step s event t ∧ ¬event.Terminates := by
  cases hdropped : s.dropped with
  | false => exact ⟨_, _, .drop hfinished hdropped, not_false⟩
  | true => exact ⟨_, _, .hangUp hdriver houtbox hdropped, not_false⟩

/-- A call that is under way is never stuck. -/
theorem Turn.exists_step (h : s.Turn) (hcalls : s.driver.Calls) :
    ∃ event t, Step s event t ∧ ¬event.Terminates := by
  have hreceiving : ¬s.driver.Acts → s.driver = .receiving := by
    cases hdriver : s.driver <;> simp_all [Driver.Calls, Driver.Acts]
  cases h with
  | body hwaits _ houtbox hdriver =>
    cases htask : s.execution.task with
    | unstarted => exact ⟨_, _, .begin htask, not_false⟩
    | offering => exact ⟨_, _, .hand htask houtbox, not_false⟩
    | waiting =>
      rw [htask] at hwaits
      exact absurd trivial hwaits
    | finished => exact exists_step_of_finished (hreceiving hdriver) htask houtbox
  | response _ _ houtbox hdriver =>
    exact ⟨_, _, .receive (hreceiving hdriver) houtbox, not_false⟩
  | driver _ hinbox _ hdriver =>
    cases hsending : s.driver with
    | sending request =>
      cases hdropped : s.dropped with
      | false => exact ⟨_, _, .send hsending hdropped (hinbox hdropped), not_false⟩
      | true => exact ⟨_, _, .refuse hsending hdropped, not_false⟩
    | fresh | idle | receiving =>
      simp [hsending, Driver.Calls, Driver.Acts] at hcalls hdriver
  | request hrests hinbox houtbox hdriver =>
    cases htask : s.execution.task with
    | waiting => exact ⟨_, _, .wake htask hinbox, not_false⟩
    | finished => exact exists_step_of_finished hdriver htask houtbox
    | unstarted | offering =>
      rw [htask] at hrests
      cases hrests

/-- A call that is under way returns. -/
theorem Orderly.returns {p : Reply → Prop} (h : s.Orderly) (hcalls : s.driver.Calls)
    (hp : ∀ later t, Run s later t → ∀ reply, .returned reply ∈ later → p reply) :
    s.Returns p := by
  -- on the steps that are left to the call, over all states in which it is under way
  induction hsteps : s.steps using Nat.strongRecOn generalizing s with
  | ind n ih =>
    subst hsteps
    refine .intro (h.turn.exists_step hcalls) ?_ ?_
    · intro reply t hstep
      exact hp _ t (.step hstep (.refl t)) reply (List.mem_singleton_self _)
    · intro event t hstep hterminates hreturns
      obtain ⟨hcalls', hlt⟩ := hstep.steps_lt hcalls hterminates hreturns
      refine ih _ hlt (h.step hstep) hcalls' (fun later u hrun reply hreply => ?_) rfl
      exact hp _ u (.step hstep hrun) reply (List.mem_cons_of_mem _ hreply)

/-! ## The end of an exchange -/

/-- Whether the body is gone and nothing that it has produced is left. -/
def Over (s : Exchange σ W) : Prop :=
  s.execution.task = .finished ∧ s.execution.outbox = none

theorem Step.over (h : Step s event t) (hs : s.Over) :
    t.Over ∧ ∀ reply, event = .returned reply → reply = .detached := by
  obtain ⟨hfinished, houtbox⟩ := hs
  refine ⟨⟨(h.of_finished hfinished).1, ?_⟩, ?_⟩
  · cases h with
    | begin htask | hand htask | wake htask => cases hfinished.symm.trans htask
    | receive => rfl
    | drop | next | resume | send | refuse | hangUp | terminate => exact houtbox
  · rintro reply rfl
    cases h with
    | receive _ hsome => cases houtbox.symm.trans hsome
    | refuse | hangUp => rfl

theorem Run.over (h : Run s events t) (hs : s.Over) :
    t.Over ∧ ∀ reply, .returned reply ∈ events → reply = .detached := by
  induction h with
  | refl => exact ⟨hs, fun _ hmem => absurd hmem List.not_mem_nil⟩
  | step hstep _ ih =>
    obtain ⟨ht, hreply⟩ := hstep.over hs
    obtain ⟨hu, hreplies⟩ := ih ht
    refine ⟨hu, fun reply hmem => ?_⟩
    rcases List.mem_cons.1 hmem with heq | hmem
    · exact hreply reply heq.symm
    · exact hreplies reply hmem

/-- Whether every call returns from here on, and none with anything but that the body is gone. -/
def Silent (s : Exchange σ W) : Prop :=
  ∀ later t, Run s later t →
    (∀ reply, .returned reply ∈ later → reply = .detached) ∧
      (t.driver.Calls → t.Returns (· = .detached))

theorem Over.silent (h : s.Over) (hs : s.Orderly) : s.Silent := by
  intro later t hrun
  obtain ⟨ht, hreplies⟩ := hrun.over h
  exact ⟨hreplies, fun hcalls =>
    (hrun.orderly hs).returns hcalls fun _ _ hrun' => (hrun'.over ht).2⟩

/-- Whether the body produces nothing any more, and has nothing left but its last response. -/
def Ending (s : Exchange σ W) : Prop :=
  s.execution.task = .finished ∨
    (∃ response, s.execution.task = .offering response none) ∧ s.execution.outbox = none

theorem Step.ending (h : Step s event t) (hs : s.Ending) :
    t.Ending ∧ ∀ response, event = .returned (.response response) → t.Over := by
  rcases hs with hfinished | ⟨⟨response, hoffering⟩, houtbox⟩
  · refine ⟨.inl (h.of_finished hfinished).1, ?_⟩
    rintro response rfl
    cases h with
    | receive => exact ⟨hfinished, rfl⟩
  · constructor
    · cases h with
      | begin htask | wake htask => cases hoffering.symm.trans htask
      | hand htask =>
        cases hoffering.symm.trans htask
        rw [Execution.hand_of_offering hoffering houtbox]
        exact .inl rfl
      | receive _ hsome => cases houtbox.symm.trans hsome
      | terminate => exact .inl rfl
      | drop | next | resume | send | refuse | hangUp =>
        exact .inr ⟨⟨response, hoffering⟩, houtbox⟩
    · rintro received rfl
      cases h with
      | receive _ hsome => cases houtbox.symm.trans hsome

/-- What is received of a body that produces nothing any more is its last response. -/
theorem Run.over_of_received (h : Run s events t) (hs : s.Ending) {response : Response}
    (hreceived : .returned (.response response) ∈ events) : t.Over := by
  induction h with
  | refl => cases hreceived
  | step hstep hrun ih =>
    obtain ⟨ht, hover⟩ := hstep.ending hs
    rcases List.mem_cons.1 hreceived with heq | hmem
    · exact (hrun.over (hover response heq.symm)).1
    · exact ih ht hmem

/-- Whether the driver has received the response of the last move of the body. -/
def ExitReceived (events : List (Event σ)) : Prop :=
  ∃ before request? move after, events = before ++ .moved request? move :: after ∧
    move.state? = none ∧ .returned (.response move.response) ∈ after

theorem Run.over_of_exitReceived (h : Run s events t) (hs : s.Orderly)
    (hexit : ExitReceived events) : t.Over := by
  obtain ⟨before, request?, move, after, rfl, hlast, hreceived⟩ := hexit
  obtain ⟨s', hbefore, hrest⟩ := h.exists_of_append
  cases hrest with
  | @step _ s'' _ _ _ hstep hafter =>
    -- the body has the turn with its last move, so that nothing older is in flight any more
    have hoffering : s''.execution.task = .offering move.response none := by
      rw [← hlast, ← Move.task_eq]
      cases hstep with
      | begin htask => rw [Execution.begin_of_unstarted htask]
      | wake htask hinbox => rw [Execution.wake_of_waiting htask hinbox]
    have hturn := ((hbefore.orderly hs).step hstep).turn
    obtain ⟨-, houtbox, -⟩ := hturn.of_not_rests (by simp [hoffering, Task.Rests])
    exact hafter.over_of_received (.inr ⟨⟨_, hoffering⟩, houtbox⟩) hreceived

theorem Run.finished_of_terminated (h : Run s events t) {task : Task σ}
    (hterminated : .terminated task ∈ events) : t.execution.task = .finished := by
  obtain ⟨before, after, rfl⟩ := List.append_of_mem hterminated
  obtain ⟨s', -, hrest⟩ := h.exists_of_append
  cases hrest with
  | step hstep hafter =>
    cases hstep with
    | terminate => exact (hafter.of_finished rfl).1

/-! ## What a driver and its body can rely on -/

/-- What holds of a body and its driver, in whatever order they go on. One message at most is in
flight, and whoever is about to send finds its channel empty, so that one place in each is enough. The
responses that the driver has received are the first that the body has produced; behind them come the
one in flight and the one that is not handed over yet, or was not when the execution was terminated.
The requests that the body has received are the first that the driver has sent, and behind them comes
the one in flight. A call that is under way returns. Once the last response has been received, every
call returns that the body is gone; so it is after a termination, except that a response in flight at
that time can still be received. -/
theorem run_in_turns {body : Body σ W} {w : W} {events : List (Event σ)} {s : Exchange σ W}
    (h : Run (spawn body w) events s) :
    s.execution.inbox.toList.length + s.execution.outbox.toList.length ≤ 1 ∧
    (∀ response state?, s.execution.task = .offering response state? →
      s.execution.outbox = none) ∧
    (∀ request, s.driver = .sending request → s.dropped = false → s.execution.inbox = none) ∧
    events.flatMap Event.produced =
      events.flatMap Event.received ++ s.execution.outbox.toList ++ s.execution.task.offered ++
        events.flatMap Event.withheld ∧
    events.flatMap Event.submitted = events.flatMap Event.taken ++ s.execution.inbox.toList ∧
    (s.driver.Calls → s.Returns fun _ => True) ∧
    (ExitReceived events → s.Silent) ∧
    ∀ task, .terminated task ∈ events →
      (s.driver = .idle ∨ s.execution.outbox = none → s.Silent) ∧
      ∀ later t, Run s later t →
        later.flatMap Event.received <+: s.execution.outbox.toList := by
  have hspawn := orderly_spawn body w
  have hs := h.orderly hspawn
  refine ⟨?_, ?_, ?_, h.responses_eq, h.requests_eq, ?_, ?_, ?_⟩
  · cases hs.turn with
    | body _ hinbox houtbox _ | response _ hinbox houtbox _ | request _ hinbox houtbox _ =>
      simp [hinbox, houtbox]
    | driver _ _ houtbox _ => cases hinbox : s.execution.inbox <;> simp [houtbox]
  · intro response state? htask
    exact (hs.turn.of_not_rests (by simp [htask, Task.Rests])).2.1
  · intro request hsending
    exact (hs.turn.of_acts (by rw [hsending]; trivial)).2.1
  · exact fun hcalls => hs.returns hcalls fun _ _ _ _ _ => trivial
  · exact fun hexit => (h.over_of_exitReceived hspawn hexit).silent hs
  · intro task hterminated
    have hfinished := h.finished_of_terminated hterminated
    refine ⟨fun hquiet => ?_, fun later t hrun => ?_⟩
    · have houtbox : s.execution.outbox = none := by
        rcases hquiet with hidle | houtbox
        · exact (hs.turn.of_acts (by rw [hidle]; trivial)).2.2
        · exact houtbox
      exact Over.silent ⟨hfinished, houtbox⟩ hs
    · -- nothing is produced any more, so what is received was in the outbox
      have hresponses := hrun.responses_eq
      obtain ⟨ht, hproduced, hwithheld⟩ := hrun.of_finished hfinished
      rw [hfinished, ht, hproduced, hwithheld] at hresponses
      simp only [Task.offered, List.append_nil] at hresponses
      exact ⟨_, hresponses.symm⟩

/-- A body that suspends once is resumed, and its last response is received, or it is terminated
while the request is in flight. -/
theorem run_in_turns_of_listed :
    let last : Response := .output .null
    let body : Body (List Response) (List Request) := Body.listed [.poll {}] (.exit last)
    let request : Request := { function := "f", directive := .pollResult {} }
    let resumed : List (Event (List Response)) :=
      [.called none, .moved none (.suspend (.poll {}) []), .handed,
        .returned (.response (.poll {})), .called (some request), .sent request]
    let exited : Exchange (List Response) (List Request) :=
      { execution := { body, task := .finished }, world := [request], driver := .idle }
    let stopped : Exchange (List Response) (List Request) :=
      { execution := { body, task := .finished, inbox := some request }, world := [],
        driver := .receiving }
    (Run (spawn body []) (resumed ++ [.moved (some request) (.exit last), .handed,
        .returned (.response last)]) exited ∧ exited.Silent) ∧
      Run (spawn body []) (resumed ++ [.terminated (.waiting [])]) stopped ∧ stopped.Silent := by
  intro last body request resumed exited stopped
  have hresumed : Run (spawn body []) resumed
      { execution := { body, task := .waiting [], inbox := some request }, world := [],
        driver := .receiving } :=
    .step (.next rfl) <| .step (.begin rfl) <| .step (.hand rfl rfl) <|
      .step (.receive rfl rfl) <| .step (.resume request rfl) <| .step (.send rfl rfl rfl) <| .refl _
  have hexited := hresumed.append (u := exited) <| .step (.wake rfl rfl) <|
    .step (.hand rfl rfl) <| .step (.receive rfl rfl) <| .refl _
  have hstopped := hresumed.append (u := stopped) <| .step (.terminate _) <| .refl _
  obtain ⟨-, -, -, -, -, -, hexit, -⟩ := run_in_turns hexited
  obtain ⟨-, -, -, -, -, -, -, hterminated⟩ := run_in_turns hstopped
  refine ⟨⟨hexited, hexit ?_⟩, hstopped, (hterminated (.waiting []) (by simp)).1 (.inr rfl)⟩
  exact ⟨resumed, some request, .exit last, [.handed, .returned (.response last)], rfl, rfl,
    by simp [Move.response]⟩

end Exchange

end Resumable
