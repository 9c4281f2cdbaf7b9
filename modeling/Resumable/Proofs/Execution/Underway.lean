import Resumable.Host.Function
import Resumable.Proofs.Await.Absorption
import Resumable.Proofs.Execution.Process

/-!
# Executions under way

Between two requests, an execution of a typed function waits for results of an operation whose calls
are handed out (`Execution.Underway`). Resuming it ends it, or leaves it under way: with the same
operation, which has received the request, or with one that waits for the ids just drawn
(`Process.resume_cases`). A request that the operation absorbs is answered by a poll without calls,
and changes nothing (`Execution.Underway.resume_absorbed`).
-/

namespace Resumable

variable {ω : Type}

/-! ## Suspended processes -/

namespace Process

/-- A suspended process that waits for results of calls which it has handed out, and exits in the
end. -/
structure Waiting.Underway (s : Waiting ω) : Prop where
  pending : s.operation.pending ≠ []
  handedOut : s.operation.outgoing = []
  exits : ∀ answer, (s.next answer).Exits

/-- The poll in which a suspended process waits for results of calls that are handed out. -/
def Waiting.poll (s : Waiting ω) : Poll where
  minResults := s.operation.count
  maxResults := s.operation.count
  maxWait := s.operation.maxWait

/-- A process that goes on exits, or waits for the ids that it draws. -/
theorem run_moves (maxWait : Span) {p : Process ω Response} (hexits : p.Exits) (w : Shared ω) :
    ((p.run maxWait w).1.response.isExit = true ∧ (p.run maxWait w).1.state? = none) ∨
    ∃ s, (p.run maxWait w).1.state? = some s ∧ (p.run maxWait w).1.response.isExit = false ∧
      s.Underway ∧ s.operation.pending.map (·.1) = (w.ids.drawMany p.draws).1 := by
  rcases run_cases maxWait p w with
    ⟨-, hstate, -, hexit⟩ | ⟨strategy, calls, next, hcalls, hdraws, hmove, -, hnext⟩
  · exact Or.inl ⟨hexit hexits, hstate⟩
  · have hpending : (Operation.start strategy maxWait calls w.ids).1.poll.2.pending.map (·.1) =
        (w.ids.drawMany p.draws).1 := by
      rw [hdraws]
      exact List.zipIdx_map_fst 0 _
    refine Or.inr ⟨_, congrArg Move.state? hmove, ?_, ⟨?_, rfl, hnext hexits⟩, hpending⟩
    · rw [hmove]
      rfl
    · -- as many ids are pending as there are calls
      intro hnil
      rw [hnil, List.map_nil] at hpending
      have hlength := congrArg List.length hpending
      rw [Ids.length_drawMany, hdraws] at hlength
      exact hcalls (List.length_eq_zero_iff.1 hlength.symm)

/-- A suspended process that is resumed exits, goes on waiting for the same operation, which has
received the request, or waits for the ids that it draws. -/
theorem resume_cases (maxWait : Span) {s : Waiting ω} (h : s.Underway) (request : Request)
    (w : Shared ω) :
    let move := (resume maxWait s request w).1
    (move.response.isExit = true ∧ move.state? = none) ∨
    ∃ s', move.state? = some s' ∧ move.response.isExit = false ∧ s'.Underway ∧
      (s.operation.receive (some request) = .waiting s'.operation ∨
        s'.operation.pending.map (·.1) = (w.ids.drawMany (s.draws request)).1) := by
  unfold resume Waiting.draws
  cases hreceive : s.operation.receive (some request) with
  | waiting op =>
    have houtgoing : op.outgoing = [] := by
      rw [Operation.receive_waiting hreceive]
      exact h.handedOut
    -- the calls went out with the first poll, so another one leaves the operation as it is
    have hop : op.poll.2 = op := by
      unfold Operation.poll
      rw [← houtgoing]
    have hpending : op.pending ≠ [] := Operation.pending_ne_nil_of_receive hreceive
    refine Or.inr ⟨⟨op.poll.2, s.next⟩, rfl, rfl, ⟨hpending, rfl, h.exits⟩, ?_⟩
    rw [hop]
    exact Or.inl rfl
  | finished answer =>
    rcases run_moves maxWait (h.exits answer) w with hexit | ⟨s', hstate, hpoll, hunderway, hpending⟩
    · exact Or.inl hexit
    · exact Or.inr ⟨s', hstate, hpoll, hunderway, Or.inr hpending⟩

end Process

/-! ## Executions -/

namespace Execution

open Process

/-- An execution of a process that waits in a state under way. -/
structure Underway (maxWait : Span) (e : Execution (Waiting ω) (Shared ω)) (s : Waiting ω) :
    Prop where
  parked : ∃ p, e = .parked (Process.body maxWait p) (some s)
  waiting : s.Underway

variable {maxWait : Span} {e : Execution (Waiting ω) (Shared ω)} {s s' : Waiting ω}

theorem Underway.task_eq (h : e.Underway maxWait s) : e.task = .waiting s := by
  obtain ⟨⟨p, rfl⟩, -⟩ := h
  rfl

theorem Underway.unique (h : e.Underway maxWait s) (h' : e.Underway maxWait s') : s = s' :=
  Task.waiting.inj (h.task_eq.symm.trans h'.task_eq)

/-- A request that the operation absorbs is answered by a poll without calls, and changes nothing. -/
theorem Underway.resume_absorbed (h : e.Underway maxWait s) {request : Request} {result : PollResult}
    (hdirective : request.directive = .pollResult result) (herror : result.error = none)
    (habsorbs : s.operation.Absorbs request) (w : Shared ω) :
    e.resume request w = (.response (.poll s.poll), e, w) := by
  obtain ⟨⟨p, rfl⟩, hpending, houtgoing, -⟩ := h
  have hreceive := Operation.receive_of_absorbs hdirective herror hpending habsorbs
  have hmove : Process.resume maxWait s request w = (.suspend (.poll s.poll) s, w) := by
    -- no call is left to hand out, so polling changes nothing
    obtain ⟨op, next⟩ := s
    obtain ⟨strategy, maxWait, pending, slots, outgoing⟩ := op
    obtain rfl : outgoing = [] := houtgoing
    simp only [Process.resume, hreceive]
    rfl
  have hbody : (Process.body maxWait p).resume s request w = (.suspend (.poll s.poll) s, w) := hmove
  rw [resume_parked, hbody]
  rfl

end Execution

/-! ## Typed functions -/

/-- Whether every execution of a function that ends exits. -/
def Function.Exits (f : Function ω) : Prop := ∀ ctx input, (f.run ctx input).Exits

theorem TypedFunction.isExit_respond {ι ο : Type} (f : TypedFunction ω ι ο)
    (answer : Except HandlerError ο) : (f.respond answer).isExit = true := by
  unfold respond
  split
  · split <;> rfl
  · rfl

/-- A typed function ends in an exit or a panic only. -/
theorem TypedFunction.toFunction_exits {ι ο : Type} (f : TypedFunction ω ι ο) :
    f.toFunction.Exits := by
  intro ctx boxed
  simp only [toFunction]
  cases boxed.unbox f.input with
  | error e => rfl
  | ok value => exact Process.Exits.bind fun answer => f.isExit_respond answer

end Resumable
