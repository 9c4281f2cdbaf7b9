import Resumable.Proofs.Execution.Driven

/-!
# Played processes

A process is played over a script of requests: each of its operations takes the requests that answer
its polls, and the driver goes away after the last one (`Process.play`). A sequence plays as its parts
one after the other (`Process.play_bind`), and a process that reaches its rest with some requests plays
over them as a driven execution goes on, up to that rest (`Process.Reaches.play`).
-/

namespace Resumable

variable {ω α β : Type}

/-- Requests that an operation answers at the last of them are what its run takes of a script. -/
theorem Operation.run_of_answers {op : Operation} {answering : List Request}
    {answer : Except AwaitError Slots} (h : op.Answers answering answer) :
    ∃ polls, ∀ script, op.run (answering ++ script) = ⟨answer, polls, script⟩ := by
  induction h with
  | @now op request answer hreceive =>
    refine ⟨[op.poll.1], fun script => ?_⟩
    rw [List.singleton_append, run, hreceive]
  | @later op op' request rest answer hreceive _ ih =>
    obtain ⟨polls, hrun⟩ := ih
    refine ⟨op.poll.1 :: polls, fun script => ?_⟩
    rw [List.cons_append, run, hreceive]
    simp only [hrun]

/-- What became of a process that was played over a script: how it ended, the polls it sent, the
requests it left over, and the world it left behind. -/
structure Process.Played (ω α : Type) where
  ending : Except Panic α
  polls : List Response
  left : List Request
  world : Shared ω

namespace Process

/-- The play of a rest, before which polls were sent. -/
def Played.after (polls : List Response) (rest : Played ω α) : Played ω α :=
  { rest with polls := polls ++ rest.polls }

theorem Played.after_after (polls more : List Response) (rest : Played ω α) :
    (rest.after more).after polls = rest.after (polls ++ more) := by
  simp [after]

/-- One play after another, over what that left; a panic is the end of both. -/
def Played.andThen (first : Played ω α) (next : α → Shared ω → List Request → Played ω β) :
    Played ω β :=
  match first.ending with
  | .ok a => (next a first.world first.left).after first.polls
  | .error payload => ⟨.error payload, first.polls, first.left, first.world⟩

theorem Played.after_andThen (polls : List Response) (first : Played ω α)
    (next : α → Shared ω → List Request → Played ω β) :
    (first.after polls).andThen next = (first.andThen next).after polls := by
  unfold andThen
  show (match first.ending with | .ok a => _ | .error payload => _) = _
  cases first.ending with
  | ok a => exact (after_after _ _ _).symm
  | error payload => rfl

/-- Plays a process over the requests that answer the polls of its operations. -/
def play (maxWait : Span) : Process ω α → Shared ω → List Request → Played ω α
  | done a, w, script => ⟨.ok a, [], script, w⟩
  | panic payload, w, script => ⟨.error payload, [], script, w⟩
  | note entry next, w, script => next.play maxWait { w with notes := w.notes ++ [entry] } script
  | await strategy calls next, w, script =>
    let outcome := Operation.awaitCalls strategy maxWait calls w.ids script
    ((next outcome.1.answer).play maxWait { w with ids := outcome.2 } outcome.1.left).after
      outcome.1.polls

/-- A sequence plays as its parts, one after the other. -/
theorem play_bind (maxWait : Span) (p : Process ω α) (f : α → Process ω β) (w : Shared ω)
    (script : List Request) :
    (p.bind f).play maxWait w script =
      (p.play maxWait w script).andThen fun a => (f a).play maxWait := by
  induction p generalizing w script with
  | done a => rfl
  | panic payload => rfl
  | note entry next ih => exact ih _ _
  | await strategy calls next ih =>
    simp only [bind, play, ih, Played.after_andThen]

/-- A process that reaches its rest with requests plays over them as the rest does behind them. -/
theorem Reaches.play {maxWait : Span} {p q : Process ω α} {w w' : Shared ω}
    {requests : List Request} (h : p.Reaches maxWait w requests q w') :
    ∃ polls, ∀ script,
      p.play maxWait w (requests ++ script) = (q.play maxWait w' script).after polls := by
  induction h with
  | here p w => exact ⟨[], fun script => rfl⟩
  | note _ ih => exact ih
  | awaitNone _ ih => exact ih
  | @await strategy calls next answer q w w' answering requests hcalls hanswers _ ih =>
    obtain ⟨polls, hrun⟩ := Operation.run_of_answers hanswers
    obtain ⟨more, hplay⟩ := ih
    refine ⟨polls ++ more, fun script => ?_⟩
    rw [Process.play, Operation.awaitCalls_of_ne_nil strategy maxWait hcalls, List.append_assoc,
      hrun]
    simp only [hplay, Played.after_after]

/-- A wait plays as its operation runs. -/
theorem play_awaitCalls (maxWait : Span) (strategy : Strategy) (calls : List Call) (w : Shared ω)
    (script : List Request) :
    let outcome := Operation.awaitCalls strategy maxWait calls w.ids script
    (awaitCalls strategy calls).play maxWait w script =
      ⟨.ok outcome.1.answer, outcome.1.polls, outcome.1.left, { w with ids := outcome.2 }⟩ := by
  simp [awaitCalls, play, Played.after]

end Process

end Resumable
