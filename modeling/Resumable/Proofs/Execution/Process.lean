import Resumable.Execution.Process
import Resumable.Proofs.Await.Dispatch
import Resumable.Proofs.Execution.Parked

/-!
# Processes between their suspensions

A process goes on until it suspends on an operation with calls or ends (`Process.run_cases`). It draws
ids for that operation and for nothing else, so what it does depends on its generator only through
the ids that it is given, and it does the same in a world of its own that gives it these ids
(`Process.run_giving`, `Execution.resume_giving`).
-/

namespace Resumable

variable {ω α β : Type}

/-- A world of its own, whose generator gives consecutive ids from the first of these on. -/
def Shared.giving (ids : List UInt64) : Shared ω := ⟨.startingAt (ids.headD 0), []⟩

namespace Process

/-! ## Drawn ids -/

/-- The number of ids that a process draws before it suspends or ends. -/
def draws : Process ω α → Nat
  | done _ | panic _ => 0
  | note _ next => next.draws
  | await _ calls next => if calls.isEmpty then (next (.ok [])).draws else calls.length

/-- The number of ids that a suspended process draws when it is resumed with a request. -/
def Waiting.draws (s : Waiting ω) (request : Request) : Nat :=
  match s.operation.receive (some request) with
  | .waiting _ => 0
  | .finished answer => (s.next answer).draws

/-! ## Ends -/

/-- Whether every end that a process may come to is an exit or a panic. -/
def Exits : Process ω Response → Prop
  | done response => response.isExit = true
  | panic _ => True
  | note _ next => next.Exits
  | await _ _ next => ∀ answer, (next answer).Exits

theorem Exits.bind {p : Process ω α} {f : α → Process ω Response} (h : ∀ a, (f a).Exits) :
    (p.bind f).Exits := by
  induction p with
  | done a => exact h a
  | panic payload => exact trivial
  | note entry next ih => exact ih
  | await strategy calls next ih => exact ih

/-! ## Going on -/

/-- A process that goes on ends without a draw, or suspends on an operation that it has just started
with calls. -/
theorem run_cases (maxWait : Span) (p : Process ω Response) (w : Shared ω) :
    (p.draws = 0 ∧ (p.run maxWait w).1.state? = none ∧ (p.run maxWait w).2.ids = w.ids ∧
      (p.Exits → (p.run maxWait w).1.response.isExit = true)) ∨
    ∃ strategy calls next, calls ≠ [] ∧ p.draws = calls.length ∧
      (p.run maxWait w).1 = suspendOn (Operation.start strategy maxWait calls w.ids).1 next ∧
      (p.run maxWait w).2.ids = w.ids.after calls.length ∧
      (p.Exits → ∀ answer, (next answer).Exits) := by
  induction p generalizing w with
  | done response => exact Or.inl ⟨rfl, rfl, rfl, id⟩
  | panic payload => exact Or.inl ⟨rfl, rfl, rfl, fun _ => rfl⟩
  | note entry next ih => exact ih { w with notes := w.notes ++ [entry] }
  | await strategy calls next ih =>
    by_cases hcalls : calls = []
    · -- an operation without calls is answered at once
      subst hcalls
      rcases ih (.ok []) w with ⟨hdraws, hstate, hids, hexits⟩ | hsuspends
      · exact Or.inl ⟨hdraws, hstate, hids, fun h => hexits (h _)⟩
      · obtain ⟨strategy', calls, next', hne, hdraws, hmove, hids, hexits⟩ := hsuspends
        exact Or.inr ⟨strategy', calls, next', hne, hdraws, hmove, hids, fun h => hexits (h _)⟩
    · have hempty : calls.isEmpty = false := by simpa using hcalls
      refine Or.inr ⟨strategy, calls, next, hcalls, ?_, ?_, ?_, id⟩
      · simp [draws, hempty]
      · simp [run, hempty]
      · simp [run, hempty, Operation.start_snd]

theorem run_ids (maxWait : Span) (p : Process ω Response) (w : Shared ω) :
    (p.run maxWait w).2.ids = w.ids.after p.draws := by
  rcases run_cases maxWait p w with ⟨hdraws, -, hids, -⟩ | ⟨_, _, _, -, hdraws, -, hids, -⟩
  · rw [hids, hdraws, Ids.after_zero]
  · rw [hids, hdraws]

/-- What a process does depends on its generator alone, and only if it draws. -/
theorem run_congr (maxWait : Span) (p : Process ω Response) {w w' : Shared ω}
    (h : p.draws ≠ 0 → w.ids = w'.ids) : (p.run maxWait w).1 = (p.run maxWait w').1 := by
  induction p generalizing w w' with
  | done response => rfl
  | panic payload => rfl
  | note entry next ih =>
    apply ih
    exact h
  | await strategy calls next ih =>
    by_cases hcalls : calls = []
    · subst hcalls
      -- without calls nothing is drawn here, so the ids matter to what comes next only
      exact ih (.ok []) h
    · have hids : w.ids = w'.ids := by
        apply h
        simp [draws, hcalls]
      have hempty : calls.isEmpty = false := by simpa using hcalls
      simp [run, hempty, hids]

theorem giving_ids {w : Shared ω} {count : Nat} (h : count ≠ 0) :
    (Shared.giving (w.ids.drawMany count).1 : Shared ω).ids = w.ids := by
  -- the first of the ids is the one that the generator gives next
  obtain ⟨n, rfl⟩ := Nat.exists_eq_succ_of_ne_zero h
  rfl

/-- A process does the same in a world of its own that gives it the ids which it draws. -/
theorem run_giving (maxWait : Span) (p : Process ω Response) (w : Shared ω) :
    (p.run maxWait (.giving (w.ids.drawMany p.draws).1)).1 = (p.run maxWait w).1 :=
  run_congr maxWait p giving_ids

theorem resume_ids (maxWait : Span) (s : Waiting ω) (request : Request) (w : Shared ω) :
    (resume maxWait s request w).2.ids = w.ids.after (s.draws request) := by
  unfold resume Waiting.draws
  cases s.operation.receive (some request) with
  | waiting op => exact w.ids.after_zero.symm
  | finished answer => exact run_ids maxWait _ w

theorem resume_giving (maxWait : Span) (s : Waiting ω) (request : Request) (w : Shared ω) :
    (resume maxWait s request (.giving (w.ids.drawMany (s.draws request)).1)).1 =
      (resume maxWait s request w).1 := by
  unfold resume Waiting.draws
  cases s.operation.receive (some request) with
  | waiting op => rfl
  | finished answer => exact run_giving maxWait _ w

end Process

namespace Execution

open Process

variable {maxWait : Span} {p : Process ω Response}

/-- The number of ids that an execution of a process draws when it is resumed with a request. -/
def draws (e : Execution (Waiting ω) (Shared ω)) (request : Request) : Nat :=
  match e.task with
  | .waiting s => s.draws request
  | _ => 0

theorem resume_ids (s? : Option (Waiting ω)) (request : Request) (w : Shared ω) :
    ((parked (Process.body maxWait p) s?).resume request w).2.2.ids =
      w.ids.after ((parked (Process.body maxWait p) s?).draws request) := by
  cases s? with
  | none => exact w.ids.after_zero.symm
  | some s =>
    rw [resume_parked]
    exact Process.resume_ids maxWait s request w

/-- A parked execution of a process replies the same and is left the same in a world of its own that
gives it the ids which it draws. -/
theorem resume_giving (s? : Option (Waiting ω)) (request : Request) (w : Shared ω) :
    let e := parked (Process.body maxWait p) s?
    let alone := e.resume request (.giving (w.ids.drawMany (e.draws request)).1)
    alone.1 = (e.resume request w).1 ∧ alone.2.1 = (e.resume request w).2.1 := by
  cases s? with
  | none => exact ⟨rfl, rfl⟩
  | some s =>
    have hmove := Process.resume_giving maxWait s request w
    simp only [resume_parked]
    exact ⟨congrArg (Reply.response ·.response) hmove, congrArg (parked _ ·.state?) hmove⟩

end Execution

end Resumable
