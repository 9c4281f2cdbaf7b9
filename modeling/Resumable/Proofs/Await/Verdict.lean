import Resumable.Proofs.Await.Attribution
import Resumable.Proofs.Await.Receive

/-!
# Verdicts on answers

An operation stops at the first answer that decides it. `verdict` says what an answer decides, from
the strategy, the ids of the calls and everything delivered before; it knows nothing of what the
operation keeps. The operation after some results is `Operation.tracking`, its `receive` follows the
verdict (`receive_tracking`), and so a run over a script `Ends` at the first verdict
(`run_tracking_ends`).
-/

namespace Resumable

namespace Operation

variable {strategy : Strategy} {drawn : List UInt64} {seen batch : List CallResult}

/-- What a batch decides, by the slots after it and the results it recorded: a failure ends `all`, a
success ends `any`, and the last slot ends both. -/
def batchVerdict (strategy : Strategy) (slots : Slots) (added : List CallResult) :
    Option (Except AwaitError Slots) :=
  match strategy with
  | .all =>
    if added.any (·.isFailure) then some (.error (failure slots))
    else if slots.all (·.isSome) then some (.ok slots) else none
  | .any =>
    if added.any (!·.isFailure) then some (.ok slots)
    else if slots.all (·.isSome) then some (.error (failure slots)) else none

/-- What a request decides after the results `seen`. -/
def verdict (strategy : Strategy) (drawn : List UInt64) (seen : List CallResult)
    (request : Request) : Option (Except AwaitError Slots) :=
  match request.directive with
  | .input _ => some (.error .unexpectedRequest)
  | .pollResult result =>
    match result.error with
    | some error => some (.error (.dispatch (attributed drawn seen) error))
    | none =>
      batchVerdict strategy (attributed drawn (seen ++ result.results))
        (recorded drawn seen result.results)

/-- None of the requests decides, each after what was delivered before it. -/
def Undecided (strategy : Strategy) (drawn : List UInt64) : List CallResult → List Request → Prop
  | _, [] => True
  | seen, request :: rest =>
    verdict strategy drawn seen request = none ∧
      Undecided strategy drawn (seen ++ request.delivered) rest

/-- How a run over a script ends, after the results `seen`: at the first request that decides, or
with the driver gone, whose last poll is the one that fails. Every request answers one poll. -/
inductive Ends (strategy : Strategy) (drawn : List UInt64) (seen : List CallResult)
    (script : List Request) (run : Run) : Prop where
  | decided (used : List Request) (request : Request) (rest : List Request)
      (hscript : script = used ++ request :: rest)
      (hused : Undecided strategy drawn seen used)
      (hverdict : verdict strategy drawn (seen ++ delivered used) request = some run.answer)
      (hpolls : run.polls.length = used.length + 1) (hleft : run.left = rest)
  | detached (hscript : Undecided strategy drawn seen script)
      (hanswer : run.answer = .error .detached)
      (hpolls : run.polls.length = script.length + 1) (hleft : run.left = [])

/-- The operation as it stands after the results `seen` for calls under the drawn ids. -/
def tracking (op : Operation) (drawn : List UInt64) (seen : List CallResult) : Operation :=
  { op with pending := awaited drawn seen, slots := attributed drawn seen }

/-! ## What a verdict says -/

/-- The four ways in which a batch decides. -/
theorem batchVerdict_cases {slots : Slots} {added : List CallResult}
    {answer : Except AwaitError Slots} (h : batchVerdict strategy slots added = some answer) :
    (strategy = .all ∧ answer = .error (failure slots) ∧ ∃ r ∈ added, r.isFailure = true) ∨
    (strategy = .any ∧ answer = .ok slots ∧ ∃ r ∈ added, r.isFailure = false) ∨
    (strategy = .all ∧ answer = .ok slots ∧ (∀ r ∈ added, r.isFailure = false) ∧
      ∀ slot ∈ slots, slot.isSome = true) ∨
    (strategy = .any ∧ answer = .error (failure slots) ∧ (∀ r ∈ added, r.isFailure = true) ∧
      ∀ slot ∈ slots, slot.isSome = true) := by
  cases strategy with
  | all =>
    by_cases hfailed : ∃ r ∈ added, r.isFailure = true
    · simp only [batchVerdict, List.any_eq_true, hfailed, if_true, Option.some.injEq] at h
      exact Or.inl ⟨rfl, h.symm, hfailed⟩
    · simp only [batchVerdict, List.any_eq_true, hfailed, if_false, List.all_eq_true,
        Option.ite_none_right_eq_some, Option.some.injEq] at h
      exact Or.inr (Or.inr (Or.inl ⟨rfl, h.2.symm, by simpa using hfailed, h.1⟩))
  | any =>
    by_cases hsucceeded : ∃ r ∈ added, r.isFailure = false
    · simp only [batchVerdict, List.any_eq_true, Bool.not_eq_true', hsucceeded, if_true,
        Option.some.injEq] at h
      exact Or.inr (Or.inl ⟨rfl, h.symm, hsucceeded⟩)
    · simp only [batchVerdict, List.any_eq_true, Bool.not_eq_true', hsucceeded, if_false,
        List.all_eq_true, Option.ite_none_right_eq_some, Option.some.injEq] at h
      exact Or.inr (Or.inr (Or.inr ⟨rfl, h.2.symm, by simpa using hsucceeded, h.1⟩))

/-- What a batch records without deciding: successes under `all`, failures under `any`. -/
theorem isFailure_of_batchVerdict_eq_none {slots : Slots} {added : List CallResult}
    (h : batchVerdict strategy slots added = none) :
    ∀ r ∈ added, r.isFailure = decide (strategy = .any) := by
  intro r hr
  cases strategy with
  | all =>
    by_contra hfailure
    have hany : added.any (·.isFailure) = true :=
      List.any_eq_true.2 ⟨r, hr, by simpa using hfailure⟩
    simp [batchVerdict, hany] at h
  | any =>
    by_contra hsuccess
    have hany : added.any (!·.isFailure) = true :=
      List.any_eq_true.2 ⟨r, hr, by simpa using hsuccess⟩
    simp [batchVerdict, hany] at h

/-- A request is an input, reports that nothing was dispatched, or brings a batch. -/
theorem verdict_cases (strategy : Strategy) (drawn : List UInt64) (seen : List CallResult)
    (request : Request) :
    verdict strategy drawn seen request = some (.error .unexpectedRequest) ∨
    (∃ error, verdict strategy drawn seen request =
        some (.error (.dispatch (attributed drawn seen) error)) ∧ request.delivered = []) ∨
    verdict strategy drawn seen request =
      batchVerdict strategy (attributed drawn (seen ++ request.delivered))
        (recorded drawn seen request.delivered) := by
  unfold verdict Request.delivered
  cases request.directive with
  | input boxed => exact Or.inl rfl
  | pollResult result =>
    cases herror : result.error with
    | some error => exact Or.inr (Or.inl ⟨error, by simp only [herror], by simp [herror]⟩)
    | none => exact Or.inr (Or.inr (by simp [herror]))

/-! ## Receiving follows the verdict -/

theorem receiveBatch_tracking (hdup : drawn.Nodup) (op : Operation) (results : List CallResult) :
    (op.tracking drawn seen).receiveBatch results =
      match batchVerdict op.strategy (attributed drawn (seen ++ results))
          (recorded drawn seen results) with
      | some answer => .finished answer
      | none => .waiting (op.tracking drawn (seen ++ results)) := by
  have htally : results.foldl Tally.record
      { pending := awaited drawn seen, slots := attributed drawn seen } =
        tallyAt drawn seen results := by
    have h : results.foldl Tally.record (tallyAt drawn seen []) =
        tallyAt drawn seen ([] ++ results) :=
      foldl_record_tallyAt hdup results
    simpa [tallyAt] using h
  simp only [receiveBatch, tracking, batchVerdict, htally, tallyAt, isEmpty_awaited]
  cases op.strategy with
  | all =>
    simp only
    split
    · rfl
    · split <;> rfl
  | any =>
    simp only
    split
    · rfl
    · split <;> rfl

/-- An operation that tracks its results answers each request with its verdict. -/
theorem receive_tracking (hdup : drawn.Nodup) (op : Operation) (request : Request) :
    (op.tracking drawn seen).receive (some request) =
      match verdict op.strategy drawn seen request with
      | some answer => .finished answer
      | none => .waiting (op.tracking drawn (seen ++ request.delivered)) := by
  simp only [receive, verdict, Request.delivered]
  cases request.directive with
  | input boxed => rfl
  | pollResult result =>
    cases herror : result.error with
    | some error => simp only [herror]; rfl
    | none => simp [herror, receiveBatch_tracking hdup]

theorem start_tracking (strategy : Strategy) (maxWait : Span) (calls : List Call) (ids : Ids) :
    let drawn := (ids.drawMany calls.length).1
    (start strategy maxWait calls ids).1 =
      (start strategy maxWait calls ids).1.tracking drawn [] := by
  simp only [start, tracking, awaited, attributed, CallResult.firstFor?_nil, Option.isNone_none,
    List.filter_true, List.map_const', Ids.length_drawMany]

/-- A run ends at the first verdict. -/
theorem run_tracking_ends (hdup : drawn.Nodup) (op : Operation) (script : List Request) :
    Ends op.strategy drawn seen script ((op.tracking drawn seen).run script) := by
  -- an operation that goes on tracks one request more, so the results seen so far are general
  induction script generalizing op seen with
  | nil => exact .detached trivial rfl rfl rfl
  | cons request rest ih =>
    have hreceive : ((op.tracking drawn seen).poll.2).receive (some request) = _ :=
      receive_tracking hdup { op with outgoing := [] } request
    unfold run
    rw [hreceive]
    cases hverdict : verdict op.strategy drawn seen request with
    | some answer =>
      exact .decided [] request rest rfl trivial (by simpa using hverdict) rfl rfl
    | none =>
      have hrest : Ends op.strategy drawn (seen ++ request.delivered) rest _ :=
        ih { op with outgoing := [] }
      cases hrest with
      | decided used next later hscript hused hnext hpolls hleft =>
        refine .decided (request :: used) next later (by rw [hscript]; rfl) ⟨hverdict, hused⟩
          ?_ ?_ hleft
        · simpa [List.append_assoc] using hnext
        · simpa using hpolls
      | detached hscript hanswer hpolls hleft =>
        exact .detached ⟨hverdict, hscript⟩ hanswer (by simpa using hpolls) hleft

end Operation

end Resumable
