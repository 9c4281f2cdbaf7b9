import Resumable.Proofs.Await.Receive
import Resumable.Proofs.Ids
import Resumable.Residents

/-!
# Isolation of operations

Await operations and tables of residents draw their ids from one generator. As long as all of them
together draw fewer than 2^64 ids, no id is drawn twice, and so a result for an id of one user is
never pending in another: taking such results out of the answers to an operation changes nothing
about it (`stale_results_ignored`). An operation draws all its ids when it starts, so the users of a
generator come one after another, however their answers interleave later and whatever becomes of
them.
-/

namespace Resumable

/-- The request without the results for some ids. -/
def Request.without (ids : List UInt64) (request : Request) : Request :=
  match request.directive with
  | .input _ => request
  | .pollResult result =>
    { request with
      directive := .pollResult
        (result.withResults (result.results.filter fun r => !ids.contains r.correlationId)) }

namespace Operation

variable {foreign : List UInt64}

/-! ## Results that are not pending -/

theorem record_of_not_pending {t : Tally} {r : CallResult}
    (h : ∀ entry ∈ t.pending, entry.1 ≠ r.correlationId) : t.record r = t := by
  have hlookup : t.pending.lookup r.correlationId = none :=
    List.lookup_eq_none_iff.2 fun entry hentry => bne_iff_ne.2 (h entry hentry).symm
  unfold Tally.record
  rw [hlookup]

theorem foldl_record_filter {t : Tally} (h : ∀ entry ∈ t.pending, entry.1 ∉ foreign)
    (results : List CallResult) :
    (results.filter fun r => !foreign.contains r.correlationId).foldl Tally.record t =
      results.foldl Tally.record t := by
  induction results generalizing t with
  | nil => rfl
  | cons r rest ih =>
    by_cases hr : r.correlationId ∈ foreign
    · have hkeep : t.record r = t :=
        record_of_not_pending fun entry hentry heq => h entry hentry (heq ▸ hr)
      rw [List.filter_cons_of_neg (by simpa using hr), List.foldl_cons, hkeep, ih h]
    · -- a result that is kept only ever takes ids away from the pending ones
      rw [List.filter_cons_of_pos (by simpa using hr), List.foldl_cons, List.foldl_cons]
      exact ih fun entry hentry => h entry (pending_record_subset t r hentry)

/-- An operation receives a request as it does without the results for ids that are not pending. -/
theorem receive_without {op : Operation} (h : ∀ entry ∈ op.pending, entry.1 ∉ foreign)
    (request : Request) :
    op.receive (some (request.without foreign)) = op.receive (some request) := by
  unfold Request.without
  cases hdirective : request.directive with
  | input boxed => rfl
  | pollResult result =>
    have htally : (result.results.filter fun r => !foreign.contains r.correlationId).foldl
        Tally.record { pending := op.pending, slots := op.slots } = op.tallied result.results :=
      foldl_record_filter h result.results
    simp only [receive, hdirective, PollResult.withResults, receiveBatch, htally]
    rfl

/-- A run over such requests is the same run. -/
theorem run_without {op : Operation} (h : ∀ entry ∈ op.pending, entry.1 ∉ foreign)
    (script : List Request) :
    op.run (script.map (·.without foreign)) =
      { op.run script with left := (op.run script).left.map (·.without foreign) } := by
  induction script generalizing op with
  | nil => rfl
  | cons request rest ih =>
    have hreceive : op.poll.2.receive (some (request.without foreign)) =
        op.poll.2.receive (some request) := by
      refine receive_without ?_ request
      exact h
    rw [List.map_cons]
    unfold run
    rw [hreceive]
    cases hnext : op.poll.2.receive (some request) with
    | finished answer => rfl
    | waiting op' =>
      have hpending : op'.pending ⊆ op.pending := by
        rw [receive_waiting hnext]
        exact pending_foldl_record_subset _ _
      simp only [ih fun entry hentry => h entry (hpending hentry)]

/-- An operation is the same without results for ids that it did not draw. -/
theorem awaitCalls_without (strategy : Strategy) (maxWait : Span) (calls : List Call) (ids : Ids)
    (h : ∀ id ∈ (ids.drawMany calls.length).1, id ∉ foreign) (script : List Request) :
    let run := (awaitCalls strategy maxWait calls ids script).1
    (awaitCalls strategy maxWait calls ids (script.map (·.without foreign))).1 =
      { run with left := run.left.map (·.without foreign) } := by
  by_cases hne : calls = []
  · subst hne
    rfl
  · simp only [awaitCalls_of_ne_nil strategy maxWait hne]
    refine run_without (fun entry hentry => h entry.1 ?_) script
    exact List.fst_mem_of_mem_zipIdx hentry

end Operation

/-! ## Users of one generator -/

/-- A user of a generator: an await operation, over the requests that answer its polls, or the entry
of a resident in a table, whatever the table holds by then. -/
inductive Drawing (ρ : Type) where
  | await (strategy : Strategy) (maxWait : Span) (calls : List Call) (script : List Request)
  | register (table : Residents ρ) (resident : ρ)

namespace Drawing

variable {ρ : Type}

/-- The generator after a user. -/
def next (ids : Ids) : Drawing ρ → Ids
  | await strategy maxWait calls script =>
    (Operation.awaitCalls strategy maxWait calls ids script).2
  | register table resident => (table.register resident ids).2.2

/-- The number of ids that a user draws. -/
def count (ids : Ids) : Drawing ρ → Nat
  | await _ _ calls _ => calls.length
  | register table _ => Ids.drawsFree table.contains table.size ids

/-- The ids that a user draws. -/
def drawn (ids : Ids) (d : Drawing ρ) : List UInt64 := (ids.drawMany (d.count ids)).1

/-- The generator after several users, in the order in which they draw. -/
def nextAll : Ids → List (Drawing ρ) → Ids
  | ids, [] => ids
  | ids, d :: rest => nextAll (d.next ids) rest

/-- The ids that several users draw. -/
def drawnAll : Ids → List (Drawing ρ) → List UInt64
  | _, [] => []
  | ids, d :: rest => d.drawn ids ++ drawnAll (d.next ids) rest

/-- A user leaves the generator behind the ids that it has drawn. -/
theorem next_eq (ids : Ids) (d : Drawing ρ) : d.next ids = ids.after (d.count ids) := by
  cases d with
  | await strategy maxWait calls script =>
    simp only [next, count]
    by_cases hne : calls = []
    · subst hne
      exact ids.after_zero.symm
    · simp only [Operation.awaitCalls_of_ne_nil strategy maxWait hne, Operation.start,
        Ids.drawMany_eq]
  | register table resident => simp only [next, count, Residents.register, Ids.drawFree_eq]

theorem drawnAll_append (ids : Ids) (xs ys : List (Drawing ρ)) :
    drawnAll ids (xs ++ ys) = drawnAll ids xs ++ drawnAll (nextAll ids xs) ys := by
  induction xs generalizing ids with
  | nil => rfl
  | cons d rest ih => simp only [List.cons_append, drawnAll, nextAll, ih, List.append_assoc]

/-- Users one after another draw what one user would. -/
theorem drawnAll_eq (ids : Ids) (history : List (Drawing ρ)) :
    drawnAll ids history = (ids.drawMany (drawnAll ids history).length).1 := by
  induction history generalizing ids with
  | nil => rfl
  | cons d rest ih =>
    have hrest := ih (d.next ids)
    rw [next_eq] at hrest
    rw [drawnAll, next_eq, List.length_append, drawn, Ids.length_drawMany, Ids.drawMany_add,
      ← hrest]

/-- Fewer than 2^64 draws never repeat an id, whoever makes them. -/
theorem nodup_drawnAll {ids : Ids} {history : List (Drawing ρ)}
    (h : (drawnAll ids history).length < 2 ^ 64) : (drawnAll ids history).Nodup := by
  rw [drawnAll_eq]
  exact ids.nodup_drawMany (Nat.le_of_lt h)

/-- Users of one generator that together draw fewer than 2^64 ids never draw the same id twice, also
where the ids wrap around; and an await operation among them gives the same answer and sends the
same polls without the results for all ids that the others draw. -/
theorem stale_results_ignored (seed : UInt64) (history : List (Drawing ρ))
    (hdraws : (drawnAll (.startingAt seed) history).length < 2 ^ 64) :
    (drawnAll (.startingAt seed) history).Nodup ∧
    ∀ before strategy maxWait calls script after,
      history = before ++ await strategy maxWait calls script :: after →
      let ids := nextAll (.startingAt seed) before
      let afterwards := next ids (await strategy maxWait calls script : Drawing ρ)
      -- every id of the history but the operation's own
      let foreign := drawnAll (.startingAt seed) before ++ drawnAll afterwards after
      let run := (Operation.awaitCalls strategy maxWait calls ids script).1
      let scrubbed := (Operation.awaitCalls strategy maxWait calls ids
        (script.map (·.without foreign))).1
      scrubbed.answer = run.answer ∧ scrubbed.polls = run.polls := by
  have hdup := nodup_drawnAll hdraws
  refine ⟨hdup, ?_⟩
  intro before strategy maxWait calls script after hhistory ids afterwards foreign run scrubbed
  -- the ids of the history are those before, the operation's own, and those after
  rw [hhistory, drawnAll_append, drawnAll] at hdup
  obtain ⟨-, hown, hbefore⟩ := List.nodup_append.1 hdup
  obtain ⟨-, -, hafter⟩ := List.nodup_append.1 hown
  have hforeign : ∀ id ∈ (ids.drawMany calls.length).1, id ∉ foreign := by
    intro id hid hmem
    rcases List.mem_append.1 hmem with hmem | hmem
    · exact hbefore id hmem id (List.mem_append_left _ hid) rfl
    · exact hafter id hid id hmem rfl
  have hrun : scrubbed = { run with left := run.left.map (·.without foreign) } :=
    Operation.awaitCalls_without strategy maxWait calls ids hforeign script
  rw [hrun]
  exact ⟨rfl, rfl⟩

/-- An operation that was given up, a resident, and an operation that is woken with a result for
each of them and for its own call; the ids wrap around after the first. -/
theorem stale_results_ignored_over_the_wrap :
    let seed : UInt64 := 18446744073709551615
    let script : List Request := [{ function := "f", directive := .pollResult { results :=
      [{ correlationId := seed }, { correlationId := 0 }, { correlationId := 1 }] } }]
    let before : List (Drawing Unit) := [await .all .zero [{}] [], register .empty ()]
    let history := before ++ [await .any .zero [{}] script]
    let ids := nextAll (.startingAt seed) before
    (drawnAll (.startingAt seed) history).length < 2 ^ 64 ∧
      drawnAll (.startingAt seed) history = [seed, 0, 1] ∧
      (drawnAll (.startingAt seed) history).Nodup ∧
      (Operation.awaitCalls .any .zero [{}] ids (script.map (·.without [seed, 0]))).1.answer =
        (Operation.awaitCalls .any .zero [{}] ids script).1.answer := by
  intro seed script before history ids
  have hdraws : (drawnAll (.startingAt seed) history).length < 2 ^ 64 := by decide
  have hdrawn : drawnAll (.startingAt seed) history = [seed, 0, 1] := by decide
  have hforeign : drawnAll (.startingAt seed) before ++ [] = [seed, 0] := by decide
  obtain ⟨hdup, hsame⟩ := stale_results_ignored seed history hdraws
  have hanswer := (hsame before .any .zero [{}] script [] rfl).1
  rw [drawnAll, hforeign] at hanswer
  exact ⟨hdraws, hdrawn, hdup, hanswer⟩

end Drawing

end Resumable
