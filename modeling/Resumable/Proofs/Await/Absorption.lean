import Resumable.Proofs.Await.Isolation

/-!
# Absorbed requests

An operation absorbs a request that brings results only for ids which are not pending: it goes on as
it is (`receive_of_absorbs`). It absorbs every request that it has received, and whatever it absorbs
at some time it absorbs later on.
-/

namespace Resumable.Operation

variable {op op' : Operation} {request other : Request}

/-- Whether no result that a request brings is for a pending id. -/
def Absorbs (op : Operation) (request : Request) : Prop :=
  ∀ r ∈ request.delivered, ∀ entry ∈ op.pending, entry.1 ≠ r.correlationId

/-- After its result, an id is not pending. -/
theorem not_pending_record (t : Tally) (r : CallResult) :
    ∀ entry ∈ (t.record r).pending, entry.1 ≠ r.correlationId := by
  intro entry hentry
  unfold Tally.record at hentry
  cases hlookup : t.pending.lookup r.correlationId with
  | none =>
    rw [hlookup] at hentry
    exact (bne_iff_ne.1 (List.lookup_eq_none_iff.1 hlookup entry hentry)).symm
  | some index =>
    rw [hlookup] at hentry
    simpa using (List.mem_filter.1 hentry).2

theorem not_pending_foldl_record (t : Tally) (results : List CallResult) :
    ∀ r ∈ results, ∀ entry ∈ (results.foldl Tally.record t).pending, entry.1 ≠ r.correlationId := by
  induction results generalizing t with
  | nil => exact fun r hr => nomatch hr
  | cons first rest ih =>
    intro r hr entry hentry
    rcases List.mem_cons.1 hr with rfl | hr
    · -- later results only ever take ids away from the pending ones
      exact not_pending_record t r entry (pending_foldl_record_subset (t.record r) rest hentry)
    · exact ih (t.record first) r hr entry hentry

theorem foldl_record_of_not_pending {t : Tally} {results : List CallResult}
    (h : ∀ r ∈ results, ∀ entry ∈ t.pending, entry.1 ≠ r.correlationId) :
    results.foldl Tally.record t = t := by
  induction results with
  | nil => rfl
  | cons r rest ih =>
    rw [List.forall_mem_cons] at h
    rw [List.foldl_cons, record_of_not_pending h.1, ih h.2]

/-- An operation that goes on after a request has received all that the request brings. -/
theorem absorbs_of_receive (h : op.receive (some request) = .waiting op') : op'.Absorbs request := by
  rw [receive_waiting h]
  exact not_pending_foldl_record _ _

theorem Absorbs.of_receive (h : op.Absorbs request)
    (hreceive : op.receive (some other) = .waiting op') : op'.Absorbs request := by
  intro r hr entry hentry
  rw [receive_waiting hreceive] at hentry
  exact h r hr entry (pending_foldl_record_subset _ _ hentry)

theorem receiveBatch_pending_ne_nil {results : List CallResult}
    (h : op.receiveBatch results = .waiting op') : op'.pending ≠ [] := by
  have hop := receiveBatch_waiting h
  unfold receiveBatch at h
  intro hnil
  have hempty : (op.tallied results).pending = [] := by rw [← hnil, hop]
  -- without pending ids, either strategy ends the operation
  change (results.foldl Tally.record { pending := op.pending, slots := op.slots }).pending = []
    at hempty
  cases hstrategy : op.strategy <;> simp only [hstrategy, hempty, List.isEmpty_nil, if_true] at h
  all_goals split at h <;> cases h

/-- An operation goes on only as long as some id is pending. -/
theorem pending_ne_nil_of_receive (h : op.receive (some request) = .waiting op') :
    op'.pending ≠ [] := by
  simp only [receive] at h
  split at h
  · cases h
  · split at h
    · cases h
    · exact receiveBatch_pending_ne_nil h

/-- An operation that absorbs a request goes on as it is. -/
theorem receive_of_absorbs {result : PollResult} (hdirective : request.directive = .pollResult result)
    (herror : result.error = none) (hpending : op.pending ≠ []) (h : op.Absorbs request) :
    op.receive (some request) = .waiting op := by
  have hdelivered : request.delivered = result.results := by
    simp [Request.delivered, hdirective, herror]
  have htally : result.results.foldl Tally.record { pending := op.pending, slots := op.slots } =
      { pending := op.pending, slots := op.slots } := by
    rw [← hdelivered]
    exact foldl_record_of_not_pending h
  simp only [receive, hdirective, herror, receiveBatch, htally]
  cases hstrategy : op.strategy <;> simp [hpending, hstrategy.symm]

end Resumable.Operation
