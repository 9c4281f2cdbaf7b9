import Resumable.Await.Operation

/-!
# Receiving answers

What a request brings to an operation are its `delivered` results. An operation that goes on after a
request has recorded them and is otherwise the same (`receive_waiting`); recording never adds to
what is pending and never changes how many slots there are.
-/

namespace Resumable

/-- The results that a request brings to an operation; one that reports an error brings none. -/
def Request.delivered (request : Request) : List CallResult :=
  match request.directive with
  | .input _ => []
  | .pollResult result => if result.error.isSome then [] else result.results

namespace Operation

/-- The results that requests bring, in the order of their delivery. -/
def delivered (requests : List Request) : List CallResult := requests.flatMap Request.delivered

@[simp] theorem delivered_nil : delivered [] = [] := rfl

@[simp] theorem delivered_cons (request : Request) (rest : List Request) :
    delivered (request :: rest) = request.delivered ++ delivered rest :=
  List.flatMap_cons

@[simp] theorem delivered_append (xs ys : List Request) :
    delivered (xs ++ ys) = delivered xs ++ delivered ys :=
  List.flatMap_append

/-- The tally of an operation after a batch. -/
def tallied (op : Operation) (results : List CallResult) : Tally :=
  results.foldl Tally.record { pending := op.pending, slots := op.slots }

/-! ## What recording leaves alone -/

theorem length_slots_record (t : Tally) (r : CallResult) :
    (t.record r).slots.length = t.slots.length := by
  unfold Tally.record
  cases t.pending.lookup r.correlationId with
  | none => rfl
  | some index => exact List.length_set

theorem length_slots_foldl_record (t : Tally) (results : List CallResult) :
    (results.foldl Tally.record t).slots.length = t.slots.length := by
  induction results generalizing t with
  | nil => rfl
  | cons r rest ih => rw [List.foldl_cons, ih, length_slots_record]

theorem pending_record_subset (t : Tally) (r : CallResult) :
    (t.record r).pending ⊆ t.pending := by
  unfold Tally.record
  cases t.pending.lookup r.correlationId with
  | none => exact List.Subset.refl _
  | some index => exact List.filter_sublist.subset

theorem pending_foldl_record_subset (t : Tally) (results : List CallResult) :
    (results.foldl Tally.record t).pending ⊆ t.pending := by
  induction results generalizing t with
  | nil => exact List.Subset.refl _
  | cons r rest ih => exact List.Subset.trans (ih (t.record r)) (pending_record_subset t r)

/-! ## An operation that goes on -/

theorem receiveBatch_waiting {op op' : Operation} {results : List CallResult}
    (h : op.receiveBatch results = .waiting op') :
    op' = { op with pending := (op.tallied results).pending,
                    slots := (op.tallied results).slots } := by
  unfold receiveBatch at h
  cases hstrategy : op.strategy <;> simp only [hstrategy] at h
  -- under either strategy two branches end the operation and the third goes on
  all_goals
    split at h
    · cases h
    · split at h
      · cases h
      · cases h
        rfl

/-- An operation goes on only after a batch, which it has recorded. -/
theorem receive_waiting {op op' : Operation} {request : Request}
    (h : op.receive (some request) = .waiting op') :
    op' = { op with pending := (op.tallied request.delivered).pending,
                    slots := (op.tallied request.delivered).slots } := by
  simp only [receive] at h
  cases hdirective : request.directive with
  | input boxed =>
    simp only [hdirective] at h
    cases h
  | pollResult result =>
    simp only [hdirective] at h
    cases herror : result.error with
    | some error =>
      simp only [herror] at h
      cases h
    | none =>
      have hdelivered : request.delivered = result.results := by
        simp [Request.delivered, hdirective, herror]
      simp only [herror] at h
      rw [hdelivered]
      exact receiveBatch_waiting h

end Operation

end Resumable
