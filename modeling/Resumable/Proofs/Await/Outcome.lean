import Resumable.Proofs.Await.Verdict

/-!
# Outcomes of await operations

`awaitCalls_slots` says which result each slot has when an operation ends, and `awaitCalls_outcome`
at which answer it ends and what its outcome means. Both hold for any generator, also one about to
wrap around, as long as the ids of one operation are distinct: 64 bits give ids to 2^64 calls.
-/

namespace Resumable

namespace Operation

variable {strategy : Strategy} {drawn : List UInt64} {seen batch : List CallResult}

/-- The slots with which an operation ended, if it ended with slots. -/
def slotsOf? : Except AwaitError Slots → Option Slots
  | .ok slots => some slots
  | .error e => e.slots?

/-! ## Attribution -/

/-- The slots of a verdict are those of everything delivered up to it. -/
theorem slots_of_verdict {request : Request} {ended : Slots} {answer : Except AwaitError Slots}
    (h : verdict strategy drawn seen request = some answer)
    (hended : slotsOf? answer = some ended) :
    ended = attributed drawn (seen ++ request.delivered) := by
  rcases verdict_cases strategy drawn seen request with hv | ⟨error, hv, hnothing⟩ | hv <;>
    rw [hv] at h
  · cases h
    cases hended
  · cases h
    rw [hnothing, List.append_nil]
    exact (Option.some.inj hended).symm
  · rcases batchVerdict_cases h with
      ⟨-, rfl, -⟩ | ⟨-, rfl, -⟩ | ⟨-, rfl, -⟩ | ⟨-, rfl, -⟩ <;>
    exact (Option.some.inj hended).symm

/-- A run that ends with slots has in them everything delivered by the requests it used. -/
theorem Ends.slots_eq {script : List Request} {run : Run}
    (h : Ends strategy drawn [] script run) :
    ∃ used, script = used ++ run.left ∧
      ∀ slots, slotsOf? run.answer = some slots → slots = attributed drawn (delivered used) := by
  cases h with
  | decided used request rest hscript hused hverdict hpolls hleft =>
    refine ⟨used ++ [request], by rw [hscript, hleft]; simp, fun slots hslots => ?_⟩
    simpa using slots_of_verdict hverdict hslots
  | detached hscript hanswer hpolls hleft =>
    refine ⟨script, by rw [hleft, List.append_nil], fun slots hslots => ?_⟩
    rw [hanswer] at hslots
    cases hslots

/-- An operation on calls ends at the first verdict. -/
theorem awaitCalls_ends (strategy : Strategy) (maxWait : Span) {calls : List Call}
    (hne : calls ≠ []) (hlen : calls.length ≤ 2 ^ 64) (ids : Ids) (script : List Request) :
    Ends strategy (ids.drawMany calls.length).1 [] script
      (awaitCalls strategy maxWait calls ids script).1 := by
  rw [awaitCalls_of_ne_nil strategy maxWait hne, start_tracking]
  exact run_tracking_ends (ids.nodup_drawMany hlen) (start strategy maxWait calls ids).1 script

/-- Slots are attributed by id alone. When an operation ends with slots, there is one for each call
in order, and the slot of a call has the first result for its id among everything that the used
requests delivered, or nothing if there was none; no result is in the slot of another call. -/
theorem awaitCalls_slots (strategy : Strategy) (maxWait : Span) (calls : List Call)
    (hlen : calls.length ≤ 2 ^ 64) (ids : Ids) (script : List Request) :
    ∃ used, script = used ++ (awaitCalls strategy maxWait calls ids script).1.left ∧
      ∀ slots, slotsOf? (awaitCalls strategy maxWait calls ids script).1.answer = some slots →
        slots.length = calls.length ∧
        -- the first result for the id of call `i`, or nothing
        (∀ i < calls.length,
          slots[i]? = some (CallResult.firstFor? (ids.nth i) (delivered used))) ∧
        -- a result for the id of call `j` is in no other slot
        ∀ i j r, slots[i]? = some (some r) → j < calls.length → r.correlationId = ids.nth j →
          i = j := by
  by_cases hne : calls = []
  · subst hne
    refine ⟨[], rfl, fun slots hslots => ?_⟩
    cases hslots
    simp
  · obtain ⟨used, hscript, hslots⟩ :=
      (awaitCalls_ends strategy maxWait hne hlen ids script).slots_eq
    refine ⟨used, hscript, fun slots hended => ?_⟩
    have heq := hslots slots hended
    have hlength : slots.length = calls.length := by
      rw [heq, length_attributed, Ids.length_drawMany]
    have hat : ∀ i < calls.length,
        slots[i]? = some (CallResult.firstFor? (ids.nth i) (delivered used)) := by
      intro i hi
      rw [heq, attributed, List.getElem?_map, ids.getElem?_drawMany hi, Option.map_some]
    refine ⟨hlength, hat, fun i j r hslot hj hid => ?_⟩
    -- the result in slot `i` has the id of call `i`, and no two calls share an id
    obtain ⟨hi, -⟩ := List.getElem?_eq_some_iff.1 hslot
    rw [hlength] at hi
    rw [hat i hi] at hslot
    have hown := CallResult.correlationId_of_firstFor? (Option.some.inj hslot)
    exact ids.nth_inj (Nat.lt_of_lt_of_le hi hlen) (Nat.lt_of_lt_of_le hj hlen)
      (hown.symm.trans hid)

/-- Two calls under the last id and the first: the result for the second call comes first, with one
that belongs elsewhere, and is delivered again with the result for the first call. -/
theorem awaitCalls_slots_over_the_wrap :
    let ids := Ids.startingAt 18446744073709551615
    let script : List Request :=
      [{ function := "f", directive := .pollResult { results :=
          [{ correlationId := 7 }, { correlationId := 0, dispatchId := "early" }] } },
        { function := "f", directive := .pollResult { results :=
          [{ correlationId := 0, dispatchId := "again" }, { correlationId := ids.upcoming }] } }]
    let run := (awaitCalls .all .zero [{}, {}] ids script).1
    [({} : Call), {}].length ≤ 2 ^ 64 ∧
      slotsOf? run.answer = some [some { correlationId := ids.upcoming },
        some { correlationId := 0, dispatchId := "early" }] ∧
      ∃ used, script = used ++ run.left ∧ ∀ slots, slotsOf? run.answer = some slots →
        slots[1]? = some (CallResult.firstFor? (ids.nth 1) (delivered used)) := by
  intro ids script run
  have hlen : [({} : Call), {}].length ≤ 2 ^ 64 := by decide
  obtain ⟨used, hscript, hslots⟩ := awaitCalls_slots .all .zero [{}, {}] hlen ids script
  exact ⟨hlen, by decide, used, hscript, fun slots h => (hslots slots h).2.1 1 (by decide)⟩

/-! ## Meaning of an outcome -/

/-- What the slots of an operation that goes on hold: only successes under `all`, only failures
under `any`. -/
def Steady (strategy : Strategy) (slots : Slots) : Prop :=
  ∀ r, some r ∈ slots → r.isFailure = decide (strategy = .any)

/-- What an answer promises about its slots and its cause. -/
structure Meaning (strategy : Strategy) (answer : Except AwaitError Slots) : Prop where
  /-- Every call has succeeded. -/
  ok_all : strategy = .all → ∀ slots, answer = .ok slots →
    ∀ slot ∈ slots, ∃ r, slot = some r ∧ r.isFailure = false
  /-- Some call has succeeded. -/
  ok_any : strategy = .any → ∀ slots, answer = .ok slots → ∃ r, some r ∈ slots ∧ r.isFailure = false
  /-- Every call has failed. -/
  failed_any : strategy = .any → ∀ slots cause, answer = .error (.failed slots cause) →
    ∀ slot ∈ slots, ∃ r, slot = some r ∧ r.isFailure = true
  /-- A failure never comes without an error. -/
  errors_ne_nil : ∀ slots cause, answer = .error (.failed slots cause) → errors slots ≠ []
  /-- A single error is the cause itself. -/
  cause_single : ∀ slots cause e, answer = .error (.failed slots cause) → errors slots = [e] →
    cause = .leaf (.remote e)
  /-- Several errors are joined, in the order of the calls. -/
  cause_joined : ∀ slots cause, answer = .error (.failed slots cause) → (errors slots).length ≠ 1 →
    cause = .joined ((errors slots).map fun e => .leaf (.remote e))

theorem errors_ne_nil_of_mem {slots : Slots} {r : CallResult} (hr : some r ∈ slots)
    (hfailure : r.isFailure = true) : errors slots ≠ [] := by
  obtain ⟨e, he⟩ := Option.isSome_iff_exists.1 hfailure
  have hmem : e ∈ errors slots := List.mem_filterMap.2 ⟨some r, hr, he⟩
  exact List.ne_nil_of_mem hmem

theorem join_single (e : RemoteError) :
    Failure.join ([e].map fun e => .leaf (.remote e)) = .leaf (.remote e) := rfl

theorem join_of_length_ne_one {causes : List Failure} (h : causes.length ≠ 1) :
    Failure.join causes = .joined causes := by
  match causes with
  | [] => rfl
  | [cause] => exact absurd rfl h
  | _ :: _ :: _ => rfl

/-- The meaning of a failure: its cause is joined from its errors, and there is one at least. -/
theorem meaning_failure {slots : Slots} (herrors : errors slots ≠ [])
    (hany : strategy = .any → ∀ slot ∈ slots, ∃ r, slot = some r ∧ r.isFailure = true) :
    Meaning strategy (.error (failure slots)) where
  ok_all := by rintro - _ ⟨⟩
  ok_any := by rintro - _ ⟨⟩
  failed_any := by rintro hstrategy _ _ ⟨⟩; exact hany hstrategy
  errors_ne_nil := by rintro _ _ ⟨⟩; exact herrors
  cause_single := by
    rintro _ _ e ⟨⟩ hsingle
    rw [hsingle, join_single]
  cause_joined := by
    rintro _ _ ⟨⟩ hlength
    exact join_of_length_ne_one (by simpa using hlength)

/-- The meaning of slots that an operation ends well with. -/
theorem meaning_ok {slots : Slots}
    (hall : strategy = .all → ∀ slot ∈ slots, ∃ r, slot = some r ∧ r.isFailure = false)
    (hany : strategy = .any → ∃ r, some r ∈ slots ∧ r.isFailure = false) :
    Meaning strategy (.ok slots) where
  ok_all := by rintro hstrategy _ ⟨⟩; exact hall hstrategy
  ok_any := by rintro hstrategy _ ⟨⟩; exact hany hstrategy
  failed_any := by rintro - _ _ ⟨⟩
  errors_ne_nil := by rintro _ _ ⟨⟩
  cause_single := by rintro _ _ _ ⟨⟩
  cause_joined := by rintro _ _ ⟨⟩

/-- An error that is no failure of calls promises nothing. -/
theorem meaning_error {e : AwaitError} (he : ∀ slots cause, e ≠ .failed slots cause) :
    Meaning strategy (.error e) where
  ok_all := by rintro - _ ⟨⟩
  ok_any := by rintro - _ ⟨⟩
  failed_any := by rintro - slots cause ⟨⟩; exact absurd rfl (he slots cause)
  errors_ne_nil := by rintro slots cause ⟨⟩; exact absurd rfl (he slots cause)
  cause_single := by rintro slots cause _ ⟨⟩; exact absurd rfl (he slots cause)
  cause_joined := by rintro slots cause ⟨⟩; exact absurd rfl (he slots cause)

theorem steady_nil (strategy : Strategy) (drawn : List UInt64) :
    Steady strategy (attributed drawn []) := by
  intro r hr
  obtain ⟨id, -, hid⟩ := some_mem_attributed.1 hr
  cases hid

/-- A result in a slot after a batch is one of an operation that went on, or one of the batch. -/
theorem Steady.isFailure_or_recorded (hsteady : Steady strategy (attributed drawn seen))
    {r : CallResult} (hr : some r ∈ attributed drawn (seen ++ batch)) :
    r.isFailure = decide (strategy = .any) ∨ r ∈ recorded drawn seen batch := by
  rcases some_mem_attributed_append.1 hr with hearlier | hrecorded
  · exact Or.inl (hsteady r hearlier)
  · exact Or.inr hrecorded

/-- A request that does not decide brings successes only under `all`, failures only under `any`. -/
theorem Steady.of_undecided_request {request : Request}
    (hsteady : Steady strategy (attributed drawn seen))
    (hverdict : verdict strategy drawn seen request = none) :
    Steady strategy (attributed drawn (seen ++ request.delivered)) := by
  intro r hr
  rcases hsteady.isFailure_or_recorded hr with hr | hr
  · exact hr
  · rcases verdict_cases strategy drawn seen request with hv | ⟨error, hv, -⟩ | hv <;>
      rw [hv] at hverdict
    · cases hverdict
    · cases hverdict
    · exact isFailure_of_batchVerdict_eq_none hverdict r hr

theorem Steady.of_undecided {used : List Request}
    (hsteady : Steady strategy (attributed drawn seen)) (hused : Undecided strategy drawn seen used) :
    Steady strategy (attributed drawn (seen ++ delivered used)) := by
  induction used generalizing seen with
  | nil => simpa using hsteady
  | cons request rest ih =>
    have hrest := ih (hsteady.of_undecided_request hused.1) hused.2
    simpa [List.append_assoc] using hrest

/-- A batch that decides after an operation went on gives an answer with its meaning. -/
theorem meaning_of_batchVerdict (hdrawn : drawn ≠ [])
    (hsteady : Steady strategy (attributed drawn seen)) {answer : Except AwaitError Slots}
    (h : batchVerdict strategy (attributed drawn (seen ++ batch)) (recorded drawn seen batch) =
      some answer) : Meaning strategy answer := by
  have hin : ∀ r ∈ recorded drawn seen batch, some r ∈ attributed drawn (seen ++ batch) :=
    fun r hr => some_mem_attributed_append.2 (Or.inr hr)
  -- every slot is filled, by an earlier batch or by this one
  have hfilled : (∀ r ∈ recorded drawn seen batch, r.isFailure = decide (strategy = .any)) →
      (∀ slot ∈ attributed drawn (seen ++ batch), slot.isSome = true) →
      ∀ slot ∈ attributed drawn (seen ++ batch),
        ∃ r, slot = some r ∧ r.isFailure = decide (strategy = .any) := by
    intro hrecorded hfull slot hslot
    obtain ⟨r, rfl⟩ := Option.isSome_iff_exists.1 (hfull slot hslot)
    rcases hsteady.isFailure_or_recorded hslot with hr | hr
    · exact ⟨r, rfl, hr⟩
    · exact ⟨r, rfl, hrecorded r hr⟩
  rcases batchVerdict_cases h with ⟨rfl, rfl, r, hr, hfailure⟩ | ⟨rfl, rfl, r, hr, hsuccess⟩ |
    ⟨rfl, rfl, hsuccesses, hfull⟩ | ⟨rfl, rfl, hfailures, hfull⟩
  · exact meaning_failure (errors_ne_nil_of_mem (hin r hr) hfailure) (by rintro ⟨⟩)
  · exact meaning_ok (by rintro ⟨⟩) fun _ => ⟨r, hin r hr, hsuccess⟩
  · exact meaning_ok (fun _ => hfilled hsuccesses hfull) (by rintro ⟨⟩)
  · -- there is a call, and its slot holds a failure: the joined errors are not empty
    have hfailed := hfilled hfailures hfull
    obtain ⟨id, hid⟩ := List.exists_mem_of_ne_nil drawn hdrawn
    obtain ⟨r, hr, hfailure⟩ := hfailed _ (List.mem_map_of_mem hid)
    have hslot : some r ∈ attributed drawn (seen ++ batch) := hr ▸ List.mem_map_of_mem hid
    exact meaning_failure (errors_ne_nil_of_mem hslot hfailure) fun _ => hfailed

/-- A run that ends as its verdicts say gives an answer with its meaning. -/
theorem Ends.meaning {script : List Request} {run : Run} (hdrawn : drawn ≠ [])
    (h : Ends strategy drawn [] script run) : Meaning strategy run.answer := by
  cases h with
  | decided used request rest hscript hused hverdict hpolls hleft =>
    -- what the earlier requests left behind is all of the kind that does not decide
    have hsteady := (steady_nil strategy drawn).of_undecided hused
    rcases verdict_cases strategy drawn ([] ++ delivered used) request with
      hv | ⟨error, hv, -⟩ | hv <;> rw [hv] at hverdict
    · rw [← Option.some.inj hverdict]
      exact meaning_error (by rintro _ _ ⟨⟩)
    · rw [← Option.some.inj hverdict]
      exact meaning_error (by rintro _ _ ⟨⟩)
    · exact meaning_of_batchVerdict hdrawn hsteady hverdict
  | detached hscript hanswer hpolls hleft =>
    rw [hanswer]
    exact meaning_error (by rintro _ _ ⟨⟩)

/-- An operation on calls takes one request for each of its polls and ends at the first that decides
it, or with its driver gone; and its answer means what its strategy promises. -/
theorem awaitCalls_outcome (strategy : Strategy) (maxWait : Span) {calls : List Call}
    (hne : calls ≠ []) (hlen : calls.length ≤ 2 ^ 64) (ids : Ids) (script : List Request) :
    Ends strategy (ids.drawMany calls.length).1 [] script
        (awaitCalls strategy maxWait calls ids script).1 ∧
      Meaning strategy (awaitCalls strategy maxWait calls ids script).1.answer := by
  have hends := awaitCalls_ends strategy maxWait hne hlen ids script
  refine ⟨hends, hends.meaning ?_⟩
  intro hnil
  have hlength := ids.length_drawMany calls.length
  rw [hnil] at hlength
  exact hne (List.length_eq_zero_iff.1 hlength.symm)

/-- Under `any` a first failure leaves two calls open, and a batch with a failure and a success ends
the operation well. -/
theorem awaitCalls_outcome_mixed_batch :
    let ids := Ids.startingAt 100
    let failed : RemoteError := { kind := "Boom", message := "no" }
    let script : List Request :=
      [{ function := "f", directive := .pollResult { results :=
          [{ correlationId := 101, error := some failed }] } },
        { function := "f", directive := .pollResult { results :=
          [{ correlationId := 100, error := some failed }, { correlationId := 102 }] } }]
    let run := (awaitCalls .any .zero [{}, {}, {}] ids script).1
    [({} : Call), {}, {}] ≠ [] ∧ [({} : Call), {}, {}].length ≤ 2 ^ 64 ∧
      run.answer = .ok [some { correlationId := 100, error := some failed },
        some { correlationId := 101, error := some failed }, some { correlationId := 102 }] ∧
      Ends .any (ids.drawMany 3).1 [] script run ∧ Meaning .any run.answer := by
  intro ids failed script run
  have hne : [({} : Call), {}, {}] ≠ [] := by decide
  have hlen : [({} : Call), {}, {}].length ≤ 2 ^ 64 := by decide
  exact ⟨hne, hlen, rfl, awaitCalls_outcome .any .zero hne hlen ids script⟩

end Operation

end Resumable
