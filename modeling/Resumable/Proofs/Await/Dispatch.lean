import Resumable.Proofs.Await.Receive
import Resumable.Proofs.Ids

/-!
# Dispatch of calls

The first poll of an operation carries every call, each under the id that was drawn for it, and no
later poll carries any, however the answers are split and however the operation ends
(`awaitCalls_polls`). So each call is handed out exactly once, and the ids drawn are one for each call
(`awaitCalls_dispatch`).
-/

namespace Resumable

/-- The calls that a response hands out. -/
def Response.calls (response : Response) : List Call := (response.poll?.map (·.calls)).getD []

namespace Operation

/-- The calls as they are handed out: each as it was given, but under its drawn id. -/
def handedOut (ids : Ids) (calls : List Call) : List Call :=
  calls.mapIdx fun i call => { call with correlationId := ids.nth i }

/-- A poll for all of `count` results at once. -/
def pollFor (count : Nat) (maxWait : Span) (calls : List Call) : Poll where
  minResults := UInt32.ofNat count
  maxResults := UInt32.ofNat count
  maxWait := maxWait
  calls := calls
  state := .null

/-! ## The polls of a run -/

theorem poll_eq {op : Operation} (hcount : op.slots.length < 2 ^ 32) :
    op.poll.1 = .poll (pollFor op.slots.length op.maxWait op.outgoing) := by
  have hmin : min op.slots.length 4294967295 = op.slots.length := Nat.min_eq_left (by omega)
  simp only [poll, count, hmin]
  rfl

/-- A run polls once with what is still to be handed out, and then without calls. -/
theorem run_polls {op : Operation} (hcount : op.slots.length < 2 ^ 32) (script : List Request) :
    ∃ later, (op.run script).polls =
      .poll (pollFor op.slots.length op.maxWait op.outgoing) ::
        List.replicate later (.poll (pollFor op.slots.length op.maxWait [])) := by
  induction script generalizing op with
  | nil => exact ⟨0, by rw [← poll_eq hcount]; rfl⟩
  | cons request rest ih =>
    unfold run
    cases hreceive : op.poll.2.receive (some request) with
    | finished answer => exact ⟨0, by rw [← poll_eq hcount]; rfl⟩
    | waiting op' =>
      -- what goes on has as many slots and nothing to hand out, so its polls carry no calls
      have hop := receive_waiting hreceive
      have hlength : op'.slots.length = op.slots.length := by
        rw [hop]
        exact length_slots_foldl_record _ _
      obtain ⟨later, hlater⟩ : ∃ later, (op'.run rest).polls = _ :=
        ih (by rw [hlength]; exact hcount)
      have hmaxWait : op'.maxWait = op.maxWait := by rw [hop]; rfl
      have houtgoing : op'.outgoing = [] := by rw [hop]; rfl
      rw [hmaxWait, houtgoing, hlength] at hlater
      exact ⟨later + 1, by simp only [hlater, poll_eq hcount, List.replicate_succ]⟩

theorem start_outgoing (strategy : Strategy) (maxWait : Span) (calls : List Call) (ids : Ids) :
    (start strategy maxWait calls ids).1.outgoing = handedOut ids calls := by
  refine List.ext_getElem? fun i => ?_
  simp only [start, handedOut, List.getElem?_zipWith, List.getElem?_mapIdx]
  cases hcall : calls[i]? with
  | none => rfl
  | some call =>
    obtain ⟨hi, -⟩ := List.getElem?_eq_some_iff.1 hcall
    rw [ids.getElem?_drawMany hi]
    rfl

theorem length_slots_start (strategy : Strategy) (maxWait : Span) (calls : List Call) (ids : Ids) :
    (start strategy maxWait calls ids).1.slots.length = calls.length :=
  List.length_map _

theorem flatMap_calls_polls (count later : Nat) (maxWait : Span) (calls : List Call) :
    (Response.poll (pollFor count maxWait calls) ::
      List.replicate later (Response.poll (pollFor count maxWait []))).flatMap Response.calls =
        calls := by
  have hlater : (List.replicate later (Response.poll (pollFor count maxWait []))).flatMap
      Response.calls = [] := by
    refine List.flatMap_eq_nil_iff.2 fun response hresponse => ?_
    rw [(List.mem_replicate.1 hresponse).2]
    rfl
  rw [List.flatMap_cons, hlater, List.append_nil]
  rfl

theorem start_snd (strategy : Strategy) (maxWait : Span) (calls : List Call) (ids : Ids) :
    (start strategy maxWait calls ids).2 = ids.after calls.length := by
  simp only [start, Ids.drawMany_eq]

/-- The polls of an operation on calls: the first hands out all of them, the later ones none. -/
theorem awaitCalls_polls (strategy : Strategy) (maxWait : Span) {calls : List Call}
    (hne : calls ≠ []) (hlen : calls.length < 2 ^ 32) (ids : Ids) (script : List Request) :
    ∃ later, (awaitCalls strategy maxWait calls ids script).1.polls =
      .poll (pollFor calls.length maxWait (handedOut ids calls)) ::
        List.replicate later (.poll (pollFor calls.length maxWait [])) := by
  have hslots := length_slots_start strategy maxWait calls ids
  have hcount : (start strategy maxWait calls ids).1.slots.length < 2 ^ 32 := by
    rw [hslots]
    exact hlen
  obtain ⟨later, hpolls⟩ := run_polls hcount script
  rw [start_outgoing, hslots] at hpolls
  refine ⟨later, ?_⟩
  rw [awaitCalls_of_ne_nil strategy maxWait hne]
  exact hpolls

/-- Each call of an operation is handed out exactly once: without calls nothing is sent or drawn;
otherwise the first poll carries all of them in order, the i-th under the i-th drawn id, and later
polls carry none. Every poll asks for all results at once. However the operation ends, it has drawn
one id for each call. -/
theorem awaitCalls_dispatch (strategy : Strategy) (maxWait : Span) {calls : List Call}
    (hlen : calls.length < 2 ^ 32) (ids : Ids) (script : List Request) :
    let outcome := awaitCalls strategy maxWait calls ids script
    -- without calls nothing is sent and nothing drawn
    (calls = [] → outcome.1.polls = [] ∧ outcome.2 = ids) ∧
    -- otherwise only the first poll carries calls, and all polls ask for the same
    (calls ≠ [] → ∃ first later, outcome.1.polls = (first :: later).map Response.poll ∧
      first.calls = handedOut ids calls ∧ (∀ poll ∈ later, poll.calls = []) ∧
      ∀ poll ∈ first :: later, poll.minResults.toNat = calls.length ∧
        poll.maxResults.toNat = calls.length ∧ poll.maxWait = maxWait ∧ poll.state = .null) ∧
    -- all polls together carry each call once
    outcome.1.polls.flatMap Response.calls = handedOut ids calls ∧
    outcome.2 = ids.after calls.length := by
  intro outcome
  by_cases hne : calls = []
  · subst hne
    exact ⟨fun _ => ⟨rfl, rfl⟩, fun h => absurd rfl h, rfl, ids.after_zero.symm⟩
  · obtain ⟨later, hpolls⟩ : ∃ later, outcome.1.polls = _ :=
      awaitCalls_polls strategy maxWait hne hlen ids script
    have hcount : (UInt32.ofNat calls.length).toNat = calls.length := UInt32.toNat_ofNat_of_lt' hlen
    refine ⟨fun h => absurd h hne, fun _ => ?_, ?_, ?_⟩
    · refine ⟨pollFor calls.length maxWait (handedOut ids calls),
        List.replicate later (pollFor calls.length maxWait []), ?_, rfl, ?_, ?_⟩
      · rw [hpolls, List.map_cons, List.map_replicate]
      · intro poll hpoll
        rw [(List.mem_replicate.1 hpoll).2]
        rfl
      · intro poll hpoll
        rcases List.mem_cons.1 hpoll with rfl | hpoll
        · exact ⟨hcount, hcount, rfl, rfl⟩
        · rw [(List.mem_replicate.1 hpoll).2]
          exact ⟨hcount, hcount, rfl, rfl⟩
    · rw [hpolls, flatMap_calls_polls]
    · simp only [outcome, awaitCalls_of_ne_nil strategy maxWait hne, start_snd]

/-- Two calls and three polls: a wake-up without results, one with the first result, and then the
driver is gone. -/
theorem awaitCalls_dispatch_two_calls :
    let ids := Ids.startingAt 18446744073709551615
    let calls : List Call := [{ function := "f" }, { function := "g" }]
    let script : List Request :=
      [{ function := "f", directive := .pollResult {} },
        { function := "f", directive := .pollResult { results := [{ correlationId := 0 }] } }]
    let outcome := awaitCalls .all .zero calls ids script
    calls.length < 2 ^ 32 ∧ outcome.1.polls.length = 3 ∧
      outcome.1.polls.flatMap Response.calls =
        [{ function := "f", correlationId := 18446744073709551615 }, { function := "g" }] ∧
      outcome.2 = ids.after 2 := by
  intro ids calls script outcome
  have hlen : calls.length < 2 ^ 32 := by decide
  have hpolls : outcome.1.polls.length = 3 := by decide
  obtain ⟨-, -, hcalls, hids⟩ := awaitCalls_dispatch .all .zero hlen ids script
  exact ⟨hlen, hpolls, hcalls.trans (by decide), hids⟩

end Operation

end Resumable
