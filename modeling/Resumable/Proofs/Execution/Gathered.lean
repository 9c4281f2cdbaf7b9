import Resumable.Host.Function
import Resumable.Proofs.Answer
import Resumable.Proofs.Await.Outcome
import Resumable.Proofs.Boxed.RoundTrip
import Resumable.Proofs.Execution.Played

/-!
# Gathered outputs

Gathering plays as the wait for all calls, whose slots it then unboxes (`Process.play_gather`). When
the wait ends well, every call has reported, and the slots unbox into what the calls reported
(`Operation.unboxOutputs_of_awaitCalls_all`). So the values stand in the order of the calls, whatever
the order in which their results were delivered (`Process.gathered_in_call_order`).
-/

namespace Resumable

variable {ω α ι : Type}

/-! ## Unboxing slots -/

namespace Operation

variable {target : Target α} {slots : Slots}

/-- What the output in the slot at a place unboxes into. -/
def unboxedAt (target : Target α) (slots : Slots) (i : Nat) : Option (Except CodecError α) :=
  slots[i]?.map fun slot => (output slot).unbox target

theorem lt_length_of_unboxedAt {i : Nat} {answer : Except CodecError α}
    (h : unboxedAt target slots i = some answer) : i < slots.length := by
  obtain ⟨slot, hslot, -⟩ := Option.map_eq_some_iff.1 h
  exact (List.getElem?_eq_some_iff.1 hslot).1

/-- Unboxing at a place names the place in its error. -/
theorem map_zipIdx_eq (i : Nat) :
    slots.zipIdx[i]?.map
        (fun (slot, index) => ((output slot).unbox target).mapError (AwaitError.decode index)) =
      (unboxedAt target slots i).map (·.mapError (AwaitError.decode i)) := by
  rw [unboxedAt, List.getElem?_zipIdx, Option.map_map, Option.map_map, Nat.zero_add]
  rfl

/-- Every slot unboxes into the value at its place. -/
theorem unboxOutputs_eq_ok_iff {values : List α} :
    unboxOutputs target slots = .ok values ↔
      values.length = slots.length ∧ ∀ i < slots.length, ∃ value, values[i]? = some value ∧
        unboxedAt target slots i = some (.ok value) := by
  simp only [unboxOutputs, mapM_eq_ok_iff_getElem?, List.length_zipIdx, map_zipIdx_eq,
    Option.map_eq_some_iff, mapError_eq_ok_iff, exists_eq_right]

/-- The first slot that does not unbox decides. -/
theorem unboxOutputs_eq_error_iff {e : AwaitError} :
    unboxOutputs target slots = .error e ↔
      ∃ (index : Nat) (error : CodecError), e = .decode index error ∧
        unboxedAt target slots index = some (.error error) ∧
        ∀ j < index, ∃ value, unboxedAt target slots j = some (.ok value) := by
  simp only [unboxOutputs, mapM_eq_error_iff, map_zipIdx_eq, Option.map_eq_some_iff,
    mapError_eq_ok_iff, mapError_eq_error_iff, exists_eq_right]
  constructor
  · rintro ⟨index, ⟨_, hat, error, rfl, rfl⟩, hbefore⟩
    exact ⟨index, error, rfl, hat, hbefore⟩
  · rintro ⟨index, error, rfl, hat, hbefore⟩
    exact ⟨index, ⟨_, hat, error, rfl, rfl⟩, hbefore⟩

/-- All slots unbox exactly if each does. -/
theorem exists_unboxOutputs_iff :
    (∃ values, unboxOutputs target slots = .ok values) ↔
      ∀ slot ∈ slots, ∃ value, (output slot).unbox target = .ok value := by
  rw [unboxOutputs, exists_mapM_eq_ok_iff]
  simp only [mapError_eq_ok_iff]
  constructor
  · intro h slot hslot
    obtain ⟨index, hindex⟩ := List.getElem?_of_mem hslot
    exact h (slot, index) (List.mem_zipIdx_iff_getElem?.2 hindex)
  · intro h entry hentry
    exact h entry.1 (List.fst_mem_of_mem_zipIdx hentry)

/-- A wait for all calls that ends well has in each slot the first result for the id of its call. -/
theorem slots_of_awaitCalls_all (maxWait : Span) {calls : List Call} (hlen : calls.length ≤ 2 ^ 64)
    (ids : Ids) (script : List Request)
    (hok : (awaitCalls .all maxWait calls ids script).1.answer = .ok slots) :
    ∃ used, script = used ++ (awaitCalls .all maxWait calls ids script).1.left ∧
      slots.length = calls.length ∧ ∀ i < calls.length, ∃ r,
        CallResult.firstFor? (ids.nth i) (delivered used) = some r ∧ slots[i]? = some (some r) := by
  by_cases hne : calls = []
  · subst hne
    cases hok
    exact ⟨[], rfl, rfl, nofun⟩
  · have hends := awaitCalls_ends .all maxWait hne hlen ids script
    obtain ⟨used, hscript, hslots⟩ := hends.slots_eq
    have heq := hslots slots (by rw [hok]; rfl)
    have hlength : slots.length = calls.length := by
      rw [heq, length_attributed, Ids.length_drawMany]
    refine ⟨used, hscript, hlength, fun i hi => ?_⟩
    have hat : slots[i]? = some (CallResult.firstFor? (ids.nth i) (delivered used)) := by
      rw [heq, attributed, List.getElem?_map, ids.getElem?_drawMany hi, Option.map_some]
    -- the wait ended well, so that no slot was left empty
    have hdrawn : (ids.drawMany calls.length).1 ≠ [] := by
      rw [← List.length_pos_iff, Ids.length_drawMany]
      exact List.length_pos_iff.2 hne
    obtain ⟨r, hr, -⟩ := (hends.meaning hdrawn).ok_all rfl slots hok _ (List.mem_of_getElem? hat)
    exact ⟨r, hr, hr ▸ hat⟩

/-- What the first result for the call at a place, among the results `seen`, makes of its output; the
boxed null stands for an output that it does not have. -/
def reported (target : Target α) (ids : Ids) (seen : List CallResult) (i : Nat) :
    Option (Except CodecError α) :=
  (CallResult.firstFor? (ids.nth i) seen).map fun r => (r.output.getD .null).unbox target

/-- After a wait for all calls that ends well, every call has reported, and the outputs unbox into what
the calls reported, in the order of the calls. -/
theorem unboxOutputs_of_awaitCalls_all (maxWait : Span) (target : Target α) {calls : List Call}
    (hlen : calls.length ≤ 2 ^ 64) (ids : Ids) (script : List Request)
    (hok : (awaitCalls .all maxWait calls ids script).1.answer = .ok slots) :
    ∃ used, script = used ++ (awaitCalls .all maxWait calls ids script).1.left ∧
      let outcome := reported target ids (delivered used)
      (∀ i < calls.length, ∃ answer, outcome i = some answer) ∧
      (∀ values, unboxOutputs target slots = .ok values ↔ values.length = calls.length ∧
        ∀ i < calls.length, ∃ value, values[i]? = some value ∧ outcome i = some (.ok value)) ∧
      ∀ e, unboxOutputs target slots = .error e ↔
        ∃ index error, e = .decode index error ∧ index < calls.length ∧
          outcome index = some (.error error) ∧
          ∀ j < index, ∃ value, outcome j = some (.ok value) := by
  obtain ⟨used, hscript, hlength, hfilled⟩ := slots_of_awaitCalls_all maxWait hlen ids script hok
  have hat : ∀ i < calls.length,
      unboxedAt target slots i = reported target ids (delivered used) i := by
    intro i hi
    obtain ⟨r, hr, hslot⟩ := hfilled i hi
    rw [unboxedAt, reported, hr, hslot]
    rfl
  refine ⟨used, hscript, fun i hi => ?_, fun values => ?_, fun e => ?_⟩
  · obtain ⟨r, hr, -⟩ := hfilled i hi
    exact ⟨_, congrArg (Option.map _) hr⟩
  · rw [unboxOutputs_eq_ok_iff, hlength]
    refine and_congr_right fun _ => forall₂_congr fun i hi => ?_
    rw [hat i hi]
  · rw [unboxOutputs_eq_error_iff]
    refine exists_congr fun index => exists_congr fun error => and_congr_right fun _ => ?_
    constructor
    · rintro ⟨hunboxed, hbefore⟩
      have hindex : index < calls.length := hlength ▸ lt_length_of_unboxedAt hunboxed
      refine ⟨hindex, (hat index hindex).symm.trans hunboxed, fun j hj => ?_⟩
      rw [← hat j (Nat.lt_trans hj hindex)]
      exact hbefore j hj
    · rintro ⟨hindex, hreported, hbefore⟩
      refine ⟨(hat index hindex).trans hreported, fun j hj => ?_⟩
      rw [hat j (Nat.lt_trans hj hindex)]
      exact hbefore j hj

end Operation

/-! ## Gathering -/

namespace Process

/-- Gathering plays as the wait for all calls, of whose slots it unboxes the outputs. -/
theorem play_gather (maxWait : Span) (target : Target α) (calls : List Call) (w : Shared ω)
    (script : List Request) :
    let outcome := Operation.awaitCalls .all maxWait calls w.ids script
    (gather target calls).play maxWait w script =
      ⟨.ok (outcome.1.answer.bind (Operation.unboxOutputs target)), outcome.1.polls, outcome.1.left,
        { w with ids := outcome.2 }⟩ := by
  intro outcome
  show (Process.bind (awaitAll calls) _).play maxWait w script = _
  rw [play_bind, awaitAll, play_awaitCalls]
  exact congrArg (Played.mk _ · _ _) (List.append_nil _)

end Process

/-! ## Inputs that cannot be boxed -/

namespace Callee

variable {f : Callee ι α} {ctx : Context}

/-- A call cannot be built exactly if its input cannot be boxed. -/
theorem call_eq_error_iff {input : ι} {e : CodecError} :
    f.call ctx input = .error e ↔ (f.input input).box = .error e :=
  bind_pure_eq_error_iff

theorem exists_call_iff {input : ι} :
    (∃ call, f.call ctx input = .ok call) ↔ ∃ boxed, (f.input input).box = .ok boxed :=
  exists_bind_pure_eq_ok_iff

/-- If an input cannot be boxed, the error of the first such input is the answer, and there is nothing
left to do. -/
theorem gather_of_unboxable {inputs : List ι}
    (h : ∃ input ∈ inputs, ∃ e, (f.input input).box = .error e) :
    ∃ (i : Nat) (input : ι) (e : CodecError),
      inputs[i]? = some input ∧ (f.input input).box = .error e ∧
      (∀ j < i, ∀ other, inputs[j]? = some other → ∃ boxed, (f.input other).box = .ok boxed) ∧
      (f.gather ctx inputs : Process ω _) = .done (.error (.ofFailure e.toFailure)) := by
  cases hcalls : inputs.mapM (f.call ctx) with
  | ok calls =>
    obtain ⟨input, hmem, e, he⟩ := h
    obtain ⟨call, -, hcall⟩ := exists_answer_of_mapM hcalls input hmem
    rw [call_eq_error_iff.2 he] at hcall
    cases hcall
  | error e =>
    obtain ⟨i, he, hbefore⟩ := mapM_eq_error_iff.1 hcalls
    obtain ⟨input, hinput, hcall⟩ := Option.map_eq_some_iff.1 he
    refine ⟨i, input, e, hinput, call_eq_error_iff.1 hcall, fun j hj other hother => ?_, ?_⟩
    · obtain ⟨call, hbuilt⟩ := hbefore j hj
      rw [hother] at hbuilt
      exact exists_call_iff.1 ⟨call, Option.some.inj hbuilt⟩
    · rw [gather, hcalls]

end Callee

/-! ## The order of the calls -/

namespace Process

/-- Gathering sends the polls of the wait for all calls, and leaves over what that leaves. It gives
values exactly if the wait ends well and every output unboxes; then the value at each place is the
output of the call at this place, in whatever order the results were delivered, as long as 64 bits give
each call an id of its own. The first output that does not unbox is the error, unless the wait has one,
which is then that of the gathering. A function that is called once for each input gathers nothing if an
input cannot be boxed: no poll is sent, no id is drawn, and the error of the first such input is the
answer. -/
theorem gathered_in_call_order (maxWait : Span) (target : Target α) (calls : List Call)
    (w : Shared ω) (script : List Request) :
    let wait := Operation.awaitCalls .all maxWait calls w.ids script
    let gathered := (gather target calls).play maxWait w script
    (gathered.polls = wait.1.polls ∧ gathered.left = wait.1.left ∧
      gathered.world = { w with ids := wait.2 }) ∧
    ((∃ values, gathered.ending = .ok (.ok values)) ↔
      ∃ slots, wait.1.answer = .ok slots ∧
        ∀ slot ∈ slots, ∃ value, (Operation.output slot).unbox target = .ok value) ∧
    (∀ e, wait.1.answer = .error e → gathered.ending = .ok (.error e)) ∧
    (∀ slots, wait.1.answer = .ok slots → calls.length ≤ 2 ^ 64 →
      ∃ used, script = used ++ wait.1.left ∧
        let outcome := Operation.reported target w.ids (Operation.delivered used)
        -- every call has reported
        (∀ i < calls.length, ∃ answer, outcome i = some answer) ∧
        (∀ values, gathered.ending = .ok (.ok values) ↔
          values.length = calls.length ∧
            ∀ i < calls.length, ∃ value, values[i]? = some value ∧ outcome i = some (.ok value)) ∧
        ∀ e, gathered.ending = .ok (.error e) ↔
          ∃ index error, e = .decode index error ∧ index < calls.length ∧
            outcome index = some (.error error) ∧
            ∀ j < index, ∃ value, outcome j = some (.ok value)) ∧
    ∀ (f : Callee ι α) (ctx : Context) (inputs : List ι),
      (∃ input ∈ inputs, ∃ e, (f.input input).box = .error e) →
      ∃ (i : Nat) (input : ι) (e : CodecError),
        inputs[i]? = some input ∧ (f.input input).box = .error e ∧
        (∀ j < i, ∀ other, inputs[j]? = some other → ∃ boxed, (f.input other).box = .ok boxed) ∧
        (f.gather ctx inputs).play maxWait w script =
          ⟨.ok (.error (.ofFailure e.toFailure)), [], script, w⟩ := by
  intro wait gathered
  have hgathered : gathered = _ := play_gather maxWait target calls w script
  have hending : gathered.ending = .ok (wait.1.answer.bind (Operation.unboxOutputs target)) := by
    rw [hgathered]
  refine ⟨by rw [hgathered]; exact ⟨rfl, rfl, rfl⟩, ?_, fun e he => ?_, fun slots hok hlen => ?_,
    fun f ctx inputs h => ?_⟩
  · rw [hending]
    cases wait.1.answer with
    | error e => exact ⟨nofun, nofun⟩
    | ok slots =>
      simp only [Except.bind, Except.ok.injEq, exists_eq_left', Operation.exists_unboxOutputs_iff]
  · rw [hending, he]
    rfl
  · have hunboxed : gathered.ending = .ok (Operation.unboxOutputs target slots) := by
      rw [hending, hok]
      rfl
    simp only [hunboxed, Except.ok.injEq]
    exact Operation.unboxOutputs_of_awaitCalls_all maxWait target hlen w.ids script hok
  · obtain ⟨i, input, e, hinput, he, hbefore, hgather⟩ := f.gather_of_unboxable (ω := ω) h
    refine ⟨i, input, e, hinput, he, hbefore, ?_⟩
    rw [hgather]
    rfl

/-- Two calls whose results come one after the other and in the other order, the one for the second
call without an output; and two inputs of which the second cannot be boxed. -/
theorem gathered_in_call_order_of_two :
    let w : Shared Unit := ⟨.startingAt 100, []⟩
    let truth : Boxed := ⟨.bool, (Wire.Item.bool true).toBytes⟩
    let script : List Request :=
      [{ function := "f", directive := .pollResult { results := [{ correlationId := 101 }] } },
        { function := "f", directive := .pollResult { results :=
          [{ correlationId := 100, output := some truth }] } }]
    let calls : List Call := [{}, {}]
    let wait := Operation.awaitCalls .all .zero calls w.ids script
    let f : Callee Forms Value := ⟨"f", id, .untyped⟩
    let ctx : Context := ⟨"g", "", "", "", "", .zero⟩
    calls.length ≤ 2 ^ 64 ∧
      wait.1.answer = .ok [some { correlationId := 100, output := some truth },
        some { correlationId := 101 }] ∧
      ((gather Target.untyped calls).play .zero w script).ending = .ok (.ok [.bool true, .null]) ∧
      (f.gather ctx [.bool true, {}]).play .zero w script =
        ⟨.ok (.error (.ofFailure (CodecError.unsupportedType "value").toFailure)), [], script, w⟩ := by
  intro w truth script calls wait f ctx
  have hlen : calls.length ≤ 2 ^ 64 := by decide
  have hwait : wait.1.answer = .ok [some { correlationId := 100, output := some truth },
      some { correlationId := 101 }] := rfl
  have htruth : truth.unbox Target.untyped = .ok (.bool true) :=
    Boxed.unbox_untyped (Value.decode_of_toItem? (v := .bool true) rfl (by decide))
  obtain ⟨-, -, -, hvalues, hinputs⟩ :=
    gathered_in_call_order (ι := Forms) .zero Target.untyped calls w script
  obtain ⟨used, hscript, -, hordered, -⟩ := hvalues _ hwait hlen
  obtain rfl : script = used := hscript.trans (List.append_nil used)
  obtain ⟨index, input, e, hinput, he, -, hplay⟩ := hinputs f ctx [.bool true, {}]
    ⟨{}, List.mem_cons_of_mem _ List.mem_cons_self, _, rfl⟩
  refine ⟨hlen, hwait, (hordered [.bool true, .null]).2 ⟨rfl, fun i hi => ?_⟩, ?_⟩
  · match i, hi with
    | 0, _ => exact ⟨_, rfl, congrArg some htruth⟩
    | 1, _ => exact ⟨_, rfl, rfl⟩
  · rw [hplay]
    match index, hinput with
    | 0, hinput =>
      obtain rfl := Option.some.inj hinput
      cases he
    | 1, hinput =>
      obtain rfl := Option.some.inj hinput
      cases he
      rfl

end Process

end Resumable
