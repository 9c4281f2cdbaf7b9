import Resumable.Proofs.Frame.Rearranged
import Resumable.Proofs.Frame.RoundTrip

/-!
# Frames of other writers

A later writer may put the fields of its records in another order and add fields that a record here
does not know; `Frame.Varies` says that a frame is another one written so. The `known` of a record
are the fields that it reads, down to the records nested in them. All that a record is written with
is known to it, so a frame varies itself, and all frames that vary it are decoded as it is
(`Frame.rearranged_frames_decode`).
-/

namespace Resumable

open Wire Resumable.Frame

/-! ## The fields of the records -/

/-- The fields that a boxed value knows. -/
def Boxed.known : Known
  | "tag" | "payload" => some Eq
  | _ => none

/-- The fields that a remote error knows. -/
def RemoteError.known : Known
  | "kind" | "message" | "value" | "traceback" => some Eq
  | _ => none

/-- The fields that a result knows. -/
def CallResult.known : Known
  | "correlation_id" | "dispatch_id" => some Eq
  | "output" => some (Rearranged Boxed.known)
  | "error" => some (Rearranged RemoteError.known)
  | _ => none

/-- The fields that a call knows. -/
def Call.known : Known
  | "endpoint" | "function" | "correlation_id" | "expiration" | "version" => some Eq
  | "input" => some (Rearranged Boxed.known)
  | _ => none

/-- The fields that a poll knows. -/
def Poll.known : Known
  | "min_results" | "max_results" | "max_wait" => some Eq
  | "calls" => some (Listed (Rearranged Call.known))
  | "coroutine_state" => some (Rearranged Boxed.known)
  | _ => none

/-- The fields that a poll result knows. -/
def PollResult.known : Known
  | "results" => some (Listed (Rearranged CallResult.known))
  | "coroutine_state" => some (Rearranged Boxed.known)
  | "error" => some (Rearranged RemoteError.known)
  | _ => none

/-- The fields that an exit knows. -/
def Exit.known : Known
  | "result" => some (Rearranged CallResult.known)
  | "tail_call" => some (Rearranged Call.known)
  | _ => none

/-- The fields that a request knows. -/
def Request.known : Known
  | "function" | "dispatch_id" | "parent_dispatch_id" | "root_dispatch_id" | "creation_time"
  | "expiration_time" => some Eq
  | "input" => some (Rearranged Boxed.known)
  | "poll_result" => some (Rearranged PollResult.known)
  | _ => none

/-- The fields that a response knows. -/
def Response.known : Known
  | "status" => some Eq
  | "exit" => some (Rearranged Exit.known)
  | "poll" => some (Rearranged Poll.known)
  | _ => none

/-! ## Records know what they are written with -/

theorem Boxed.rearranged_self (boxed : Boxed) :
    Rearranged Boxed.known boxed.toItem boxed.toItem := by
  apply Rearranged.same
  simp [Boxed.known]

theorem RemoteError.rearranged_self (e : RemoteError) :
    Rearranged RemoteError.known e.toItem e.toItem := by
  obtain ⟨kind, message, value, traceback⟩ := e
  apply Rearranged.same
  cases value <;> cases traceback <;> simp [RemoteError.known]

theorem CallResult.rearranged_self (result : CallResult) :
    Rearranged CallResult.known result.toItem result.toItem := by
  obtain ⟨correlationId, output, error, dispatchId⟩ := result
  apply Rearranged.same
  cases output <;> cases error <;>
    simp [CallResult.known, Boxed.rearranged_self, RemoteError.rearranged_self]

theorem Call.rearranged_self {call : Call} {item : Item} (h : call.toItem = .ok item) :
    Rearranged Call.known item item := by
  obtain ⟨expiration, -, h⟩ := bind_eq_ok_iff.1 h
  cases h
  apply Rearranged.same
  simp [Call.known, Boxed.rearranged_self]

theorem Poll.rearranged_self {poll : Poll} {item : Item} (h : poll.toItem = .ok item) :
    Rearranged Poll.known item item := by
  obtain ⟨maxWait, -, h⟩ := bind_eq_ok_iff.1 h
  obtain ⟨calls, hcalls, h⟩ := bind_eq_ok_iff.1 h
  cases h
  have hlisted : Listed (Rearranged Call.known) (.list calls) (.list calls) := by
    apply Listed.same
    intro item hitem
    obtain ⟨call, -, hcall⟩ := exists_member_of_mapM hcalls item hitem
    exact Call.rearranged_self hcall
  apply Rearranged.same
  simp [Poll.known, Boxed.rearranged_self, hlisted]

theorem PollResult.rearranged_self (result : PollResult) :
    Rearranged PollResult.known result.toItem result.toItem := by
  have hlisted : Listed (Rearranged CallResult.known) (.list (result.results.map CallResult.toItem))
      (.list (result.results.map CallResult.toItem)) :=
    Listed.same (List.forall_mem_map.2 fun r _ => r.rearranged_self)
  obtain ⟨results, state, error⟩ := result
  apply Rearranged.same
  cases error <;>
    simp [PollResult.known, Boxed.rearranged_self, RemoteError.rearranged_self, hlisted]

/-- An optional field that is known is known where it has an item. -/
theorem Fields.known_of_optional {α : Type} {known : Known} {alike : Item → Item → Prop}
    {name : String} {value : Option α} {toItem : α → Except CodecError Item} {fields : Fields}
    (h : Fields.optional name value toItem = .ok fields) (hknown : known name = some alike)
    (halike : ∀ a item, toItem a = .ok item → alike item item) :
    ∀ field ∈ fields, ∃ alike, known field.1 = some alike ∧ alike field.2 field.2 := by
  cases value with
  | none =>
    cases h
    exact List.forall_mem_nil _
  | some a =>
    obtain ⟨item, hitem, h⟩ := bind_eq_ok_iff.1 h
    cases h
    exact List.forall_mem_singleton.2 ⟨alike, hknown, halike a item hitem⟩

theorem Exit.rearranged_self {exit : Exit} {item : Item} (h : exit.toItem = .ok item) :
    Rearranged Exit.known item item := by
  obtain ⟨tailCall, htailCall, h⟩ := bind_eq_ok_iff.1 h
  cases h
  apply Rearranged.same
  refine List.forall_mem_append.2 ⟨?_, ?_⟩
  · simp [Exit.known, CallResult.rearranged_self]
  · exact Fields.known_of_optional htailCall rfl fun _ _ => Call.rearranged_self

theorem Request.rearranged_self {request : Request} {fields : Fields}
    (h : request.fields = .ok fields) :
    Rearranged Request.known (.map fields) (.map fields) := by
  obtain ⟨creation, hcreation, h⟩ := bind_eq_ok_iff.1 h
  obtain ⟨expiration, hexpiration, h⟩ := bind_eq_ok_iff.1 h
  cases h
  apply Rearranged.same
  simp only [List.forall_mem_append]
  refine ⟨⟨⟨?_, ?_⟩, ?_⟩, ?_⟩
  · simp [Request.known]
  · exact Fields.known_of_optional hcreation rfl fun _ _ _ => rfl
  · exact Fields.known_of_optional hexpiration rfl fun _ _ _ => rfl
  · cases request.directive with
    | input boxed => simp [Request.known, Request.Directive.toField, Boxed.rearranged_self]
    | pollResult result =>
      simp [Request.known, Request.Directive.toField, PollResult.rearranged_self]

theorem Response.rearranged_self {response : Response} {fields : Fields}
    (h : response.fields = .ok fields) :
    Rearranged Response.known (.map fields) (.map fields) := by
  obtain ⟨field, hfield, h⟩ := bind_eq_ok_iff.1 h
  cases h
  apply Rearranged.same
  obtain ⟨status, exit | poll⟩ := response
  · obtain ⟨item, hitem, hfield⟩ := bind_eq_ok_iff.1 hfield
    cases hfield
    simp [Response.known, Exit.rearranged_self hitem]
  · obtain ⟨item, hitem, hfield⟩ := bind_eq_ok_iff.1 hfield
    cases hfield
    simp [Response.known, Poll.rearranged_self hitem]

namespace Frame

/-! ## Records -/

theorem readBoxed_rearranged {boxed : Boxed} {other : Item}
    (h : Rearranged Boxed.known boxed.toItem other) (hw : other.Writable) :
    readBoxed other.toBytes = .ok boxed := by
  refine bind_eq_ok_iff.2 ⟨⟨some boxed.shape, some boxed.payload⟩, ?_, rfl⟩
  refine Perform.foldMap_eq
    [fun s => { s with shape := some boxed.shape },
      fun s => { s with payload := some boxed.payload }] ?_ ?_ ?_ rfl h hw
  · apply Perform.same rfl
    · intro _ s
      exact bind_eq_ok_iff.2 ⟨_, readShape_code boxed.shape, rfl⟩
    apply Perform.same rfl
    · intro hw s
      exact bind_eq_ok_iff.2 ⟨_, reader_bytes hw, rfl⟩
    exact Perform.nil
  · simp [commute_iff]
  · -- a name that is not known is none of those that the step looks for
    intro name hname s bs
    dsimp only
    split
    all_goals first | cases hname | rfl

theorem readRemoteError_rearranged {e : RemoteError} {other : Item}
    (h : Rearranged RemoteError.known e.toItem other) (hw : other.Writable) :
    readRemoteError other.toBytes = .ok e := by
  refine Perform.foldMap_eq
    ([fun s => { s with kind := e.kind }, fun s => { s with message := e.message }] ++
      (e.value.map fun value s => { s with value := some value }).toList ++
      (e.traceback.map fun traceback s => { s with traceback := some traceback }).toList)
    ?_ ?_ ?_ ?_ h hw
  · apply Perform.append
    · apply Perform.append
      · apply Perform.same rfl
        · intro hw s
          exact bind_eq_ok_iff.2 ⟨_, reader_string hw, rfl⟩
        apply Perform.same rfl
        · intro hw s
          exact bind_eq_ok_iff.2 ⟨_, reader_string hw, rfl⟩
        exact Perform.nil
      · apply Perform.optional _ rfl
        rintro value _ rfl hw s
        exact bind_eq_ok_iff.2 ⟨_, reader_bytes hw, rfl⟩
    · apply Perform.optional _ rfl
      rintro traceback _ rfl hw s
      exact bind_eq_ok_iff.2 ⟨_, reader_bytes hw, rfl⟩
  · obtain ⟨kind, message, value, traceback⟩ := e
    cases value <;> cases traceback <;> simp [commute_iff]
  · intro name hname s bs
    dsimp only
    split
    all_goals first | cases hname | rfl
  · obtain ⟨kind, message, value, traceback⟩ := e
    cases value <;> cases traceback <;> rfl

theorem readCallResult_rearranged {result : CallResult} {other : Item}
    (h : Rearranged CallResult.known result.toItem other) (hw : other.Writable) :
    readCallResult other.toBytes = .ok result := by
  refine Perform.foldMap_eq
    ([fun s => { s with correlationId := result.correlationId }] ++
      (result.output.map fun output s => { s with output := some output }).toList ++
      (result.error.map fun error s => { s with error := some error }).toList ++
      [fun s => { s with dispatchId := result.dispatchId }]) ?_ ?_ ?_ ?_ h hw
  · apply Perform.append
    · apply Perform.append
      · apply Perform.append
        · apply Perform.same rfl
          · intro _ s
            exact bind_eq_ok_iff.2 ⟨_, reader_u64 _, rfl⟩
          exact Perform.nil
        · apply Perform.optional _ rfl
          intro output other h hw s
          exact bind_eq_ok_iff.2 ⟨_, readBoxed_rearranged h hw, rfl⟩
      · apply Perform.optional _ rfl
        intro error other h hw s
        exact bind_eq_ok_iff.2 ⟨_, readRemoteError_rearranged h hw, rfl⟩
    · apply Perform.same rfl
      · intro hw s
        exact bind_eq_ok_iff.2 ⟨_, reader_string hw, rfl⟩
      exact Perform.nil
  · obtain ⟨correlationId, output, error, dispatchId⟩ := result
    cases output <;> cases error <;> simp [commute_iff]
  · intro name hname s bs
    dsimp only
    split
    all_goals first | cases hname | rfl
  · obtain ⟨correlationId, output, error, dispatchId⟩ := result
    cases output <;> cases error <;> rfl

theorem readCall_rearranged {call : Call} {item other : Item} (hitem : call.toItem = .ok item)
    (h : Rearranged Call.known item other) (hw : other.Writable) :
    readCall other.toBytes = .ok call := by
  obtain ⟨expiration, hexpiration, hitem⟩ := bind_eq_ok_iff.1 hitem
  cases hitem
  refine bind_eq_ok_iff.2 ⟨⟨some call.function, { call with function := "" }⟩, ?_, rfl⟩
  -- all fields but the function are kept in one call, each in a place of its own
  refine Perform.foldMap_eq
    [fun s => { s with call := { s.call with endpoint := call.endpoint } },
      fun s => { s with function := some call.function },
      fun s => { s with call := { s.call with input := call.input } },
      fun s => { s with call := { s.call with correlationId := call.correlationId } },
      fun s => { s with call := { s.call with expiration := call.expiration } },
      fun s => { s with call := { s.call with version := call.version } }] ?_ ?_ ?_ rfl h hw
  · apply Perform.same rfl
    · intro hw s
      exact bind_eq_ok_iff.2 ⟨_, reader_string hw, rfl⟩
    apply Perform.same rfl
    · intro hw s
      exact bind_eq_ok_iff.2 ⟨_, reader_string hw, rfl⟩
    apply Perform.cons rfl
    · intro other h hw s
      exact bind_eq_ok_iff.2 ⟨_, readBoxed_rearranged h hw, rfl⟩
    apply Perform.same rfl
    · intro _ s
      exact bind_eq_ok_iff.2 ⟨_, reader_u64 _, rfl⟩
    apply Perform.same rfl
    · intro _ s
      exact bind_eq_ok_iff.2 ⟨_, readSpan_of_toItem hexpiration, rfl⟩
    apply Perform.same rfl
    · intro hw s
      exact bind_eq_ok_iff.2 ⟨_, reader_string hw, rfl⟩
    exact Perform.nil
  · simp [commute_iff]
  · intro name hname s bs
    dsimp only
    split
    all_goals first | cases hname | rfl

theorem readPoll_rearranged {poll : Poll} {item other : Item} (hitem : poll.toItem = .ok item)
    (h : Rearranged Poll.known item other) (hw : other.Writable) :
    readPoll other.toBytes = .ok poll := by
  obtain ⟨maxWait, hmaxWait, hitem⟩ := bind_eq_ok_iff.1 hitem
  obtain ⟨calls, hcalls, hitem⟩ := bind_eq_ok_iff.1 hitem
  cases hitem
  refine bind_eq_ok_iff.2 ⟨⟨some poll.minResults, some poll.maxResults, some poll.maxWait,
    { calls := poll.calls, state := poll.state }⟩, ?_, rfl⟩
  -- the calls are put behind those that are there, which are none as their field comes once
  refine Perform.foldMap_eq
    [fun s => { s with minResults := some poll.minResults },
      fun s => { s with maxResults := some poll.maxResults },
      fun s => { s with maxWait := some poll.maxWait },
      fun s => { s with poll := s.poll.withCalls (s.poll.calls ++ poll.calls) },
      fun s => { s with poll := s.poll.withState poll.state }] ?_ ?_ ?_ rfl h hw
  · apply Perform.same rfl
    · intro _ s
      exact bind_eq_ok_iff.2 ⟨_, readCount_toUInt64 _ _, rfl⟩
    apply Perform.same rfl
    · intro _ s
      exact bind_eq_ok_iff.2 ⟨_, readCount_toUInt64 _ _, rfl⟩
    apply Perform.same rfl
    · intro _ s
      exact bind_eq_ok_iff.2 ⟨_, readSpan_of_toItem hmaxWait, rfl⟩
    apply Perform.cons rfl
    · intro other h hw s
      have hread := readList_listed hcalls (fun _ _ _ => readCall_rearranged) h hw
      exact bind_eq_ok_iff.2 ⟨_, hread, rfl⟩
    apply Perform.cons rfl
    · intro other h hw s
      exact bind_eq_ok_iff.2 ⟨_, readBoxed_rearranged h hw, rfl⟩
    exact Perform.nil
  · simp [commute_iff, Poll.withCalls, Poll.withState]
  · intro name hname s bs
    dsimp only
    split
    all_goals first | cases hname | rfl

theorem readPollResult_rearranged {result : PollResult} {other : Item}
    (h : Rearranged PollResult.known result.toItem other) (hw : other.Writable) :
    readPollResult other.toBytes = .ok result := by
  have hitems : result.results.mapM (fun r => (pure r.toItem : Except CodecError Item)) =
      .ok (result.results.map CallResult.toItem) := List.mapM_pure
  refine Perform.foldMap_eq
    ([fun s => { s with results := s.results ++ result.results },
        fun s => { s with state := result.state }] ++
      (result.error.map fun error s => { s with error := some error }).toList) ?_ ?_ ?_ ?_ h hw
  · apply Perform.append
    · apply Perform.cons rfl
      · intro other h hw s
        refine bind_eq_ok_iff.2 ⟨_, readList_listed hitems ?_ h hw, rfl⟩
        intro r item other hitem h hw
        obtain rfl := pure_eq_ok_iff.1 hitem
        exact readCallResult_rearranged h hw
      apply Perform.cons rfl
      · intro other h hw s
        exact bind_eq_ok_iff.2 ⟨_, readBoxed_rearranged h hw, rfl⟩
      exact Perform.nil
    · apply Perform.optional _ rfl
      intro error other h hw s
      exact bind_eq_ok_iff.2 ⟨_, readRemoteError_rearranged h hw, rfl⟩
  · obtain ⟨results, state, error⟩ := result
    cases error <;> simp [commute_iff]
  · intro name hname s bs
    dsimp only
    split
    all_goals first | cases hname | rfl
  · obtain ⟨results, state, error⟩ := result
    cases error <;> rfl

theorem readExit_rearranged {exit : Exit} {item other : Item} (hitem : exit.toItem = .ok item)
    (h : Rearranged Exit.known item other) (hw : other.Writable) :
    readExit other.toBytes = .ok exit := by
  obtain ⟨tailCall, htailCall, hitem⟩ := bind_eq_ok_iff.1 hitem
  cases hitem
  refine bind_eq_ok_iff.2 ⟨⟨some exit.result, exit.tailCall⟩, ?_, rfl⟩
  refine Perform.foldMap_eq
    ([fun s => { s with result := some exit.result }] ++
      (exit.tailCall.map fun call s => { s with tailCall := some call }).toList) ?_ ?_ ?_ ?_ h hw
  · apply Perform.append
    · apply Perform.cons rfl
      · intro other h hw s
        exact bind_eq_ok_iff.2 ⟨_, readCallResult_rearranged h hw, rfl⟩
      exact Perform.nil
    · apply Perform.optional_of_eq_ok _ htailCall rfl
      intro call item other hitem h hw s
      exact bind_eq_ok_iff.2 ⟨_, readCall_rearranged hitem h hw, rfl⟩
  · obtain ⟨result, tailCall⟩ := exit
    cases tailCall <;> simp [commute_iff]
  · intro name hname s bs
    dsimp only
    split
    all_goals first | cases hname | rfl
  · obtain ⟨result, tailCall⟩ := exit
    cases tailCall <;> rfl

/-! ## Frames -/

/-- The fields of a rearranged request are read as they were: its one directive is the last one. -/
theorem readRequestFields_rearranged {request : Request} {fields : Fields} {other : Item}
    (hfields : request.fields = .ok fields) (h : Rearranged Request.known (.map fields) other)
    (hw : other.Writable) :
    readRequestFields other.toBytes =
      .ok ⟨some request.function, some request.directive, request.dispatchId,
        request.parentDispatchId, request.rootDispatchId, request.creationTime,
        request.expirationTime⟩ := by
  obtain ⟨creation, hcreation, hfields⟩ := bind_eq_ok_iff.1 hfields
  obtain ⟨expiration, hexpiration, hfields⟩ := bind_eq_ok_iff.1 hfields
  cases hfields
  refine Perform.foldMap_eq
    ([fun s => { s with function := some request.function },
        fun s => { s with dispatchId := request.dispatchId },
        fun s => { s with parentDispatchId := request.parentDispatchId },
        fun s => { s with rootDispatchId := request.rootDispatchId }] ++
      (request.creationTime.map fun time s => { s with creationTime := some time }).toList ++
      (request.expirationTime.map fun time s => { s with expirationTime := some time }).toList ++
      [fun s => { s with directive := some request.directive }]) ?_ ?_ ?_ ?_ h hw
  · apply Perform.append
    · apply Perform.append
      · apply Perform.append
        · apply Perform.same rfl
          · intro hw s
            exact bind_eq_ok_iff.2 ⟨_, reader_string hw, rfl⟩
          apply Perform.same rfl
          · intro hw s
            exact bind_eq_ok_iff.2 ⟨_, reader_string hw, rfl⟩
          apply Perform.same rfl
          · intro hw s
            exact bind_eq_ok_iff.2 ⟨_, reader_string hw, rfl⟩
          apply Perform.same rfl
          · intro hw s
            exact bind_eq_ok_iff.2 ⟨_, reader_string hw, rfl⟩
          exact Perform.nil
        · apply Perform.optional_of_eq_ok _ hcreation rfl
          rintro time item _ hitem rfl _ s
          exact bind_eq_ok_iff.2 ⟨_, readInstant_of_toItem hitem, rfl⟩
      · apply Perform.optional_of_eq_ok _ hexpiration rfl
        rintro time item _ hitem rfl _ s
        exact bind_eq_ok_iff.2 ⟨_, readInstant_of_toItem hitem, rfl⟩
    · -- the directive's field has the name of its kind
      cases request.directive with
      | input boxed =>
        apply Perform.cons rfl
        · intro other h hw s
          exact bind_eq_ok_iff.2 ⟨_, readBoxed_rearranged h hw, rfl⟩
        exact Perform.nil
      | pollResult result =>
        apply Perform.cons rfl
        · intro other h hw s
          exact bind_eq_ok_iff.2 ⟨_, readPollResult_rearranged h hw, rfl⟩
        exact Perform.nil
  · obtain ⟨_, _, _, _, _, creationTime, expirationTime⟩ := request
    cases creationTime <;> cases expirationTime <;> simp [commute_iff]
  · intro name hname s bs
    dsimp only
    split
    all_goals first | cases hname | rfl
  · obtain ⟨_, _, _, _, _, creationTime, expirationTime⟩ := request
    cases creationTime <;> cases expirationTime <;> rfl

/-- The fields of a rearranged response are read as they were. -/
theorem readResponseFields_rearranged {response : Response} {fields : Fields} {other : Item}
    (hfields : response.fields = .ok fields) (h : Rearranged Response.known (.map fields) other)
    (hw : other.Writable) :
    readResponseFields other.toBytes = .ok ⟨some response.status, some response.directive⟩ := by
  obtain ⟨field, hfield, hfields⟩ := bind_eq_ok_iff.1 hfields
  cases hfields
  refine Perform.foldMap_eq
    [fun s => { s with status := some response.status },
      fun s => { s with directive := some response.directive }] ?_ ?_ ?_ rfl h hw
  · apply Perform.same rfl
    · intro _ s
      refine bind_eq_ok_iff.2 ⟨_, reader_u64 _, ?_⟩
      rw [Status.ofCode_code]
      rfl
    obtain ⟨status, exit | poll⟩ := response
    · obtain ⟨item, hitem, hfield⟩ := bind_eq_ok_iff.1 hfield
      cases hfield
      apply Perform.cons rfl
      · intro other h hw s
        exact bind_eq_ok_iff.2 ⟨_, readExit_rearranged hitem h hw, rfl⟩
      exact Perform.nil
    · obtain ⟨item, hitem, hfield⟩ := bind_eq_ok_iff.1 hfield
      cases hfield
      apply Perform.cons rfl
      · intro other h hw s
        exact bind_eq_ok_iff.2 ⟨_, readPoll_rearranged hitem h hw, rfl⟩
      exact Perform.nil
  · simp [commute_iff]
  · intro name hname s bs
    dsimp only
    split
    all_goals first | cases hname | rfl

/-- Whether a frame is another one with its records rearranged, every length in it put right. -/
def Varies (name : String) (known : Known) (bs bs' : Bytes) : Prop :=
  ∃ item item', Item.encode [.variant name item] = .ok bs ∧
    Item.encode [.variant name item'] = .ok bs' ∧ Rearranged known item item'

/-- The frames that vary the frame of an item are those of the items that say the same. -/
theorem varies_toBytes_iff {name : String} {known : Known} {item : Item} {bs : Bytes}
    (hw : (Item.variant name item).Writable) :
    Varies name known (Item.variant name item).toBytes bs ↔
      ∃ other, (Item.variant name other).Writable ∧ bs = (Item.variant name other).toBytes ∧
        Rearranged known item other := by
  simp only [Varies, Item.encode_eq_ok_iff, List.forall_mem_singleton, Item.listBytes_singleton]
  constructor
  · rintro ⟨item', other, ⟨hw', hsame⟩, ⟨hother, rfl⟩, hrearranged⟩
    -- the same bytes are read as one item only
    have hread := Item.read_toBytes_append (.variant name item) [] hw
    rw [hsame, Item.read_toBytes_append (.variant name item') [] hw'] at hread
    obtain ⟨hitem, -⟩ := Prod.mk.inj (Except.ok.inj hread)
    obtain ⟨-, rfl⟩ := Item.variant.inj hitem
    exact ⟨other, hother, rfl, hrearranged⟩
  · rintro ⟨other, hother, rfl, hrearranged⟩
    exact ⟨item, other, ⟨hw, rfl⟩, ⟨hother, rfl⟩, hrearranged⟩

/-- A rearranged record that can be written has a frame. -/
theorem exists_varies {name : String} {known : Known} {item other : Item}
    (hw : (Item.variant name item).Writable) (hother : (Item.variant name other).Writable)
    (h : Rearranged known item other) :
    ∃ bs, Item.encode [.variant name other] = .ok bs ∧
      Varies name known (Item.variant name item).toBytes bs := by
  refine ⟨_, Item.encode_eq_ok_iff.2 ⟨List.forall_mem_singleton.2 hother, rfl⟩, ?_⟩
  exact (varies_toBytes_iff hw).2 ⟨other, hother, Item.listBytes_singleton _, h⟩

/-- A request varies itself: all fields that it is written with are known. -/
theorem varies_self_request {request : Request} {bs : Bytes} (h : request.encode = .ok bs) :
    Varies "Request" Request.known bs bs := by
  obtain ⟨fields, hfields, hw, rfl⟩ := encode_variant_eq_ok_iff.1 h
  exact (varies_toBytes_iff hw).2 ⟨_, hw, rfl, Request.rearranged_self hfields⟩

/-- A response varies itself. -/
theorem varies_self_response {response : Response} {bs : Bytes} (h : response.encode = .ok bs) :
    Varies "Response" Response.known bs bs := by
  obtain ⟨fields, hfields, hw, rfl⟩ := encode_variant_eq_ok_iff.1 h
  exact (varies_toBytes_iff hw).2 ⟨_, hw, rfl, Response.rearranged_self hfields⟩

theorem decode_request_of_varies {request : Request} {bs bs' : Bytes}
    (h : request.encode = .ok bs) (hvaries : Varies "Request" Request.known bs bs') :
    Request.decode bs' = .ok request := by
  obtain ⟨fields, hfields, hw, rfl⟩ := encode_variant_eq_ok_iff.1 h
  obtain ⟨other, hother, rfl, hrearranged⟩ := (varies_toBytes_iff hw).1 hvaries
  have hread := readRequestFields_rearranged hfields hrearranged (Item.writable_variant.1 hother).2
  refine bind_eq_ok_iff.2 ⟨_, envelope_toBytes hother, ?_⟩
  exact bind_eq_ok_iff.2 ⟨_, hread, rfl⟩

theorem decode_response_of_varies {response : Response} {bs bs' : Bytes}
    (h : response.encode = .ok bs) (hvaries : Varies "Response" Response.known bs bs') :
    Response.decode bs' = .ok response := by
  obtain ⟨fields, hfields, hw, rfl⟩ := encode_variant_eq_ok_iff.1 h
  obtain ⟨other, hother, rfl, hrearranged⟩ := (varies_toBytes_iff hw).1 hvaries
  have hread := readResponseFields_rearranged hfields hrearranged (Item.writable_variant.1 hother).2
  refine bind_eq_ok_iff.2 ⟨_, envelope_toBytes hother, ?_⟩
  exact bind_eq_ok_iff.2 ⟨_, hread, rfl⟩

/-- A frame is one of its own rearrangements, and all of them are decoded as it was encoded. -/
theorem rearranged_frames_decode :
    (∀ (request : Request) (bs : Bytes), request.encode = .ok bs →
      Varies "Request" Request.known bs bs ∧
        ∀ bs', Varies "Request" Request.known bs bs' → Request.decode bs' = .ok request) ∧
    ∀ (response : Response) (bs : Bytes), response.encode = .ok bs →
      Varies "Response" Response.known bs bs ∧
        ∀ bs', Varies "Response" Response.known bs bs' → Response.decode bs' = .ok response := by
  constructor
  · intro request bs h
    exact ⟨varies_self_request h, fun bs' hvaries => decode_request_of_varies h hvaries⟩
  · intro response bs h
    exact ⟨varies_self_response h, fun bs' hvaries => decode_response_of_varies h hvaries⟩

/-- Frames with the fields of their records in the opposite order, and with a field in front that no
record knows. -/
theorem rearranged_frames_decode_backwards :
    let input : Boxed := ⟨.bytes, [0xff]⟩
    let request : Request := { function := "f", directive := .input input }
    let call : Call := { function := "g", input }
    let poll : Poll := { maxResults := 1, calls := [call] }
    let response : Response := .poll poll
    let later : String × Item := ("added_later", .list [.u64 1])
    let input' : Item := .map [later, ("payload", .bytes [0xff]), ("tag", .u64 Shape.bytes.code)]
    let request' : Item := .map [later, ("input", input'), ("root_dispatch_id", .string ""),
      ("parent_dispatch_id", .string ""), ("dispatch_id", .string ""), ("function", .string "f")]
    let call' : Item := .map [later, ("version", .string ""), ("expiration", .duration 0 0),
      ("correlation_id", .u64 0), ("input", input'), ("function", .string "g"),
      ("endpoint", .string "")]
    let state' : Item := .map [later, ("payload", .bytes []), ("tag", .u64 Shape.empty.code)]
    let poll' : Item := .map [later, ("coroutine_state", state'), ("calls", .list [call']),
      ("max_wait", .duration 0 0), ("max_results", .u64 1), ("min_results", .u64 0)]
    let response' : Item := .map [later, ("poll", poll'), ("status", .u64 Status.ok.code)]
    (∃ bs bs', request.encode = .ok bs ∧ Item.encode [.variant "Request" request'] = .ok bs' ∧
      Varies "Request" Request.known bs bs' ∧ Request.decode bs' = .ok request) ∧
    ∃ bs bs', response.encode = .ok bs ∧ Item.encode [.variant "Response" response'] = .ok bs' ∧
      Varies "Response" Response.known bs bs' ∧ Response.decode bs' = .ok response := by
  intro input request call poll response later input' request' call' state' poll' response'
  have hinput : Rearranged Boxed.known input.toItem input' := by
    apply Rearranged.backwards rfl
    simp [Alike, Boxed.known, input]
  constructor
  · have hfields : ∃ fields, request.fields = .ok fields ∧
        (Item.variant "Request" (.map fields)).Writable ∧
          Rearranged Request.known (.map fields) request' := by
      refine ⟨_, rfl, by decide +kernel, Rearranged.backwards rfl ?_⟩
      simpa [Alike, Request.known, request, Request.Directive.toField] using hinput
    obtain ⟨fields, hfields, hw, hrequest⟩ := hfields
    have hencode : request.encode = .ok _ := encode_variant_eq_ok_iff.2 ⟨fields, hfields, hw, rfl⟩
    obtain ⟨bs', hother, hvaries⟩ := exists_varies hw (by decide +kernel) hrequest
    exact ⟨_, bs', hencode, hother, hvaries, (rearranged_frames_decode.1 _ _ hencode).2 _ hvaries⟩
  · have hcall : ∃ item, call.toItem = .ok item ∧ Rearranged Call.known item call' := by
      refine ⟨_, rfl, Rearranged.backwards rfl ?_⟩
      simpa [Alike, Call.known, call, Span.zero] using hinput
    obtain ⟨item, hitem, hcall⟩ := hcall
    have hcalls : Listed (Rearranged Call.known) (.list [item]) (.list [call']) :=
      ⟨[item], [call'], rfl, rfl, .cons hcall .nil⟩
    have hstate : Rearranged Boxed.known Boxed.null.toItem state' := by
      apply Rearranged.backwards rfl
      simp [Alike, Boxed.known, Boxed.null]
    cases hitem
    have hpoll : ∃ item, poll.toItem = .ok item ∧ Rearranged Poll.known item poll' := by
      refine ⟨_, rfl, Rearranged.backwards rfl ?_⟩
      simpa [Alike, Poll.known, poll, Span.zero] using ⟨hcalls, hstate⟩
    obtain ⟨item, hitem, hpoll⟩ := hpoll
    have hfields : ∃ fields, response.fields = .ok fields ∧
        (Item.variant "Response" (.map fields)).Writable ∧
          Rearranged Response.known (.map fields) response' := by
      cases hitem
      refine ⟨_, rfl, by decide +kernel, Rearranged.backwards rfl ?_⟩
      simpa [Alike, Response.known, response, Response.poll] using hpoll
    obtain ⟨fields, hfields, hw, hresponse⟩ := hfields
    have hencode : response.encode = .ok _ := encode_variant_eq_ok_iff.2 ⟨fields, hfields, hw, rfl⟩
    obtain ⟨bs', hother, hvaries⟩ := exists_varies hw (by decide +kernel) hresponse
    exact ⟨_, bs', hencode, hother, hvaries, (rearranged_frames_decode.2 _ _ hencode).2 _ hvaries⟩

end Frame

end Resumable
