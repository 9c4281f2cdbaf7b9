import Resumable.Proofs.Frame.Records
import Resumable.Proofs.Wire.Writing

/-!
# Frames that come back

A request or a response is decoded from its frame as it was, whatever is boxed in it and whatever is
left out of it (`Frame.round_trip`). Encoding fails only for the times that have no item: the first
instant, of the times of a request (`Request.times`), and the long spans, of those in a response
(`Response.spans`).
-/

namespace Resumable

open Wire

/-! ## Which records have items -/

theorem Fields.exists_optional_iff {α : Type} {name : String} {value : Option α}
    {toItem : α → Except CodecError Item} :
    (∃ fields, Fields.optional name value toItem = .ok fields) ↔
      ∀ a ∈ value, ∃ item, toItem a = .ok item := by
  cases value with
  | none => exact ⟨fun _ => nofun, fun _ => ⟨[], rfl⟩⟩
  | some a =>
    refine exists_bind_pure_eq_ok_iff.trans ⟨?_, fun h => h a rfl⟩
    rintro h a' ha'
    obtain rfl := Option.some.inj ha'
    exact h

/-- A call has an item unless its expiration is long. -/
theorem Call.exists_toItem_iff {call : Call} :
    (∃ item, call.toItem = .ok item) ↔ ¬call.expiration.IsLong :=
  exists_bind_pure_eq_ok_iff.trans Span.exists_toItem_iff

theorem Poll.exists_toItem_iff {poll : Poll} :
    (∃ item, poll.toItem = .ok item) ↔
      ¬poll.maxWait.IsLong ∧ ∀ call ∈ poll.calls, ¬call.expiration.IsLong := by
  have hcalls : (∃ items, poll.calls.mapM Call.toItem = .ok items) ↔
      ∀ call ∈ poll.calls, ¬call.expiration.IsLong := by
    rw [exists_mapM_eq_ok_iff]
    exact forall₂_congr fun _ _ => Call.exists_toItem_iff
  rw [← Span.exists_toItem_iff, ← hcalls]
  exact exists_bind_eq_ok_iff fun _ => exists_bind_pure_eq_ok_iff

theorem Exit.exists_toItem_iff {exit : Exit} :
    (∃ item, exit.toItem = .ok item) ↔ ∀ call ∈ exit.tailCall, ¬call.expiration.IsLong := by
  refine exists_bind_pure_eq_ok_iff.trans (Fields.exists_optional_iff.trans ?_)
  exact forall₂_congr fun _ _ => Call.exists_toItem_iff

/-- The times of a request. -/
def Request.times (request : Request) : List Instant :=
  request.creationTime.toList ++ request.expirationTime.toList

/-- The spans in a response. -/
def Response.spans (response : Response) : List Span :=
  match response.directive with
  | .exit exit => exit.tailCall.toList.map Call.expiration
  | .poll poll => poll.maxWait :: poll.calls.map Call.expiration

/-- A request has fields unless one of its times is the first instant. -/
theorem Request.exists_fields_iff {request : Request} :
    (∃ fields, request.fields = .ok fields) ↔ ∀ t ∈ request.times, ¬t.IsFirst := by
  have htime : ∀ (name : String) (time : Option Instant),
      (∃ fields, Fields.optional name time Instant.toItem = .ok fields) ↔
        ∀ t ∈ time.toList, ¬t.IsFirst := by
    intro name time
    rw [Fields.exists_optional_iff]
    simp only [Option.mem_toList]
    exact forall₂_congr fun _ _ => Instant.exists_toItem_iff
  rw [Request.times, List.forall_mem_append, ← htime "creation_time", ← htime "expiration_time"]
  exact exists_bind_eq_ok_iff fun _ => exists_bind_pure_eq_ok_iff

/-- A response has fields unless one of its spans is long. -/
theorem Response.exists_fields_iff {response : Response} :
    (∃ fields, response.fields = .ok fields) ↔ ∀ d ∈ response.spans, ¬d.IsLong := by
  obtain ⟨status, directive⟩ := response
  refine exists_bind_pure_eq_ok_iff.trans ?_
  cases directive with
  | exit exit =>
    refine exists_bind_pure_eq_ok_iff.trans (Exit.exists_toItem_iff.trans ?_)
    rw [Response.spans, List.forall_mem_map]
    exact forall_congr' fun call => imp_congr_left Option.mem_toList.symm
  | poll poll =>
    refine exists_bind_pure_eq_ok_iff.trans (Poll.exists_toItem_iff.trans ?_)
    rw [Response.spans, List.forall_mem_cons, List.forall_mem_map]

/-! ## The times in items are valid -/

theorem Boxed.valid_toItem (boxed : Boxed) : boxed.toItem.Valid := by
  simp [Boxed.toItem]

theorem Fields.valid_optional {α : Type} {name : String} {value : Option α} {toItem : α → Item}
    (h : ∀ a, (toItem a).Valid) :
    ∀ e ∈ (value.map fun a => (name, toItem a)).toList, e.2.Valid := by
  cases value with
  | none => exact nofun
  | some a => exact List.forall_mem_singleton.2 (h a)

theorem RemoteError.valid_toItem (e : RemoteError) : e.toItem.Valid := by
  simp only [toItem, Item.valid_map, List.forall_mem_append]
  refine ⟨⟨?_, ?_⟩, ?_⟩
  · simp
  · exact Fields.valid_optional Item.valid_bytes
  · exact Fields.valid_optional Item.valid_bytes

theorem CallResult.valid_toItem (result : CallResult) : result.toItem.Valid := by
  simp only [toItem, Item.valid_map, List.forall_mem_append]
  refine ⟨⟨⟨?_, ?_⟩, ?_⟩, ?_⟩
  · simp
  · exact Fields.valid_optional Boxed.valid_toItem
  · exact Fields.valid_optional RemoteError.valid_toItem
  · simp

theorem PollResult.valid_toItem (result : PollResult) : result.toItem.Valid := by
  simp only [toItem, Item.valid_map, List.forall_mem_append]
  constructor
  · simp [Boxed.valid_toItem, CallResult.valid_toItem]
  · exact Fields.valid_optional RemoteError.valid_toItem

theorem Fields.valid_of_optional {α : Type} {name : String} {value : Option α}
    {toItem : α → Except CodecError Item} {fields : Fields}
    (h : Fields.optional name value toItem = .ok fields)
    (hvalid : ∀ a item, toItem a = .ok item → item.Valid) : ∀ e ∈ fields, e.2.Valid := by
  cases value with
  | none =>
    cases h
    exact nofun
  | some a =>
    obtain ⟨item, hitem, h⟩ := bind_eq_ok_iff.1 h
    cases h
    exact List.forall_mem_singleton.2 (hvalid a item hitem)

theorem Call.valid_of_toItem {call : Call} {item : Item} (h : call.toItem = .ok item) :
    item.Valid := by
  obtain ⟨expiration, hexpiration, h⟩ := bind_eq_ok_iff.1 h
  cases h
  simp [Boxed.valid_toItem, Span.valid_of_toItem hexpiration]

theorem Poll.valid_of_toItem {poll : Poll} {item : Item} (h : poll.toItem = .ok item) :
    item.Valid := by
  obtain ⟨maxWait, hmaxWait, h⟩ := bind_eq_ok_iff.1 h
  obtain ⟨calls, hcalls, h⟩ := bind_eq_ok_iff.1 h
  cases h
  have hvalid : ∀ item ∈ calls, item.Valid := by
    intro item hitem
    obtain ⟨call, -, hcall⟩ := exists_member_of_mapM hcalls item hitem
    exact Call.valid_of_toItem hcall
  simpa [Boxed.valid_toItem, Span.valid_of_toItem hmaxWait] using hvalid

theorem Exit.valid_of_toItem {exit : Exit} {item : Item} (h : exit.toItem = .ok item) :
    item.Valid := by
  obtain ⟨tailCall, htailCall, h⟩ := bind_eq_ok_iff.1 h
  cases h
  refine Item.valid_map.2 (List.forall_mem_append.2 ⟨?_, ?_⟩)
  · exact List.forall_mem_singleton.2 exit.result.valid_toItem
  · exact Fields.valid_of_optional htailCall fun _ _ => Call.valid_of_toItem

theorem Request.valid_of_fields {request : Request} {fields : Fields}
    (h : request.fields = .ok fields) : (Item.map fields).Valid := by
  obtain ⟨creation, hcreation, h⟩ := bind_eq_ok_iff.1 h
  obtain ⟨expiration, hexpiration, h⟩ := bind_eq_ok_iff.1 h
  cases h
  have hdirective : request.directive.toField.2.Valid := by
    cases request.directive with
    | input boxed => exact boxed.valid_toItem
    | pollResult result => exact result.valid_toItem
  simp only [Item.valid_map, List.forall_mem_append]
  refine ⟨⟨⟨?_, ?_⟩, ?_⟩, ?_⟩
  · simp
  · exact Fields.valid_of_optional hcreation fun _ _ => Instant.valid_of_toItem
  · exact Fields.valid_of_optional hexpiration fun _ _ => Instant.valid_of_toItem
  · exact List.forall_mem_singleton.2 hdirective

theorem Response.valid_of_fields {response : Response} {fields : Fields}
    (h : response.fields = .ok fields) : (Item.map fields).Valid := by
  obtain ⟨directive, hdirective, h⟩ := bind_eq_ok_iff.1 h
  cases h
  have hvalid : directive.2.Valid := by
    obtain ⟨status, exit | poll⟩ := response
    · obtain ⟨item, hitem, hfield⟩ := bind_eq_ok_iff.1 hdirective
      cases hfield
      exact Exit.valid_of_toItem hitem
    · obtain ⟨item, hitem, hfield⟩ := bind_eq_ok_iff.1 hdirective
      cases hfield
      exact Poll.valid_of_toItem hitem
  simpa using hvalid

/-! ## Frames -/

namespace Frame

/-- A frame is written where there are fields for it and these can be written. -/
theorem encode_variant_eq_ok_iff {name : String} {fields? : Except CodecError Fields} {bs : Bytes} :
    (do CodecError.ofWire (Item.encode [.variant name (.map (← fields?))])) = .ok bs ↔
      ∃ fields, fields? = .ok fields ∧ (Item.variant name (.map fields)).Writable ∧
        bs = (Item.variant name (.map fields)).toBytes := by
  rw [bind_eq_ok_iff]
  refine exists_congr fun fields => and_congr_right fun _ => ?_
  rw [CodecError.ofWire_eq_ok_iff, Item.encode_eq_ok_iff, List.forall_mem_singleton,
    Item.listBytes_singleton]

/-- Where a record whose fields can be written has fields, it has a frame. -/
theorem exists_encode_variant_iff {name : String} {fields? : Except CodecError Fields}
    (hw : ∀ fields, fields? = .ok fields → (Item.variant name (.map fields)).Writable) :
    (∃ bs, (do CodecError.ofWire (Item.encode [.variant name (.map (← fields?))])) = .ok bs) ↔
      ∃ fields, fields? = .ok fields := by
  constructor
  · rintro ⟨bs, h⟩
    obtain ⟨fields, hfields, -⟩ := encode_variant_eq_ok_iff.1 h
    exact ⟨fields, hfields⟩
  · rintro ⟨fields, h⟩
    exact ⟨_, encode_variant_eq_ok_iff.2 ⟨fields, h, hw fields h, rfl⟩⟩

theorem envelope_toBytes {name : String} {item : Item} (hw : (Item.variant name item).Writable) :
    envelope name (Item.variant name item).toBytes = .ok (item.toBytes, []) := by
  have hread := Cursor.variant_eq_ok_iff.2 ⟨(Item.writable_variant.1 hw).1,
    (rfl : Item.variantBytes name item.toBytes ++ [] = _)⟩
  rw [List.append_nil] at hread
  rw [Item.toBytes]
  refine bind_eq_ok_iff.2 ⟨_, CodecError.reading_of_on hread, ?_⟩
  dsimp only
  rw [if_pos rfl]
  rfl

/-- The fields of a request are read as they were. -/
theorem readRequestFields_of_fields {request : Request} {fields : Fields}
    (h : request.fields = .ok fields) (hw : (Item.map fields).Writable) :
    readRequestFields (Item.map fields).toBytes =
      .ok ⟨some request.function, some request.directive, request.dispatchId,
        request.parentDispatchId, request.rootDispatchId, request.creationTime,
        request.expirationTime⟩ := by
  obtain ⟨creation, hcreation, h⟩ := bind_eq_ok_iff.1 h
  obtain ⟨expiration, hexpiration, h⟩ := bind_eq_ok_iff.1 h
  cases h
  refine Folds.foldMap_eq ?_ hw
  apply Folds.append
  · apply Folds.append
    · apply Folds.append
      · apply Folds.cons
        · intro h
          exact bind_eq_ok_iff.2 ⟨_, reader_string h, rfl⟩
        apply Folds.cons
        · intro h
          exact bind_eq_ok_iff.2 ⟨_, reader_string h, rfl⟩
        apply Folds.cons
        · intro h
          exact bind_eq_ok_iff.2 ⟨_, reader_string h, rfl⟩
        apply Folds.cons
        · intro h
          exact bind_eq_ok_iff.2 ⟨_, reader_string h, rfl⟩
        exact Folds.nil
      · refine Folds.optional_of_eq_ok (fun creationTime => RequestFields.mk
          (some request.function) none request.dispatchId request.parentDispatchId
          request.rootDispatchId creationTime none) hcreation ?_
        intro time item hitem _
        exact bind_eq_ok_iff.2 ⟨_, readInstant_of_toItem hitem, rfl⟩
    · refine Folds.optional_of_eq_ok (fun expirationTime => RequestFields.mk
          (some request.function) none request.dispatchId request.parentDispatchId
          request.rootDispatchId request.creationTime expirationTime) hexpiration ?_
      intro time item hitem _
      exact bind_eq_ok_iff.2 ⟨_, readInstant_of_toItem hitem, rfl⟩
  · -- the directive's field comes last, under the name of its kind
    obtain ⟨function, directive, _, _, _, _, _⟩ := request
    cases directive with
    | input boxed =>
      apply Folds.cons
      · intro h
        exact bind_eq_ok_iff.2 ⟨_, readBoxed_toItem h, rfl⟩
      exact Folds.nil
    | pollResult result =>
      apply Folds.cons
      · intro h
        exact bind_eq_ok_iff.2 ⟨_, readPollResult_toItem h, rfl⟩
      exact Folds.nil

/-- The fields of a response are read as they were. -/
theorem readResponseFields_of_fields {response : Response} {fields : Fields}
    (h : response.fields = .ok fields) (hw : (Item.map fields).Writable) :
    readResponseFields (Item.map fields).toBytes =
      .ok ⟨some response.status, some response.directive⟩ := by
  obtain ⟨field, hfield, h⟩ := bind_eq_ok_iff.1 h
  cases h
  -- the fold keeps the status by its code
  suffices hread : readResponseFields (Item.map [("status", _), field]).toBytes =
      .ok ⟨some (Status.ofCode response.status.code), some response.directive⟩ by
    rwa [Status.ofCode_code] at hread
  refine Folds.foldMap_eq ?_ hw
  apply Folds.cons
  · intro _
    exact bind_eq_ok_iff.2 ⟨_, reader_u64 _, rfl⟩
  obtain ⟨status, exit | poll⟩ := response
  · obtain ⟨item, hitem, hfield⟩ := bind_eq_ok_iff.1 hfield
    cases hfield
    apply Folds.cons
    · intro h
      exact bind_eq_ok_iff.2 ⟨_, readExit_of_toItem hitem h, rfl⟩
    exact Folds.nil
  · obtain ⟨item, hitem, hfield⟩ := bind_eq_ok_iff.1 hfield
    cases hfield
    apply Folds.cons
    · intro h
      exact bind_eq_ok_iff.2 ⟨_, readPoll_of_toItem hitem h, rfl⟩
    exact Folds.nil

end Frame

open Resumable.Frame

/-! ## Requests -/

namespace Request

/-- Whether every length in the frame of a request fits its four bytes. -/
def LengthsFit (request : Request) : Prop :=
  ∀ fields, request.fields = .ok fields → (Item.variant "Request" (.map fields)).LengthsFit

/-- A request is encoded if it has fields. -/
theorem exists_encode_iff {request : Request} (hlengths : request.LengthsFit) :
    (∃ bs, request.encode = .ok bs) ↔ ∀ t ∈ request.times, ¬t.IsFirst := by
  rw [← exists_fields_iff]
  apply exists_encode_variant_iff
  intro fields h
  exact ⟨Item.valid_variant.2 (valid_of_fields h), hlengths fields h⟩

/-- A frame that a request was encoded as is decoded to the request. -/
theorem decode_of_encode {request : Request} {bs : Bytes} (h : request.encode = .ok bs) :
    Request.decode bs = .ok request := by
  obtain ⟨fields, hfields, hw, rfl⟩ := encode_variant_eq_ok_iff.1 h
  have hread := readRequestFields_of_fields hfields (Item.writable_variant.1 hw).2
  refine bind_eq_ok_iff.2 ⟨_, envelope_toBytes hw, ?_⟩
  exact bind_eq_ok_iff.2 ⟨_, hread, rfl⟩

end Request

/-! ## Responses -/

namespace Response

/-- Whether every length in the frame of a response fits its four bytes. -/
def LengthsFit (response : Response) : Prop :=
  ∀ fields, response.fields = .ok fields → (Item.variant "Response" (.map fields)).LengthsFit

/-- A response is encoded if it has fields. -/
theorem exists_encode_iff {response : Response} (hlengths : response.LengthsFit) :
    (∃ bs, response.encode = .ok bs) ↔ ∀ d ∈ response.spans, ¬d.IsLong := by
  rw [← exists_fields_iff]
  apply exists_encode_variant_iff
  intro fields h
  exact ⟨Item.valid_variant.2 (valid_of_fields h), hlengths fields h⟩

/-- A frame that a response was encoded as is decoded to the response. -/
theorem decode_of_encode {response : Response} {bs : Bytes} (h : response.encode = .ok bs) :
    Response.decode bs = .ok response := by
  obtain ⟨fields, hfields, hw, rfl⟩ := encode_variant_eq_ok_iff.1 h
  have hread := readResponseFields_of_fields hfields (Item.writable_variant.1 hw).2
  refine bind_eq_ok_iff.2 ⟨_, envelope_toBytes hw, ?_⟩
  exact bind_eq_ok_iff.2 ⟨_, hread, rfl⟩

end Response

namespace Frame

/-- Frames are encoded unless one of their times has no item, and are decoded as they were. -/
theorem round_trip :
    (∀ request : Request, request.LengthsFit →
      ((∃ e, request.encode = .error e) ↔ ∃ t ∈ request.times, t.IsFirst) ∧
        ((∀ t ∈ request.times, ¬t.IsFirst) →
          ∃ bs, request.encode = .ok bs ∧ Request.decode bs = .ok request)) ∧
      ∀ response : Response, response.LengthsFit →
        ((∃ e, response.encode = .error e) ↔ ∃ d ∈ response.spans, d.IsLong) ∧
          ((∀ d ∈ response.spans, ¬d.IsLong) →
            ∃ bs, response.encode = .ok bs ∧ Response.decode bs = .ok response) := by
  constructor
  · intro request hlengths
    have hencode := Request.exists_encode_iff hlengths
    constructor
    · rw [exists_error_iff, hencode]
      simp
    · intro htimes
      obtain ⟨bs, h⟩ := hencode.2 htimes
      exact ⟨bs, h, Request.decode_of_encode h⟩
  · intro response hlengths
    have hencode := Response.exists_encode_iff hlengths
    constructor
    · rw [exists_error_iff, hencode]
      simp
    · intro hspans
      obtain ⟨bs, h⟩ := hencode.2 hspans
      exact ⟨bs, h, Response.decode_of_encode h⟩

/-- The frames of a request that resumes and of a response that suspends come back, but a response
that waits for more seconds than a signed word holds has no frame. -/
theorem round_trip_of_poll :
    let input : Boxed := ⟨.bytes, [0xff]⟩
    let error : RemoteError := { kind := "k", message := "m", value := some [0] }
    let result : PollResult := { results := [{ output := some input }, { error := some error }] }
    let request : Request :=
      { function := "f", directive := .pollResult result, creationTime := some .epoch }
    let poll : Poll := { maxResults := 2, maxWait := ⟨5, 1, by decide⟩, calls := [{ input }, {}] }
    let waiting : Response := .poll { poll with maxWait := ⟨0x8000000000000000, 0, by decide⟩ }
    (∃ bs, request.encode = .ok bs ∧ Request.decode bs = .ok request) ∧
      (∃ bs, (Response.poll poll).encode = .ok bs ∧ Response.decode bs = .ok (.poll poll)) ∧
        ∃ e, waiting.encode = .error e := by
  intro input error result request poll waiting
  have hrequest : request.LengthsFit := by
    intro fields h
    obtain rfl := Except.ok.inj h
    decide +kernel
  have hresponse : (Response.poll poll).LengthsFit := by
    intro fields h
    obtain rfl := Except.ok.inj h
    decide +kernel
  have hwaiting : waiting.LengthsFit := by
    intro fields h
    cases h
  refine ⟨(round_trip.1 request hrequest).2 ?_, (round_trip.2 _ hresponse).2 ?_, ?_⟩
  · decide
  · decide
  · exact (round_trip.2 waiting hwaiting).1.2 ⟨_, List.mem_cons_self, by decide⟩

end Frame

end Resumable
