import Resumable.Proofs.Boxed.Canonical
import Resumable.Proofs.Frame.RoundTrip

/-!
# Points in time, in and out

Every number of seconds with its nanoseconds is an instant, and every instant is read from the item
of its parts, be it in a payload (`Boxed.decode_eq_timestamp_iff`) or in a frame
(`Frame.readInstant_eq_ok_iff`). The other way, an instant is written as this item unless it is the
first one of the range, for which no distance to the epoch fits a signed word
(`Instant.in_and_out`).
-/

namespace Resumable

open Wire Resumable.Frame

/-- An instant is boxed as the item of its parts, unless it is the first. -/
theorem Value.encode_timestamp (t : Instant) :
    (Value.timestamp t).encode = if t.IsFirst then .error (.marshal (.instantOutOfRange t))
      else .ok ⟨.timestamp, (Item.timestamp t.secs t.nanos).toBytes⟩ := by
  split
  · rename_i hfirst
    exact bind_eq_error_iff.2 (.inl (toItem?_eq_error_iff.2 ⟨hfirst, rfl⟩))
  · rename_i hfirst
    have hitem := Instant.toItem_eq_ok_iff.2 ⟨hfirst, rfl⟩
    exact encode_of_toItem? (v := .timestamp t) (bind_eq_ok_iff.2 ⟨_, hitem, rfl⟩)
      (Item.writable_timestamp.2 t.nanos_lt)

/-- The payloads of an instant, also of the first, are the items of its parts. -/
theorem Boxed.decode_eq_timestamp_iff {boxed : Boxed} {t : Instant} :
    boxed.decode = .ok (.timestamp t) ↔
      boxed = ⟨.timestamp, (Item.timestamp t.secs t.nanos).toBytes⟩ := by
  rw [decode_eq_ok_iff]
  constructor
  · rintro (⟨-, h⟩ | ⟨-, hread⟩)
    · cases h
    · obtain ⟨shape, payload⟩ := boxed
      obtain rfl : Shape.timestamp = shape := Value.shape_of_read hread
      obtain ⟨⟨⟨secs, nanos⟩, rest⟩, hparts, hread⟩ := bind_eq_ok_iff.1 hread
      obtain ⟨t', ht, hread⟩ := bind_eq_ok_iff.1 hread
      cases hread
      obtain ⟨hnanos, rfl⟩ := Cursor.timestamp_eq_ok_iff.1 (CodecError.reading_eq_ok_iff.1 hparts)
      obtain ⟨rfl, rfl⟩ := Instant.parts_of_ofParts hnanos ht
      rw [List.append_nil]
  · rintro rfl
    have hread := Cursor.timestamp_eq_ok_iff.2
      ⟨t.nanos_lt, (List.append_nil (Item.timestamp t.secs t.nanos).toBytes).symm⟩
    refine .inr ⟨nofun, bind_eq_ok_iff.2 ⟨_, CodecError.reading_of_on hread, ?_⟩⟩
    exact bind_eq_ok_iff.2 ⟨t, t.ofParts_parts, rfl⟩

/-- A field of a frame that is an instant, also the first, begins with the item of its parts. -/
theorem Frame.readInstant_eq_ok_iff {bs : Bytes} {t : Instant} :
    readInstant bs = .ok t ↔ ∃ left, bs = (Item.timestamp t.secs t.nanos).toBytes ++ left := by
  constructor
  · intro h
    obtain ⟨⟨secs, nanos⟩, hparts, ht⟩ := bind_eq_ok_iff.1 h
    obtain ⟨left, hread⟩ := reader_eq_ok_iff.1 hparts
    obtain ⟨hnanos, rfl⟩ := Cursor.timestamp_eq_ok_iff.1 hread
    obtain ⟨rfl, rfl⟩ := Instant.parts_of_ofParts hnanos ht
    exact ⟨left, rfl⟩
  · rintro ⟨left, rfl⟩
    have hread := Cursor.timestamp_eq_ok_iff.2
      ⟨t.nanos_lt, (rfl : (Item.timestamp t.secs t.nanos).toBytes ++ left = _)⟩
    exact bind_eq_ok_iff.2 ⟨_, reader_of_on hread, t.ofParts_parts⟩

/-- An instant is boxed and unboxed to itself, unless it is the first. -/
theorem Forms.unbox_timestamp {t : Instant} (hfirst : ¬t.IsFirst) :
    ∃ boxed, (Forms.timestamp t).box = .ok boxed ∧ boxed.unbox Target.timestamp = .ok t := by
  have hencode := Value.encode_timestamp t
  rw [if_neg hfirst] at hencode
  refine ⟨_, hencode, bind_eq_ok_iff.2 ⟨_, Boxed.decode_eq_timestamp_iff.2 rfl, rfl⟩⟩

namespace Instant

/-- All seconds and nanoseconds are the parts of an instant; instants are boxed and unboxed to
themselves, and those that are read from a payload or a field are written in the same bytes again.
For the first instant of the range, and for no other, the way back fails. -/
theorem in_and_out (secs : Int64) (nanos : UInt32) (hnanos : nanos.toNat < 1000000000) :
    let t : Instant := ⟨secs, nanos, hnanos⟩
    -- from the parts and back
    ofParts secs nanos = .ok t ∧
    (t.epochParts? = if t.IsFirst then none else some (secs, nanos)) ∧
    -- boxed and unboxed, and read from a payload and written again
    (if t.IsFirst then (Forms.timestamp t).box = .error (.marshal (.instantOutOfRange t))
      else ∃ boxed, (Forms.timestamp t).box = .ok boxed ∧
        boxed.unbox Target.timestamp = .ok t) ∧
    (∀ boxed : Boxed, boxed.decode = .ok (.timestamp t) →
      (Value.timestamp t).encode =
        if t.IsFirst then .error (.marshal (.instantOutOfRange t)) else .ok boxed) ∧
    -- read from a field and written again, and requests with such fields
    (∀ bs, readInstant bs = .ok t →
      ∃ left, bs = (Item.timestamp secs nanos).toBytes ++ left ∧
        t.toItem = if t.IsFirst then .error (.marshal (.instantOutOfRange t))
          else .ok (.timestamp secs nanos)) ∧
    ∀ request : Request, request.LengthsFit →
      ((∃ bs, request.encode = .ok bs ∧ Request.decode bs = .ok request) ↔
        ∀ t ∈ request.times, ¬t.IsFirst) := by
  intro t
  refine ⟨t.ofParts_parts, t.epochParts?_eq, ?_, ?_, ?_, ?_⟩
  · split
    · rename_i hfirst
      have hencode := Value.encode_timestamp t
      rwa [if_pos hfirst] at hencode
    · rename_i hfirst
      exact Forms.unbox_timestamp hfirst
  · intro boxed h
    rw [Boxed.decode_eq_timestamp_iff.1 h]
    exact Value.encode_timestamp t
  · intro bs h
    obtain ⟨left, hbs⟩ := readInstant_eq_ok_iff.1 h
    exact ⟨left, hbs, t.toItem_eq⟩
  · intro request hlengths
    rw [← Request.exists_encode_iff hlengths]
    constructor
    · rintro ⟨bs, hencode, -⟩
      exact ⟨bs, hencode⟩
    · rintro ⟨bs, hencode⟩
      exact ⟨bs, hencode, Request.decode_of_encode hencode⟩

/-- The second instant of the range, one nanosecond after the first, goes all ways. -/
theorem in_and_out_of_second :
    let second : Instant := ⟨Int64.minValue, 1, by decide⟩
    let boxed : Boxed := ⟨.timestamp, (Item.timestamp Int64.minValue 1).toBytes⟩
    let request : Request :=
      { function := "f", directive := .input boxed, creationTime := some second }
    ofParts Int64.minValue 1 = .ok second ∧ second.epochParts? = some (Int64.minValue, 1) ∧
      (∃ boxed, (Forms.timestamp second).box = .ok boxed ∧
        boxed.unbox Target.timestamp = .ok second) ∧
      (Value.timestamp second).encode = .ok boxed ∧
      second.toItem = .ok (.timestamp Int64.minValue 1) ∧
      ∃ bs, request.encode = .ok bs ∧ Request.decode bs = .ok request := by
  intro second boxed request
  obtain ⟨hparts, hepoch, hboxed, hpayload, hfield, hrequest⟩ :=
    in_and_out Int64.minValue 1 (by decide)
  have hfirst : ¬second.IsFirst := by decide
  have hcreation : Fields.optional "creation_time" request.creationTime toItem =
      .ok [("creation_time", .timestamp Int64.minValue 1)] :=
    bind_eq_ok_iff.2 ⟨_, toItem_eq_ok_iff.2 ⟨hfirst, rfl⟩, rfl⟩
  have hlengths : request.LengthsFit := by
    intro fields h
    obtain ⟨creation, hcreation', h⟩ := bind_eq_ok_iff.1 h
    obtain rfl := Except.ok.inj (hcreation.symm.trans hcreation')
    obtain rfl := Except.ok.inj h
    decide +kernel
  have hencode := hpayload boxed (Boxed.decode_eq_timestamp_iff.2 rfl)
  obtain ⟨-, -, hitem⟩ := hfield _ (readInstant_eq_ok_iff.2 ⟨[], rfl⟩)
  rw [if_neg hfirst] at hepoch hboxed hencode hitem
  exact ⟨hparts, hepoch, hboxed, hencode, hitem, (hrequest request hlengths).2 (by decide)⟩

/-- The first instant of the range is read from its parts and from its payload, and cannot be
written again. -/
theorem first_not_written :
    let payload : Bytes := [0x06, 0, 0, 0, 0, 0, 0, 0, 0x80, 0, 0, 0, 0]
    ∃ t, ofParts Int64.minValue 0 = .ok t ∧ t.epochParts? = none ∧
      Boxed.decode ⟨.timestamp, payload⟩ = .ok (.timestamp t) ∧
      (Value.timestamp t).encode = .error (.marshal (.instantOutOfRange t)) := by
  intro payload
  let first : Instant := ⟨Int64.minValue, 0, by decide⟩
  have hfirst : first.IsFirst := by decide
  have hepoch := first.epochParts?_eq
  have hencode := Value.encode_timestamp first
  rw [if_pos hfirst] at hepoch hencode
  have hpayload : payload = (Item.timestamp first.secs first.nanos).toBytes := by decide
  exact ⟨first, first.ofParts_parts, hepoch,
    Boxed.decode_eq_timestamp_iff.2 (by rw [hpayload]), hencode⟩

end Instant

end Resumable
