import Resumable.Boxed.Standard
import Resumable.Proofs.Boxed.Trees
import Resumable.Proofs.Wire.Writing

/-!
# Boxing values and reading them back

A value is boxed under its shape, and decoding or unboxing it untyped gives it back, whatever the
value is (`Value.encode_decode`). The exceptions are a span of too many seconds, the first instant,
and a tree that is too deep; for each of them boxing fails with an error of its own
(`Value.Refused`).
-/

namespace Resumable

open Wire

namespace Value

/-- The errors for which a value cannot be boxed. -/
def Refused : Value → CodecError → Prop
  | timestamp t, e => t.IsFirst ∧ e = .marshal (.instantOutOfRange t)
  | duration d, e => d.IsLong ∧ e = .marshal (.spanOutOfRange d)
  | tree t, e => t.TooDeep ∧ e = .recursionLimitExceeded
  | _, _ => False

/-- Whether every length in the payload of a value fits its four bytes. -/
def LengthsFit (v : Value) : Prop := ∀ item, v.toItem? = .ok (some item) → item.LengthsFit

/-- A value has no item exactly for the errors it is refused with. -/
theorem toItem?_eq_error_iff {v : Value} {e : CodecError} :
    v.toItem? = .error e ↔ v.Refused e := by
  cases v with
  | timestamp t => exact bind_pure_eq_error_iff.trans Instant.toItem_eq_error_iff
  | duration d => exact bind_pure_eq_error_iff.trans Span.toItem_eq_error_iff
  | tree t =>
    refine bind_pure_eq_error_iff.trans ?_
    rw [Refused, Tree.tooDeep_iff]
    constructor
    · intro h
      obtain ⟨rfl, hne⟩ := Tree.of_toItem_eq_error h
      exact ⟨hne, rfl⟩
    · rintro ⟨hne, rfl⟩
      cases h : t.toItem Tree.maxLevels with
      | error e =>
        obtain ⟨rfl, -⟩ := Tree.of_toItem_eq_error h
        rfl
      | ok item => exact absurd (Tree.nodesAt_of_toItem h) hne
  | _ =>
    constructor
    · intro h
      cases h
    · intro h
      cases h

/-- Only the null value is boxed without an item. -/
theorem eq_null_of_toItem? {v : Value} (h : v.toItem? = .ok none) : v = .null := by
  cases v with
  | null => rfl
  | timestamp t | duration d | tree t =>
    obtain ⟨item, -, hitem⟩ := bind_eq_ok_iff.1 h
    cases hitem
  | _ => cases h

/-- The times in the item of a value are valid. -/
theorem valid_of_toItem? {v : Value} {item : Item} (h : v.toItem? = .ok (some item)) :
    item.Valid := by
  cases v with
  | null => cases h
  | timestamp t =>
    obtain ⟨item', hitem, h⟩ := bind_eq_ok_iff.1 h
    cases h
    exact Instant.valid_of_toItem hitem
  | duration d =>
    obtain ⟨item', hitem, h⟩ := bind_eq_ok_iff.1 h
    cases h
    exact Span.valid_of_toItem hitem
  | tree t =>
    obtain ⟨item', hitem, h⟩ := bind_eq_ok_iff.1 h
    cases h
    exact Tree.valid_of_toItem hitem
  | _ =>
    cases h
    exact List.forall_mem_singleton.2 trivial

/-- Reading the item of a value as its shape says gives the value. -/
theorem read_of_toItem? {v : Value} {item : Item} (h : v.toItem? = .ok (some item))
    (hitem : item.Writable) :
    read v.shape item.toBytes = .ok (v, []) := by
  have hnil : item.toBytes = item.toBytes ++ [] := (List.append_nil _).symm
  rw [hnil]
  cases v with
  | null => cases h
  | bool b =>
    cases h
    exact bind_eq_ok_iff.2 ⟨_, CodecError.reading_of_on (Cursor.bool_eq_ok_iff.2 rfl), rfl⟩
  | int n =>
    cases h
    exact bind_eq_ok_iff.2 ⟨_, CodecError.reading_of_on (Cursor.s64_eq_ok_iff.2 rfl), rfl⟩
  | uint n =>
    cases h
    exact bind_eq_ok_iff.2 ⟨_, CodecError.reading_of_on (Cursor.u64_eq_ok_iff.2 rfl), rfl⟩
  | double d =>
    cases h
    exact bind_eq_ok_iff.2 ⟨_, CodecError.reading_of_on (Cursor.f64_eq_ok_iff.2 rfl), rfl⟩
  | string s =>
    cases h
    have hread := Cursor.string_eq_ok_iff.2
      ⟨Item.writable_string.1 hitem, (rfl : (Item.string s).toBytes ++ [] = _)⟩
    exact bind_eq_ok_iff.2 ⟨_, CodecError.reading_of_on hread, rfl⟩
  | bytes data =>
    cases h
    have hread := Cursor.bytes_eq_ok_iff.2
      ⟨Item.writable_bytes.1 hitem, (rfl : (Item.bytes data).toBytes ++ [] = _)⟩
    exact bind_eq_ok_iff.2 ⟨_, CodecError.reading_of_on hread, rfl⟩
  | timestamp t =>
    obtain ⟨item', hto, h⟩ := bind_eq_ok_iff.1 h
    cases h
    obtain ⟨-, rfl⟩ := Instant.toItem_eq_ok_iff.1 hto
    refine bind_eq_ok_iff.2 ⟨_, CodecError.reading_of_on
      (Cursor.timestamp_eq_ok_iff.2 ⟨t.nanos_lt, rfl⟩), ?_⟩
    exact bind_eq_ok_iff.2 ⟨t, t.ofParts_parts, rfl⟩
  | duration d =>
    obtain ⟨item', hto, h⟩ := bind_eq_ok_iff.1 h
    cases h
    obtain ⟨hl, rfl⟩ := Span.toItem_eq_ok_iff.1 hto
    refine bind_eq_ok_iff.2 ⟨_, CodecError.reading_of_on
      (Cursor.duration_eq_ok_iff.2 ⟨Span.nanosOk hl, rfl⟩), ?_⟩
    dsimp only
    rw [Span.ofParts?_parts hl]
    rfl
  | tree t =>
    obtain ⟨item', hto, h⟩ := bind_eq_ok_iff.1 h
    cases h
    exact bind_eq_ok_iff.2 ⟨_, Tree.read_of_toItem hto hitem, rfl⟩

/-- A value that is boxed is decoded to itself. -/
theorem decode_of_toItem? {v : Value} {item : Item} (h : v.toItem? = .ok (some item))
    (hitem : item.Writable) :
    Boxed.decode ⟨v.shape, item.toBytes⟩ = .ok v := by
  have hshape : ¬v.shape = .empty := by
    cases v with
    | null => cases h
    | _ => exact nofun
  have hread := read_of_toItem? h hitem
  rw [Boxed.decode]
  dsimp only
  rw [if_neg hshape]
  exact bind_eq_ok_iff.2 ⟨_, hread, rfl⟩

end Value

/-- Unboxing untyped hands over what was decoded. -/
theorem Boxed.unbox_untyped {boxed : Boxed} {v : Value} (h : boxed.decode = .ok v) :
    boxed.unbox Target.untyped = .ok v := by
  refine bind_eq_ok_iff.2 ⟨v, h, ?_⟩
  cases v with
  | _ => rfl

namespace Value

/-- A value whose item can be written is boxed with the written form of the item. -/
theorem encode_of_toItem? {v : Value} {item : Item} (h : v.toItem? = .ok (some item))
    (hitem : item.Writable) : v.encode = .ok ⟨v.shape, item.toBytes⟩ := by
  refine bind_eq_ok_iff.2 ⟨some item, h, ?_⟩
  dsimp only
  rw [Item.encode_singleton hitem]
  rfl

/-- What a value is boxed as is decoded to the value. -/
theorem decode_of_encode {v : Value} {boxed : Boxed} (h : v.encode = .ok boxed) :
    boxed.decode = .ok v := by
  obtain ⟨item?, htoItem, h⟩ := bind_eq_ok_iff.1 h
  cases item? with
  | none =>
    obtain rfl := eq_null_of_toItem? htoItem
    cases h
    rfl
  | some item =>
    obtain ⟨payload, hpayload, h⟩ := bind_eq_ok_iff.1 h
    cases h
    -- whatever is written can be written, so no length needs to be checked here
    obtain ⟨hitem, rfl⟩ := Item.encode_eq_ok_iff.1 (CodecError.ofWire_eq_ok_iff.1 hpayload)
    rw [Item.listBytes_singleton]
    exact decode_of_toItem? htoItem (hitem item List.mem_cons_self)

/-- A value is boxed unless it is refused, and a boxed value is decoded and unboxed to itself. -/
theorem encode_decode (v : Value) (hlengths : v.LengthsFit) :
    (∀ e, v.encode = .error e ↔ v.Refused e) ∧
      ((∀ e, ¬v.Refused e) → ∃ boxed, v.encode = .ok boxed ∧ boxed.shape = v.shape ∧
        boxed.decode = .ok v ∧ boxed.unbox Target.untyped = .ok v) := by
  cases h : v.toItem? with
  | error e =>
    have hencode : v.encode = .error e := bind_eq_error_iff.2 (.inl h)
    have hrefused := toItem?_eq_error_iff.1 h
    refine ⟨?_, fun hnot => absurd hrefused (hnot e)⟩
    intro e'
    rw [hencode, ← toItem?_eq_error_iff, h, Except.error.injEq, Except.error.injEq]
  | ok item? =>
    have haccepted : ∀ e, ¬v.Refused e := by
      intro e hrefused
      rw [← toItem?_eq_error_iff, h] at hrefused
      cases hrefused
    have hboxed : ∃ boxed, v.encode = .ok boxed ∧ boxed.shape = v.shape ∧ boxed.decode = .ok v := by
      cases item? with
      | none =>
        obtain rfl := eq_null_of_toItem? h
        exact ⟨.null, rfl, rfl, rfl⟩
      | some item =>
        have hitem : item.Writable := ⟨valid_of_toItem? h, hlengths item h⟩
        exact ⟨_, encode_of_toItem? h hitem, rfl, decode_of_toItem? h hitem⟩
    obtain ⟨boxed, hencode, hshape, hdecode⟩ := hboxed
    refine ⟨?_, fun _ => ⟨boxed, hencode, hshape, hdecode, Boxed.unbox_untyped hdecode⟩⟩
    intro e
    rw [hencode]
    exact ⟨nofun, fun hrefused => absurd hrefused (haccepted e)⟩

/-- A tree of two fields comes back whole. -/
theorem encode_decode_of_tree :
    let v : Value := .tree (.ofFields [("b", .list [.null]), ("a", .bool true)])
    v.LengthsFit ∧ ∃ boxed, v.encode = .ok boxed ∧ boxed.shape = .tree ∧ boxed.decode = .ok v ∧
      boxed.unbox Target.untyped = .ok v := by
  intro v
  have hlengths : v.LengthsFit := by
    intro item h
    obtain rfl := Option.some.inj (Except.ok.inj h)
    decide
  refine ⟨hlengths, (encode_decode v hlengths).2 ?_⟩
  rintro e ⟨hdeep, -⟩
  exact Tree.tooDeep_iff.1 hdeep rfl

end Value

end Resumable
