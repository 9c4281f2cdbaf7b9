import Resumable.Proofs.Answer
import Resumable.Proofs.Bytes
import Resumable.Wire.Item

/-!
# Reads, by what they take

Each read of a cursor succeeds on exactly one form of bytes, and takes exactly that form. The lemmas
`_eq_ok_iff` say which form it is; both directions are used, one to read back what was written and
the other to know what was read. A `Delimited` byte string is what `Cursor.skip` passes over, and
`Cursor.items_eq_iff` and `Cursor.entries_eq_iff` say that draining the body of a list or a map to
its end cuts it into such pieces.
-/

namespace Resumable.Wire

namespace Read

variable {α β : Type} {bs rest : Bytes}

/-- A sequence of two reads succeeds as both do, one on what the other leaves. -/
theorem on_bind_eq_ok_iff {x : Read α} {f : α → Read β} {b : β} :
    (x >>= f).on bs = (.ok b, rest) ↔
      ∃ a mid, x.on bs = (.ok a, mid) ∧ (f a).on mid = (.ok b, rest) :=
  stateful_bind_eq_ok_iff

theorem on_pure_eq_ok_iff {a b : α} :
    (pure a : Read α).on bs = (.ok b, rest) ↔ a = b ∧ bs = rest :=
  stateful_pure_eq_ok_iff

theorem on_throw_eq_ok_iff {e : Error} {b : α} :
    (throw e : Read α).on bs = (.ok b, rest) ↔ False :=
  stateful_throw_eq_ok_iff

theorem on_discard_eq_ok_iff {x : Read α} {u : Unit} :
    (discard x : Read Unit).on bs = (.ok u, rest) ↔ ∃ a, x.on bs = (.ok a, rest) := by
  have h : (discard x : Read Unit) = x >>= fun _ => pure () := rfl
  rw [h, on_bind_eq_ok_iff]
  simp [on_pure_eq_ok_iff]

/-- A read behind a check of what was read before. -/
theorem on_guard_eq_ok_iff {c : Prop} [Decidable c] {e : Error} {k : Unit → Read α}
    {x : Read α} {b : α} :
    (if c then throw e >>= k else x).on bs = (.ok b, rest) ↔ ¬c ∧ x.on bs = (.ok b, rest) :=
  stateful_guard_eq_ok_iff

end Read

open Read

/-- A tag with the bytes that belong to it: as many as its width says, or a length and so many. -/
inductive Delimited : Bytes → Prop where
  | fixed {tag : Tag} {data : Bytes} (width : tag.width? = some data.length) :
    Delimited (tag.code :: data)
  | framed {tag : Tag} {body : Bytes} (width : tag.width? = none)
    (fits : body.length ≤ maxLength) : Delimited (Item.framed tag body)

theorem Delimited.ne_nil {item : Bytes} (h : Delimited item) : item ≠ [] := by
  cases h with
  | fixed width => exact List.cons_ne_nil _ _
  | framed width fits => exact List.cons_ne_nil _ _

theorem Item.framed_append (tag : Tag) (body rest : Bytes) :
    Item.framed tag body ++ rest = tag.code :: (lengthBytes body.length ++ (body ++ rest)) := by
  simp [Item.framed]

theorem Item.length_framed (tag : Tag) (body : Bytes) :
    (Item.framed tag body).length = body.length + 5 := by
  simp [Item.framed, lengthBytes]
  omega

namespace Cursor

variable {bs rest : Bytes}

theorem take_eq_ok_iff {n : Nat} {data : Bytes} :
    (take n).on bs = (.ok data, rest) ↔ data.length = n ∧ bs = data ++ rest := by
  show (if n ≤ bs.length then (Except.ok (bs.take n), bs.drop n)
    else (Except.error Error.unexpectedEnd, bs)) = (.ok data, rest) ↔ _
  constructor
  · intro h
    split at h
    · rename_i hn
      obtain ⟨hdata, rfl⟩ := Prod.mk.inj h
      obtain rfl := Except.ok.inj hdata
      exact ⟨List.length_take_of_le hn, (List.take_append_drop n bs).symm⟩
    · cases h
  · rintro ⟨rfl, rfl⟩
    rw [if_pos (by simp), List.take_left, List.drop_left]

theorem number_eq_ok_iff {width n : Nat} :
    (number width).on bs = (.ok n, rest) ↔
      n < 256 ^ width ∧ bs = Bytes.littleEndian width n ++ rest := by
  unfold number
  rw [on_bind_eq_ok_iff]
  simp only [take_eq_ok_iff, on_pure_eq_ok_iff]
  constructor
  · rintro ⟨data, mid, ⟨rfl, rfl⟩, rfl, rfl⟩
    exact ⟨Bytes.number_lt data, by rw [Bytes.littleEndian_number]⟩
  · rintro ⟨hn, rfl⟩
    refine ⟨_, rest, ⟨Bytes.length_littleEndian width n, rfl⟩, ?_, rfl⟩
    rw [Bytes.number_littleEndian, Nat.mod_eq_of_lt hn]

/-- A length and as many bytes. -/
theorem sized_eq_ok_iff {body : Bytes} :
    sized.on bs = (.ok body, rest) ↔
      body.length ≤ maxLength ∧ bs = lengthBytes body.length ++ (body ++ rest) := by
  unfold sized
  rw [on_bind_eq_ok_iff]
  simp only [number_eq_ok_iff, take_eq_ok_iff]
  constructor
  · rintro ⟨n, mid, ⟨hn, rfl⟩, rfl, rfl⟩
    exact ⟨Nat.le_of_lt_succ hn, rfl⟩
  · rintro ⟨hle, rfl⟩
    exact ⟨body.length, body ++ rest, ⟨Nat.lt_succ_of_le hle, rfl⟩, rfl, rfl⟩

theorem peek_eq_ok_iff {tag : Tag} :
    peek.on bs = (.ok tag, rest) ↔ rest = bs ∧ ∃ behind, bs = tag.code :: behind := by
  cases bs with
  | nil =>
    have h : peek.on [] = (.error .unexpectedEnd, []) := rfl
    rw [h]
    simp
  | cons b behind =>
    rw [Read.on, peek]
    constructor
    · intro hpeek
      cases hb : Tag.ofCode? b with
      | none =>
        simp only [hb] at hpeek
        cases hpeek
      | some found =>
        simp only [hb] at hpeek
        obtain ⟨htag, rfl⟩ := Prod.mk.inj hpeek
        obtain rfl := Except.ok.inj htag
        exact ⟨rfl, behind, by rw [Tag.code_of_ofCode? hb]⟩
    · rintro ⟨rfl, behind', hbs⟩
      obtain ⟨rfl, rfl⟩ := List.cons.inj hbs
      simp only [Tag.ofCode?_code]

theorem peek_cons (tag : Tag) (behind : Bytes) :
    peek.on (tag.code :: behind) = (.ok tag, tag.code :: behind) :=
  peek_eq_ok_iff.2 ⟨rfl, behind, rfl⟩

/-- The byte of a tag that was seen is passed over. -/
theorem discard_take_one_eq_ok_iff {b : UInt8} {behind : Bytes} {u : Unit} :
    (discard (take 1)).on (b :: behind) = (.ok u, rest) ↔ behind = rest := by
  rw [on_discard_eq_ok_iff]
  simp only [take_eq_ok_iff]
  constructor
  · rintro ⟨data, hlen, hbs⟩
    obtain ⟨x, rfl⟩ := List.length_eq_one_iff.1 hlen
    exact (List.cons.inj hbs).2
  · rintro rfl
    exact ⟨[b], rfl, rfl⟩

theorem expect_eq_ok_iff {tag : Tag} {u : Unit} :
    (expect tag).on bs = (.ok u, rest) ↔ bs = tag.code :: rest := by
  unfold expect
  rw [on_bind_eq_ok_iff]
  simp only [peek_eq_ok_iff]
  constructor
  · rintro ⟨found, mid, ⟨rfl, behind, rfl⟩, h⟩
    obtain ⟨hfound, h⟩ := on_guard_eq_ok_iff.1 h
    obtain rfl := discard_take_one_eq_ok_iff.1 h
    rw [Decidable.not_not.1 hfound]
  · rintro rfl
    refine ⟨tag, _, ⟨rfl, rest, rfl⟩, on_guard_eq_ok_iff.2 ⟨by simp, ?_⟩⟩
    exact discard_take_one_eq_ok_iff.2 rfl

/-! ## Scalars -/

theorem null_eq_ok_iff {u : Unit} :
    null.on bs = (.ok u, rest) ↔ bs = Item.null.toBytes ++ rest :=
  expect_eq_ok_iff

theorem bool_eq_ok_iff {b : Bool} :
    bool.on bs = (.ok b, rest) ↔ bs = (Item.bool b).toBytes ++ rest := by
  unfold bool
  rw [on_bind_eq_ok_iff]
  simp only [peek_eq_ok_iff]
  constructor
  · rintro ⟨found, mid, ⟨rfl, behind, rfl⟩, h⟩
    split at h
    · obtain ⟨u, mid, h, hb⟩ := on_bind_eq_ok_iff.1 h
      obtain rfl := discard_take_one_eq_ok_iff.1 h
      obtain ⟨rfl, rfl⟩ := on_pure_eq_ok_iff.1 hb
      rfl
    · obtain ⟨u, mid, h, hb⟩ := on_bind_eq_ok_iff.1 h
      obtain rfl := discard_take_one_eq_ok_iff.1 h
      obtain ⟨rfl, rfl⟩ := on_pure_eq_ok_iff.1 hb
      rfl
    · exact absurd h on_throw_eq_ok_iff.1
  · rintro rfl
    cases b with
    | false =>
      refine ⟨.boolFalse, _, ⟨rfl, rest, rfl⟩, on_bind_eq_ok_iff.2 ⟨(), rest, ?_, ?_⟩⟩
      · exact discard_take_one_eq_ok_iff.2 rfl
      · exact on_pure_eq_ok_iff.2 ⟨rfl, rfl⟩
    | true =>
      refine ⟨.boolTrue, _, ⟨rfl, rest, rfl⟩, on_bind_eq_ok_iff.2 ⟨(), rest, ?_, ?_⟩⟩
      · exact discard_take_one_eq_ok_iff.2 rfl
      · exact on_pure_eq_ok_iff.2 ⟨rfl, rfl⟩

/-- A tag with a number of eight bytes behind it. -/
theorem word_eq_ok_iff {tag : Tag} {n : UInt64} :
    (do expect tag; return UInt64.ofNat (← number 8) : Read UInt64).on bs = (.ok n, rest) ↔
      bs = tag.code :: (Bytes.littleEndian 8 n.toNat ++ rest) := by
  simp only [on_bind_eq_ok_iff, expect_eq_ok_iff, number_eq_ok_iff, on_pure_eq_ok_iff]
  constructor
  · rintro ⟨u, mid, rfl, m, mid', ⟨hm, rfl⟩, rfl, rfl⟩
    rw [UInt64.toNat_ofNat_of_lt' hm]
  · rintro rfl
    exact ⟨(), _, rfl, n.toNat, rest, ⟨n.toNat_lt, rfl⟩, UInt64.ofNat_toNat, rfl⟩

theorem u64_eq_ok_iff {n : UInt64} :
    u64.on bs = (.ok n, rest) ↔ bs = (Item.u64 n).toBytes ++ rest :=
  word_eq_ok_iff

theorem f64_eq_ok_iff {bits : UInt64} :
    f64.on bs = (.ok bits, rest) ↔ bs = (Item.f64 bits).toBytes ++ rest :=
  word_eq_ok_iff

theorem s64_eq_ok_iff {n : Int64} :
    s64.on bs = (.ok n, rest) ↔ bs = (Item.s64 n).toBytes ++ rest := by
  unfold s64
  simp only [on_bind_eq_ok_iff, expect_eq_ok_iff, number_eq_ok_iff, on_pure_eq_ok_iff]
  constructor
  · rintro ⟨u, mid, rfl, m, mid', ⟨hm, rfl⟩, rfl, rfl⟩
    show _ = Tag.s64.code :: (Bytes.littleEndian 8 (UInt64.ofNat m).toInt64.toUInt64.toNat ++ mid')
    rw [UInt64.toUInt64_toInt64, UInt64.toNat_ofNat_of_lt' hm]
  · rintro rfl
    refine ⟨(), _, rfl, n.toUInt64.toNat, rest, ⟨n.toUInt64.toNat_lt, rfl⟩, ?_, rfl⟩
    rw [UInt64.ofNat_toNat, Int64.toInt64_toUInt64]

theorem timestamp_eq_ok_iff {secs : Int64} {nanos : UInt32} :
    timestamp.on bs = (.ok (secs, nanos), rest) ↔
      nanos.toNat < nanosPerSecond ∧ bs = (Item.timestamp secs nanos).toBytes ++ rest := by
  unfold timestamp
  simp only [on_bind_eq_ok_iff, expect_eq_ok_iff, number_eq_ok_iff, on_guard_eq_ok_iff,
    on_pure_eq_ok_iff, Prod.mk.injEq]
  constructor
  · rintro ⟨u, mid, rfl, s, mid', ⟨hs, rfl⟩, n, mid'', ⟨hn, rfl⟩, hnanos, ⟨rfl, rfl⟩, rfl⟩
    refine ⟨Nat.lt_of_not_le hnanos, ?_⟩
    show _ = Tag.timestamp.code :: (Bytes.littleEndian 8 (UInt64.ofNat s).toInt64.toUInt64.toNat ++
      Bytes.littleEndian 4 (UInt32.ofNat n).toNat ++ mid'')
    rw [UInt64.toUInt64_toInt64, UInt64.toNat_ofNat_of_lt' hs, UInt32.toNat_ofNat_of_lt' hn,
      List.append_assoc]
  · rintro ⟨hnanos, rfl⟩
    refine ⟨(), _, rfl, secs.toUInt64.toNat, Bytes.littleEndian 4 nanos.toNat ++ rest,
      ⟨secs.toUInt64.toNat_lt, List.append_assoc _ _ _⟩, nanos.toNat, rest,
      ⟨nanos.toNat_lt, rfl⟩, ?_⟩
    rw [UInt64.ofNat_toNat, UInt32.ofNat_toNat, Int64.toInt64_toUInt64]
    exact ⟨Nat.not_le_of_lt hnanos, ⟨rfl, rfl⟩, rfl⟩

theorem duration_eq_ok_iff {secs : Int64} {nanos : Int32} :
    duration.on bs = (.ok (secs, nanos), rest) ↔
      SpanNanosOk secs.toInt nanos.toInt ∧ bs = (Item.duration secs nanos).toBytes ++ rest := by
  unfold duration
  simp only [on_bind_eq_ok_iff, expect_eq_ok_iff, number_eq_ok_iff, on_guard_eq_ok_iff,
    on_pure_eq_ok_iff, Prod.mk.injEq]
  constructor
  · rintro ⟨u, mid, rfl, s, mid', ⟨hs, rfl⟩, n, mid'', ⟨hn, rfl⟩, hnanos, ⟨rfl, rfl⟩, rfl⟩
    refine ⟨Decidable.not_not.1 hnanos, ?_⟩
    show _ = Tag.duration.code :: (Bytes.littleEndian 8 (UInt64.ofNat s).toInt64.toUInt64.toNat ++
      Bytes.littleEndian 4 (UInt32.ofNat n).toInt32.toUInt32.toNat ++ mid'')
    rw [UInt64.toUInt64_toInt64, UInt32.toUInt32_toInt32, UInt64.toNat_ofNat_of_lt' hs,
      UInt32.toNat_ofNat_of_lt' hn, List.append_assoc]
  · rintro ⟨hnanos, rfl⟩
    refine ⟨(), _, rfl, secs.toUInt64.toNat, Bytes.littleEndian 4 nanos.toUInt32.toNat ++ rest,
      ⟨secs.toUInt64.toNat_lt, List.append_assoc _ _ _⟩, nanos.toUInt32.toNat, rest,
      ⟨nanos.toUInt32.toNat_lt, rfl⟩, ?_⟩
    rw [UInt64.ofNat_toNat, UInt32.ofNat_toNat, Int64.toInt64_toUInt64, Int32.toInt32_toUInt32]
    exact ⟨Decidable.not_not.2 hnanos, ⟨rfl, rfl⟩, rfl⟩

/-! ## Items that carry their length -/

/-- A tag with a length and as many bytes behind it. -/
theorem body_eq_ok_iff {tag : Tag} {inner : Bytes} :
    (body tag).on bs = (.ok inner, rest) ↔
      inner.length ≤ maxLength ∧ bs = Item.framed tag inner ++ rest := by
  unfold body
  simp only [on_bind_eq_ok_iff, expect_eq_ok_iff, sized_eq_ok_iff, Item.framed_append]
  constructor
  · rintro ⟨u, mid, rfl, hle, rfl⟩
    exact ⟨hle, rfl⟩
  · rintro ⟨hle, rfl⟩
    exact ⟨(), _, rfl, hle, rfl⟩

theorem bytes_eq_ok_iff {data : Bytes} :
    bytes.on bs = (.ok data, rest) ↔
      data.length ≤ maxLength ∧ bs = (Item.bytes data).toBytes ++ rest :=
  body_eq_ok_iff

theorem string_eq_ok_iff {s : String} :
    string.on bs = (.ok s, rest) ↔
      (Bytes.ofText s).length ≤ maxLength ∧ bs = (Item.string s).toBytes ++ rest := by
  unfold string
  simp only [on_bind_eq_ok_iff, expect_eq_ok_iff, sized_eq_ok_iff]
  constructor
  · rintro ⟨u, mid, rfl, data, mid', ⟨hle, rfl⟩, h⟩
    cases htext : Bytes.text? data with
    | none =>
      simp only [htext] at h
      exact absurd h on_throw_eq_ok_iff.1
    | some text =>
      simp only [htext] at h
      obtain ⟨rfl, rfl⟩ := on_pure_eq_ok_iff.1 h
      rw [Item.toBytes, Item.framed_append, Bytes.ofText_of_text? htext]
      exact ⟨hle, rfl⟩
  · rintro ⟨hle, rfl⟩
    refine ⟨(), _, Item.framed_append .string _ rest, Bytes.ofText s, rest, ⟨hle, rfl⟩, ?_⟩
    simp only [Bytes.text?_ofText]
    exact on_pure_eq_ok_iff.2 ⟨rfl, rfl⟩

theorem option_eq_none_iff :
    option.on bs = (.ok none, rest) ↔ bs = Item.optionNone.toBytes ++ rest := by
  unfold option
  rw [on_bind_eq_ok_iff]
  simp only [peek_eq_ok_iff]
  constructor
  · rintro ⟨found, mid, ⟨rfl, behind, rfl⟩, h⟩
    split at h
    · obtain ⟨u, mid, h, hnone⟩ := on_bind_eq_ok_iff.1 h
      obtain rfl := discard_take_one_eq_ok_iff.1 h
      obtain ⟨-, rfl⟩ := on_pure_eq_ok_iff.1 hnone
      rfl
    · obtain ⟨inner, mid, -, hsome⟩ := on_bind_eq_ok_iff.1 h
      cases (on_pure_eq_ok_iff.1 hsome).1
    · exact absurd h on_throw_eq_ok_iff.1
  · rintro rfl
    refine ⟨.optionNone, _, ⟨rfl, rest, rfl⟩, on_bind_eq_ok_iff.2 ⟨(), rest, ?_, ?_⟩⟩
    · exact discard_take_one_eq_ok_iff.2 rfl
    · exact on_pure_eq_ok_iff.2 ⟨rfl, rfl⟩

theorem option_eq_some_iff {inner : Bytes} :
    option.on bs = (.ok (some inner), rest) ↔
      inner.length ≤ maxLength ∧ bs = Item.framed .optionSome inner ++ rest := by
  unfold option
  rw [on_bind_eq_ok_iff]
  simp only [peek_eq_ok_iff]
  constructor
  · rintro ⟨found, mid, ⟨rfl, behind, rfl⟩, h⟩
    split at h
    · obtain ⟨u, mid, -, hnone⟩ := on_bind_eq_ok_iff.1 h
      cases (on_pure_eq_ok_iff.1 hnone).1
    · obtain ⟨found, mid, hbody, hsome⟩ := on_bind_eq_ok_iff.1 h
      obtain ⟨hinner, rfl⟩ := on_pure_eq_ok_iff.1 hsome
      obtain rfl := Option.some.inj hinner
      exact body_eq_ok_iff.1 hbody
    · exact absurd h on_throw_eq_ok_iff.1
  · rintro ⟨hle, rfl⟩
    refine ⟨.optionSome, _, ⟨rfl, _, Item.framed_append _ _ _⟩, on_bind_eq_ok_iff.2 ?_⟩
    exact ⟨inner, rest, body_eq_ok_iff.2 ⟨hle, rfl⟩, on_pure_eq_ok_iff.2 ⟨rfl, rfl⟩⟩

/-- The body of a variant: its name, and what follows the name. -/
def namedBody (name : String) (value : Bytes) : Bytes :=
  Item.framed .string (Bytes.ofText name) ++ value

theorem length_namedBody (name : String) (value : Bytes) :
    (namedBody name value).length = (Bytes.ofText name).length + 5 + value.length := by
  rw [namedBody, List.length_append, Item.length_framed]

theorem length_variantBytes (name : String) (value : Bytes) :
    (Item.variantBytes name value).length = (Bytes.ofText name).length + value.length + 10 := by
  rw [Item.variantBytes, Item.length_framed, List.length_append, Item.length_framed]
  omega

theorem variant_eq_ok_iff {name : String} {value : Bytes} :
    variant.on bs = (.ok (name, value), rest) ↔
      (namedBody name value).length ≤ maxLength ∧ bs = Item.variantBytes name value ++ rest := by
  unfold variant
  rw [on_bind_eq_ok_iff]
  simp only [body_eq_ok_iff]
  constructor
  · rintro ⟨inner, mid, ⟨hle, rfl⟩, h⟩
    split at h
    · rename_i found behind hname
      obtain ⟨heq, rfl⟩ := on_pure_eq_ok_iff.1 h
      obtain ⟨rfl, rfl⟩ := Prod.mk.inj heq
      obtain ⟨-, rfl⟩ := string_eq_ok_iff.1 hname
      exact ⟨hle, rfl⟩
    · exact absurd h on_throw_eq_ok_iff.1
  · rintro ⟨hle, rfl⟩
    have hname : string.on (namedBody name value) = (.ok name, value) := by
      rw [length_namedBody] at hle
      exact string_eq_ok_iff.2 ⟨by omega, rfl⟩
    refine ⟨namedBody name value, rest, ⟨hle, rfl⟩, ?_⟩
    rw [hname]
    exact on_pure_eq_ok_iff.2 ⟨rfl, rfl⟩

/-! ## Cutting a body into items -/

theorem skip_eq_ok_iff {u : Unit} :
    skip.on bs = (.ok u, rest) ↔ ∃ item, Delimited item ∧ bs = item ++ rest := by
  unfold skip
  simp only [on_bind_eq_ok_iff, peek_eq_ok_iff]
  constructor
  · rintro ⟨tag, mid, ⟨rfl, behind, rfl⟩, u, mid', htake, h⟩
    obtain rfl := discard_take_one_eq_ok_iff.1 htake
    split at h
    · rename_i width hwidth
      obtain ⟨data, hdata⟩ := on_discard_eq_ok_iff.1 h
      obtain ⟨rfl, rfl⟩ := take_eq_ok_iff.1 hdata
      exact ⟨tag.code :: data, .fixed hwidth, rfl⟩
    · rename_i hwidth
      obtain ⟨body, hbody⟩ := on_discard_eq_ok_iff.1 h
      obtain ⟨hle, rfl⟩ := sized_eq_ok_iff.1 hbody
      exact ⟨Item.framed tag body, .framed hwidth hle, (Item.framed_append tag body rest).symm⟩
  · rintro ⟨item, hitem, rfl⟩
    cases hitem with
    | @fixed tag data width =>
      refine ⟨tag, _, ⟨rfl, data ++ rest, rfl⟩, (), data ++ rest,
        discard_take_one_eq_ok_iff.2 rfl, ?_⟩
      rw [width]
      exact on_discard_eq_ok_iff.2 ⟨data, take_eq_ok_iff.2 ⟨rfl, rfl⟩⟩
    | @framed tag body width fits =>
      rw [Item.framed_append]
      refine ⟨tag, _, ⟨rfl, _, rfl⟩, (), _, discard_take_one_eq_ok_iff.2 rfl, ?_⟩
      rw [width]
      exact on_discard_eq_ok_iff.2 ⟨body, sized_eq_ok_iff.2 ⟨fits, rfl⟩⟩

theorem on_get_eq_ok_iff {found : Bytes} :
    (get : Read Bytes).on bs = (.ok found, rest) ↔ found = bs ∧ rest = bs := by
  show ((Except.ok bs : Except Error Bytes), bs) = _ ↔ _
  simp [eq_comm]

theorem nextItem_eq_none_iff : nextItem.on bs = (.ok none, rest) ↔ bs = [] ∧ rest = [] := by
  unfold nextItem
  simp only [on_bind_eq_ok_iff, on_get_eq_ok_iff]
  constructor
  · rintro ⟨found, mid, ⟨rfl, rfl⟩, h⟩
    split at h
    · rename_i hempty
      obtain ⟨-, rfl⟩ := on_pure_eq_ok_iff.1 h
      exact ⟨List.isEmpty_iff.1 hempty, List.isEmpty_iff.1 hempty⟩
    · split at h
      · exact absurd h on_throw_eq_ok_iff.1
      · obtain ⟨window, mid, -, hsome⟩ := on_bind_eq_ok_iff.1 h
        cases (on_pure_eq_ok_iff.1 hsome).1
  · rintro ⟨rfl, rfl⟩
    exact ⟨[], [], ⟨rfl, rfl⟩, on_pure_eq_ok_iff.2 ⟨rfl, rfl⟩⟩

/-- A list body gives its items one by one. -/
theorem nextItem_eq_some_iff {window : Bytes} :
    nextItem.on bs = (.ok (some window), rest) ↔ Delimited window ∧ bs = window ++ rest := by
  unfold nextItem
  simp only [on_bind_eq_ok_iff, on_get_eq_ok_iff]
  constructor
  · rintro ⟨found, mid, ⟨rfl, rfl⟩, h⟩
    split at h
    · cases (on_pure_eq_ok_iff.1 h).1
    · split at h
      · exact absurd h on_throw_eq_ok_iff.1
      · rename_i behind hskip
        obtain ⟨item, hitem, rfl⟩ := skip_eq_ok_iff.1 hskip
        obtain ⟨found, mid, htake, hsome⟩ := on_bind_eq_ok_iff.1 h
        obtain ⟨hwindow, rfl⟩ := on_pure_eq_ok_iff.1 hsome
        obtain rfl := Option.some.inj hwindow
        obtain ⟨hlen, hsplit⟩ := take_eq_ok_iff.1 htake
        -- what was measured and what was taken are as long as each other
        have hitemlen : found.length = item.length := by rw [hlen, List.length_append]; omega
        obtain ⟨rfl, rfl⟩ := List.append_inj hsplit hitemlen.symm
        exact ⟨hitem, rfl⟩
  · rintro ⟨hwindow, rfl⟩
    refine ⟨_, _, ⟨rfl, rfl⟩, ?_⟩
    have hskip : skip.on (window ++ rest) = (.ok (), rest) :=
      skip_eq_ok_iff.2 ⟨window, hwindow, rfl⟩
    rw [if_neg (by simp [hwindow.ne_nil]), hskip]
    refine on_bind_eq_ok_iff.2 ⟨window, rest, take_eq_ok_iff.2 ⟨?_, rfl⟩, ?_⟩
    · rw [List.length_append]
      omega
    · exact on_pure_eq_ok_iff.2 ⟨rfl, rfl⟩

theorem nextEntry_eq_none_iff : nextEntry.on bs = (.ok none, rest) ↔ bs = [] ∧ rest = [] := by
  unfold nextEntry
  simp only [on_bind_eq_ok_iff, on_get_eq_ok_iff]
  constructor
  · rintro ⟨found, mid, ⟨rfl, rfl⟩, h⟩
    split at h
    · rename_i hempty
      obtain ⟨-, rfl⟩ := on_pure_eq_ok_iff.1 h
      exact ⟨List.isEmpty_iff.1 hempty, List.isEmpty_iff.1 hempty⟩
    · obtain ⟨tag, mid, -, h⟩ := on_bind_eq_ok_iff.1 h
      obtain ⟨-, h⟩ := on_guard_eq_ok_iff.1 h
      obtain ⟨entry, mid, -, hsome⟩ := on_bind_eq_ok_iff.1 h
      cases (on_pure_eq_ok_iff.1 hsome).1
  · rintro ⟨rfl, rfl⟩
    exact ⟨[], [], ⟨rfl, rfl⟩, on_pure_eq_ok_iff.2 ⟨rfl, rfl⟩⟩

/-- A map body gives its entries one by one. -/
theorem nextEntry_eq_some_iff {name : String} {value : Bytes} :
    nextEntry.on bs = (.ok (some (name, value)), rest) ↔
      (namedBody name value).length ≤ maxLength ∧ bs = Item.variantBytes name value ++ rest := by
  unfold nextEntry
  simp only [on_bind_eq_ok_iff, on_get_eq_ok_iff]
  constructor
  · rintro ⟨found, mid, ⟨rfl, rfl⟩, h⟩
    split at h
    · cases (on_pure_eq_ok_iff.1 h).1
    · obtain ⟨tag, mid', hpeek, hguard⟩ := on_bind_eq_ok_iff.1 h
      obtain ⟨rfl, -⟩ := peek_eq_ok_iff.1 hpeek
      obtain ⟨-, hread⟩ := on_guard_eq_ok_iff.1 hguard
      obtain ⟨entry, mid, hvariant, hsome⟩ := on_bind_eq_ok_iff.1 hread
      obtain ⟨hentry, rfl⟩ := on_pure_eq_ok_iff.1 hsome
      obtain rfl := Option.some.inj hentry
      exact variant_eq_ok_iff.1 hvariant
  · rintro ⟨hle, rfl⟩
    have hbytes : Item.variantBytes name value ++ rest =
        Tag.variant.code :: (lengthBytes (namedBody name value).length ++
          (namedBody name value ++ rest)) :=
      Item.framed_append _ _ _
    have hpeek : peek.on (Item.variantBytes name value ++ rest) =
        (.ok .variant, Item.variantBytes name value ++ rest) := by
      rw [hbytes]
      exact peek_cons _ _
    have hvariant : variant.on (Item.variantBytes name value ++ rest) = (.ok (name, value), rest) :=
      variant_eq_ok_iff.2 ⟨hle, rfl⟩
    refine ⟨_, _, ⟨rfl, rfl⟩, ?_⟩
    rw [if_neg (by rw [hbytes]; simp)]
    refine on_bind_eq_ok_iff.2 ⟨_, _, hpeek, on_guard_eq_ok_iff.2 ⟨by simp, ?_⟩⟩
    exact on_bind_eq_ok_iff.2 ⟨_, rest, hvariant, on_pure_eq_ok_iff.2 ⟨rfl, rfl⟩⟩

/-! ## Draining a body -/

/-- What a step through a body is: it ends where the body ends, and otherwise takes one piece, of
the form that `piece` gives to what it yields. -/
structure Steps {α : Type} (next : Read (Option α)) (piece : α → Bytes) (Fits : α → Prop) :
    Prop where
  none_iff : ∀ bs rest, next.on bs = (.ok none, rest) ↔ bs = [] ∧ rest = []
  some_iff : ∀ bs rest a, next.on bs = (.ok (some a), rest) ↔ Fits a ∧ bs = piece a ++ rest
  ne_nil : ∀ a, Fits a → piece a ≠ []

/-- A body is drained without failure iff it is a row of pieces. Each piece has a byte, so there are
fewer of them than steps allowed. -/
theorem Steps.drain_eq_iff {α : Type} {next : Read (Option α)} {piece : α → Bytes}
    {Fits : α → Prop} (h : Steps next piece Fits) {fuel : Nat} {bs : Bytes} {as : List α}
    (hfuel : bs.length < fuel) :
    drain next fuel bs = (as, none) ↔ (∀ a ∈ as, Fits a) ∧ bs = as.flatMap piece := by
  induction fuel generalizing bs as with
  | zero => exact absurd hfuel (Nat.not_lt_zero _)
  | succ fuel ih =>
    unfold drain
    rcases hnext : next.on bs with ⟨e | _ | a, rest⟩
    · -- the step fails: `bs` is neither empty nor does a piece stand at its front
      constructor
      · intro heq
        cases heq
      · rintro ⟨hfits, hflat⟩
        cases as with
        | nil =>
          rw [(h.none_iff bs []).2 ⟨hflat, rfl⟩] at hnext
          cases hnext
        | cons a as =>
          rw [(h.some_iff bs (as.flatMap piece) a).2 ⟨hfits a List.mem_cons_self, hflat⟩] at hnext
          cases hnext
    · obtain ⟨rfl, rfl⟩ := (h.none_iff _ _).1 hnext
      constructor
      · intro heq
        obtain ⟨rfl, -⟩ := Prod.mk.inj heq
        exact ⟨fun a ha => absurd ha List.not_mem_nil, rfl⟩
      · rintro ⟨hfits, hflat⟩
        cases as with
        | nil => rfl
        | cons a as =>
          have hne := h.ne_nil a (hfits a List.mem_cons_self)
          exact absurd (List.append_eq_nil_iff.1 hflat.symm).1 hne
    · obtain ⟨hfit, rfl⟩ := (h.some_iff _ _ _).1 hnext
      have hpiece : 0 < (piece a).length := List.length_pos_iff.2 (h.ne_nil a hfit)
      rw [List.length_append] at hfuel
      have hrest := @ih rest
      constructor
      · intro heq
        obtain ⟨has, hnone⟩ := Prod.mk.inj heq
        obtain ⟨hfits, hflat⟩ := (hrest (by omega)).1 (Prod.ext rfl hnone)
        subst has
        exact ⟨List.forall_mem_cons.2 ⟨hfit, hfits⟩, by rw [List.flatMap_cons, ← hflat]⟩
      · rintro ⟨hfits, hflat⟩
        cases as with
        | nil =>
          exact absurd (List.append_eq_nil_iff.1 hflat).1 (h.ne_nil a hfit)
        | cons b as =>
          -- the first piece is the one that the step took
          obtain ⟨hb, htail⟩ := List.forall_mem_cons.1 hfits
          have hsame := (h.some_iff _ (as.flatMap piece) b).2 ⟨hb, hflat⟩
          rw [hnext] at hsame
          obtain ⟨hab, hbehind⟩ := Prod.mk.inj hsame
          obtain rfl := Option.some.inj (Except.ok.inj hab)
          have hdrain := (hrest (by omega)).2 ⟨htail, hbehind⟩
          simp only [hdrain]

/-- A list body is drained without failure iff it is a row of items. -/
theorem items_eq_iff {body : Bytes} {windows : List Bytes} :
    items body = (windows, none) ↔ (∀ w ∈ windows, Delimited w) ∧ body = windows.flatten := by
  have hsteps : Steps nextItem (fun w => w) Delimited := {
    none_iff := fun _ _ => nextItem_eq_none_iff
    some_iff := fun _ _ _ => nextItem_eq_some_iff
    ne_nil := fun _ h => h.ne_nil }
  rw [items, hsteps.drain_eq_iff (Nat.lt_succ_self _), List.flatMap_id']

/-- A map body is drained without failure iff it is a row of variants. -/
theorem entries_eq_iff {body : Bytes} {windows : List (String × Bytes)} :
    entries body = (windows, none) ↔
      (∀ e ∈ windows, (namedBody e.1 e.2).length ≤ maxLength) ∧
        body = windows.flatMap fun e => Item.variantBytes e.1 e.2 := by
  have hsteps : Steps nextEntry (fun e => Item.variantBytes e.1 e.2)
      (fun e => (namedBody e.1 e.2).length ≤ maxLength) := {
    none_iff := fun _ _ => nextEntry_eq_none_iff
    some_iff := fun _ _ _ => nextEntry_eq_some_iff
    ne_nil := fun _ _ => List.cons_ne_nil _ _ }
  rw [entries, hsteps.drain_eq_iff (Nat.lt_succ_self _)]

end Cursor

end Resumable.Wire
