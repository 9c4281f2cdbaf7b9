import Resumable.Proofs.Wire.Exact

/-!
# Skipping and reading

A cursor passes over an item by a rule of its own, the width of its tag, and each typed read takes it
by another one. The two agree (`TypedRead.skip_agrees`): a read that succeeds takes what skipping
passes over, and what skipping passes over is taken by every read of its tag, even by one that then
refuses what it has taken. `TypedRead.Malformed` lists what there is to refuse.
-/

namespace Resumable.Wire

/-! ## Reads that go on -/

namespace Read

variable {α β : Type} {bs mid rest : Bytes}

/-- A read goes on where the one before it has stopped. -/
theorem on_bind_of_on {x : Read α} {f : α → Read β} {a : α} (h : x.on bs = (.ok a, mid)) :
    (x >>= f).on bs = (f a).on mid := by
  show ExceptT.bind x f bs = _
  simp only [ExceptT.bind, ExceptT.mk, bind, StateT.bind]
  rw [show x bs = (.ok a, mid) from h]
  rfl

/-- A sequence of reads fails with the first of them. -/
theorem on_bind_of_error {x : Read α} {f : α → Read β} {e : Error}
    (h : x.on bs = (.error e, mid)) : (x >>= f).on bs = (.error e, mid) := by
  show ExceptT.bind x f bs = _
  simp only [ExceptT.bind, ExceptT.mk, bind, StateT.bind]
  rw [show x bs = (.error e, mid) from h]
  rfl

/-- A read is refused by a check of what was read before. -/
theorem on_guard_of_pos {c : Prop} [Decidable c] {e : Error} {k : Unit → Read α} {x : Read α}
    (h : c) : (if c then throw e >>= k else x).on bs = (.error e, bs) := by
  rw [if_pos h]
  rfl

theorem Exact.skip_on {op : Read α} {a : α} (h : op.Exact) (hread : op.on bs = (.ok a, rest)) :
    Cursor.skip.on bs = (.ok (), rest) := by
  obtain ⟨item, hitem, hbs, -⟩ := h _ _ _ hread
  exact Cursor.skip_eq_ok_iff.2 ⟨item, hitem, hbs⟩

/-- Whatever is put behind the bytes of an exact read is left unread. -/
theorem Exact.on_append {op : Read α} {a : α} (h : op.Exact) (hread : op.on bs = (.ok a, rest))
    (more : Bytes) : op.on (bs ++ more) = (.ok a, rest ++ more) := by
  obtain ⟨item, -, rfl, hsame⟩ := h _ _ _ hread
  rw [List.append_assoc]
  exact hsame _

end Read

open Read

/-- What an item is whose tag is known. -/
theorem Delimited.of_code {tag : Tag} {data : Bytes} (h : Delimited (tag.code :: data)) :
    tag.width? = some data.length ∨
      tag.width? = none ∧
        ∃ body : Bytes, body.length ≤ maxLength ∧ data = lengthBytes body.length ++ body := by
  generalize hitem : tag.code :: data = item at h
  cases h with
  | @fixed found behind width =>
    obtain ⟨hcode, rfl⟩ := List.cons.inj hitem
    obtain rfl := Tag.code_inj hcode
    exact .inl width
  | @framed found body width fits =>
    obtain ⟨hcode, hdata⟩ := List.cons.inj hitem
    obtain rfl := Tag.code_inj hcode
    exact .inr ⟨width, body, fits, hdata⟩

/-- The length of a body that is delimited is its length. -/
theorem Delimited.fits_of_framed {tag : Tag} {body : Bytes} (width : tag.width? = none)
    (h : Delimited (Item.framed tag body)) : body.length ≤ maxLength := by
  rcases h.of_code with hwidth | ⟨-, inner, hle, hdata⟩
  · rw [hwidth] at width
    cases width
  · obtain ⟨-, rfl⟩ := List.append_inj hdata (by simp [lengthBytes])
    exact hle

theorem Delimited.exists_code {item : Bytes} (h : Delimited item) :
    ∃ (tag : Tag) (data : Bytes), item = tag.code :: data := by
  cases h with
  | fixed width => exact ⟨_, _, rfl⟩
  | framed width fits => exact ⟨_, _, rfl⟩

namespace Cursor

theorem expect_cons (tag : Tag) (behind : Bytes) :
    (expect tag).on (tag.code :: behind) = (.ok (), behind) :=
  expect_eq_ok_iff.2 rfl

theorem exact_body {tag : Tag} (width : tag.width? = none) : (body tag).Exact := by
  intro bs rest inner h
  obtain ⟨hle, rfl⟩ := body_eq_ok_iff.1 h
  exact ⟨_, .framed width hle, rfl, fun behind => body_eq_ok_iff.2 ⟨hle, rfl⟩⟩

theorem exact_optionNone : optionNone.Exact := by
  intro bs rest u h
  obtain rfl := expect_eq_ok_iff.1 h
  exact ⟨[Tag.optionNone.code], .fixed rfl, rfl, fun behind => expect_eq_ok_iff.2 rfl⟩

theorem exact_option : option.Exact := by
  intro bs rest found h
  cases found with
  | none =>
    obtain rfl := option_eq_none_iff.1 h
    exact ⟨[Tag.optionNone.code], .fixed rfl, rfl, fun behind => option_eq_none_iff.2 rfl⟩
  | some inner =>
    obtain ⟨hle, rfl⟩ := option_eq_some_iff.1 h
    exact ⟨_, .framed rfl hle, rfl, fun behind => option_eq_some_iff.2 ⟨hle, rfl⟩⟩

theorem exact_variant : variant.Exact := by
  rintro bs rest ⟨name, value⟩ h
  obtain ⟨hle, rfl⟩ := variant_eq_ok_iff.1 h
  exact ⟨_, .framed rfl hle, rfl, fun behind => variant_eq_ok_iff.2 ⟨hle, rfl⟩⟩

end Cursor

/-! ## Typed reads -/

/-- The typed reads of a cursor. -/
inductive TypedRead where
  | null
  | bool
  | u64
  | s64
  | f64
  | timestamp
  | duration
  | optionNone
  | string
  | bytes
  | list
  | map
  | option
  | variant
  deriving DecidableEq, Repr

namespace TypedRead

/-- What a read answers. -/
def Answer : TypedRead → Type
  | null | optionNone => Unit
  | bool => Bool
  | u64 | f64 => UInt64
  | s64 => Int64
  | timestamp => Int64 × UInt32
  | duration => Int64 × Int32
  | string => String
  | bytes | list | map => Bytes
  | option => Option Bytes
  | variant => String × Bytes

/-- The read itself. -/
def read : (r : TypedRead) → Read r.Answer
  | null => Cursor.null
  | bool => Cursor.bool
  | u64 => Cursor.u64
  | s64 => Cursor.s64
  | f64 => Cursor.f64
  | timestamp => Cursor.timestamp
  | duration => Cursor.duration
  | optionNone => Cursor.optionNone
  | string => Cursor.string
  | bytes => Cursor.bytes
  | list => Cursor.list
  | map => Cursor.map
  | option => Cursor.option
  | variant => Cursor.variant

/-- The tags of the items that a read is for. -/
def tags : TypedRead → List Tag
  | null => [.null]
  | bool => [.boolTrue, .boolFalse]
  | u64 => [.u64]
  | s64 => [.s64]
  | f64 => [.f64]
  | timestamp => [.timestamp]
  | duration => [.duration]
  | optionNone => [.optionNone]
  | string => [.string]
  | bytes => [.bytes]
  | list => [.list]
  | map => [.map]
  | option => [.optionNone, .optionSome]
  | variant => [.variant]

/-- Items that a read takes whole and then refuses for what is in them, with the error: bytes that
spell no text, nanoseconds out of range, and a variant whose body does not begin with a name. -/
inductive Malformed : TypedRead → Bytes → Error → Prop where
  | text {data : Bytes} (h : Bytes.text? data = none) :
    Malformed string (Item.framed .string data) .invalidUtf8
  | timestampNanos {secs : Int64} {nanos : UInt32} (h : nanosPerSecond ≤ nanos.toNat) :
    Malformed timestamp (Item.timestamp secs nanos).toBytes (.invalidNanos nanos.toNat)
  | durationNanos {secs : Int64} {nanos : Int32} (h : ¬SpanNanosOk secs.toInt nanos.toInt) :
    Malformed duration (Item.duration secs nanos).toBytes (.invalidNanos nanos.toInt)
  | name {body rest : Bytes} {e : Error} (h : Cursor.string.on body = (.error e, rest)) :
    Malformed variant (Item.framed .variant body) e

/-- Every tag has its read. -/
theorem exists_mem_tags (tag : Tag) : ∃ r : TypedRead, tag ∈ r.tags := by
  cases tag with
  | null => exact ⟨null, List.mem_singleton_self _⟩
  | boolTrue => exact ⟨bool, List.mem_cons_self⟩
  | boolFalse => exact ⟨bool, List.mem_cons_of_mem _ List.mem_cons_self⟩
  | u64 => exact ⟨u64, List.mem_singleton_self _⟩
  | s64 => exact ⟨s64, List.mem_singleton_self _⟩
  | f64 => exact ⟨f64, List.mem_singleton_self _⟩
  | timestamp => exact ⟨timestamp, List.mem_singleton_self _⟩
  | duration => exact ⟨duration, List.mem_singleton_self _⟩
  | optionNone => exact ⟨optionNone, List.mem_singleton_self _⟩
  | string => exact ⟨string, List.mem_singleton_self _⟩
  | bytes => exact ⟨bytes, List.mem_singleton_self _⟩
  | list => exact ⟨list, List.mem_singleton_self _⟩
  | map => exact ⟨map, List.mem_singleton_self _⟩
  | optionSome => exact ⟨option, List.mem_cons_of_mem _ List.mem_cons_self⟩
  | variant => exact ⟨variant, List.mem_singleton_self _⟩

theorem exact_read (r : TypedRead) : r.read.Exact := by
  cases r with
  | null => exact Cursor.exact_null
  | bool => exact Cursor.exact_bool
  | u64 => exact Cursor.exact_u64
  | s64 => exact Cursor.exact_s64
  | f64 => exact Cursor.exact_f64
  | timestamp => exact Cursor.exact_timestamp
  | duration => exact Cursor.exact_duration
  | optionNone => exact Cursor.exact_optionNone
  | string => exact Cursor.exact_string
  | bytes => exact Cursor.exact_bytes
  | list => exact Cursor.exact_body rfl
  | map => exact Cursor.exact_body rfl
  | option => exact Cursor.exact_option
  | variant => exact Cursor.exact_variant

/-- Whether a read takes an item whole, whatever stands behind it: with an answer, or to refuse it
for what is in it. -/
def Takes (r : TypedRead) (item : Bytes) : Prop :=
  ∀ behind, (∃ a, r.read.on (item ++ behind) = (.ok a, behind)) ∨
    ∃ e, r.Malformed item e ∧ r.read.on (item ++ behind) = (.error e, behind)

/-! ## Reads of numbers -/

/-- Eight bytes are a word. -/
theorem exists_word {data : Bytes} (h : data.length = 8) :
    ∃ n : UInt64, data = Bytes.littleEndian 8 n.toNat := by
  refine ⟨UInt64.ofNat (Bytes.number data), ?_⟩
  have hlt := Bytes.number_lt data
  rw [h] at hlt
  rw [UInt64.toNat_ofNat_of_lt' hlt, ← h, Bytes.littleEndian_number]

/-- Twelve bytes are the two numbers of a time. -/
theorem exists_parts {data : Bytes} (h : data.length = 12) :
    ∃ (secs : UInt64) (nanos : UInt32),
      data = Bytes.littleEndian 8 secs.toNat ++ Bytes.littleEndian 4 nanos.toNat := by
  have hfront : (data.take 8).length = 8 := by rw [List.length_take]; omega
  obtain ⟨secs, hsecs⟩ := exists_word hfront
  have hlength : (data.drop 8).length = 4 := by rw [List.length_drop]; omega
  have hlt := Bytes.number_lt (data.drop 8)
  rw [hlength] at hlt
  have hnanos := Bytes.littleEndian_number (data.drop 8)
  rw [hlength, ← UInt32.toNat_ofNat_of_lt' hlt] at hnanos
  exact ⟨secs, _, by rw [← hsecs, hnanos, List.take_append_drop]⟩

theorem number_on {width n : Nat} (h : n < 256 ^ width) (behind : Bytes) :
    (Cursor.number width).on (Bytes.littleEndian width n ++ behind) = (.ok n, behind) :=
  Cursor.number_eq_ok_iff.2 ⟨h, rfl⟩

/-! ## Reads of what carries its length -/

theorem sized_on {body : Bytes} (fits : body.length ≤ maxLength) (behind : Bytes) :
    Cursor.sized.on (lengthBytes body.length ++ (body ++ behind)) = (.ok body, behind) :=
  Cursor.sized_eq_ok_iff.2 ⟨fits, rfl⟩

theorem body_on {tag : Tag} {body : Bytes} (fits : body.length ≤ maxLength) (behind : Bytes) :
    (Cursor.body tag).on (Item.framed tag body ++ behind) = (.ok body, behind) :=
  Cursor.body_eq_ok_iff.2 ⟨fits, rfl⟩

/-! ## Items taken whole -/

/-- A malformed item is refused after it has been taken. -/
theorem on_of_malformed {r : TypedRead} {item : Bytes} {e : Error} (hitem : Delimited item)
    (h : r.Malformed item e) (behind : Bytes) : r.read.on (item ++ behind) = (.error e, behind) := by
  cases h with
  | text htext =>
    show Cursor.string.on _ = _
    rw [Item.framed_append, Cursor.string, on_bind_of_on (Cursor.expect_cons _ _),
      on_bind_of_on (sized_on (hitem.fits_of_framed rfl) _), htext]
    rfl
  | @timestampNanos secs nanos hnanos =>
    show Cursor.timestamp.on _ = _
    rw [Item.toBytes, List.cons_append, List.append_assoc, Cursor.timestamp]
    rw [on_bind_of_on (Cursor.expect_cons _ _)]
    rw [on_bind_of_on (number_on secs.toUInt64.toNat_lt _)]
    rw [on_bind_of_on (number_on nanos.toNat_lt _), UInt32.ofNat_toNat]
    exact on_guard_of_pos hnanos
  | @durationNanos secs nanos hnanos =>
    show Cursor.duration.on _ = _
    rw [Item.toBytes, List.cons_append, List.append_assoc, Cursor.duration]
    rw [on_bind_of_on (Cursor.expect_cons _ _)]
    rw [on_bind_of_on (number_on secs.toUInt64.toNat_lt _)]
    rw [on_bind_of_on (number_on nanos.toUInt32.toNat_lt _), UInt64.ofNat_toNat,
      UInt32.ofNat_toNat, Int64.toInt64_toUInt64, Int32.toInt32_toUInt32]
    exact on_guard_of_pos hnanos
  | name hname =>
    show Cursor.variant.on _ = _
    rw [Cursor.variant, on_bind_of_on (body_on (hitem.fits_of_framed rfl) behind), hname]
    rfl

/-- A malformed item is taken whole. -/
theorem Takes.of_malformed {r : TypedRead} {item : Bytes} {e : Error} (hitem : Delimited item)
    (h : r.Malformed item e) : r.Takes item :=
  fun behind => .inr ⟨e, h, on_of_malformed hitem h behind⟩

theorem takes_timestamp {secs : Int64} {nanos : UInt32}
    (hitem : Delimited (Item.timestamp secs nanos).toBytes) :
    Takes timestamp (Item.timestamp secs nanos).toBytes := by
  rcases Nat.lt_or_ge nanos.toNat nanosPerSecond with hlt | hge
  · exact fun behind => .inl ⟨(secs, nanos), Cursor.timestamp_eq_ok_iff.2 ⟨hlt, rfl⟩⟩
  · exact .of_malformed hitem (.timestampNanos hge)

theorem takes_duration {secs : Int64} {nanos : Int32}
    (hitem : Delimited (Item.duration secs nanos).toBytes) :
    Takes duration (Item.duration secs nanos).toBytes := by
  by_cases hok : SpanNanosOk secs.toInt nanos.toInt
  · exact fun behind => .inl ⟨(secs, nanos), Cursor.duration_eq_ok_iff.2 ⟨hok, rfl⟩⟩
  · exact .of_malformed hitem (.durationNanos hok)

theorem takes_string {data : Bytes} (hitem : Delimited (Item.framed .string data)) :
    Takes string (Item.framed .string data) := by
  cases htext : Bytes.text? data with
  | none => exact .of_malformed hitem (.text htext)
  | some s =>
    refine fun behind => .inl ⟨s, ?_⟩
    show Cursor.string.on _ = _
    rw [Item.framed_append, Cursor.string, on_bind_of_on (Cursor.expect_cons _ _),
      on_bind_of_on (sized_on (hitem.fits_of_framed rfl) _), htext]
    rfl

theorem takes_variant {body : Bytes} (hitem : Delimited (Item.framed .variant body)) :
    Takes variant (Item.framed .variant body) := by
  rcases hname : Cursor.string.on body with ⟨e | name, rest⟩
  · exact .of_malformed hitem (.name hname)
  · refine fun behind => .inl ⟨(name, rest), ?_⟩
    show Cursor.variant.on _ = _
    rw [Cursor.variant, on_bind_of_on (body_on (hitem.fits_of_framed rfl) behind), hname]
    rfl

/-- What carries no length has as many bytes behind its tag as the tag says. -/
theorem length_of_width {tag : Tag} {data : Bytes} {width : Nat} (hwidth : tag.width? = some width)
    (hitem : Delimited (tag.code :: data)) : data.length = width := by
  rcases hitem.of_code with h | ⟨h, -⟩
  · rw [h] at hwidth
    exact Option.some.inj hwidth
  · rw [h] at hwidth
    cases hwidth

/-- What carries its length has a body behind it. -/
theorem exists_body_of_width {tag : Tag} {data : Bytes} (hwidth : tag.width? = none)
    (hitem : Delimited (tag.code :: data)) :
    ∃ body : Bytes, body.length ≤ maxLength ∧ tag.code :: data = Item.framed tag body := by
  rcases hitem.of_code with h | ⟨-, body, hle, rfl⟩
  · rw [h] at hwidth
    cases hwidth
  · exact ⟨body, hle, rfl⟩

/-- An item is taken whole by every read of its tag. -/
theorem takes_of_mem_tags {r : TypedRead} {tag : Tag} {data : Bytes} (htag : tag ∈ r.tags)
    (hitem : Delimited (tag.code :: data)) : r.Takes (tag.code :: data) := by
  cases r with
  | null | optionNone =>
    obtain rfl := List.mem_singleton.1 htag
    obtain rfl := List.length_eq_zero_iff.1 (length_of_width rfl hitem)
    exact fun behind => .inl ⟨(), Cursor.expect_cons _ behind⟩
  | bool =>
    rcases List.mem_cons.1 htag with rfl | htag
    · obtain rfl := List.length_eq_zero_iff.1 (length_of_width rfl hitem)
      exact fun behind => .inl ⟨true, Cursor.bool_eq_ok_iff.2 rfl⟩
    · obtain rfl := List.mem_singleton.1 htag
      obtain rfl := List.length_eq_zero_iff.1 (length_of_width rfl hitem)
      exact fun behind => .inl ⟨false, Cursor.bool_eq_ok_iff.2 rfl⟩
  | u64 =>
    obtain rfl := List.mem_singleton.1 htag
    obtain ⟨n, rfl⟩ := exists_word (length_of_width rfl hitem)
    exact fun behind => .inl ⟨n, Cursor.u64_eq_ok_iff.2 rfl⟩
  | s64 =>
    obtain rfl := List.mem_singleton.1 htag
    obtain ⟨n, rfl⟩ := exists_word (length_of_width rfl hitem)
    refine fun behind => .inl ⟨n.toInt64, Cursor.s64_eq_ok_iff.2 ?_⟩
    rw [Item.toBytes, UInt64.toUInt64_toInt64]
  | f64 =>
    obtain rfl := List.mem_singleton.1 htag
    obtain ⟨n, rfl⟩ := exists_word (length_of_width rfl hitem)
    exact fun behind => .inl ⟨n, Cursor.f64_eq_ok_iff.2 rfl⟩
  | timestamp =>
    obtain rfl := List.mem_singleton.1 htag
    obtain ⟨secs, nanos, rfl⟩ := exists_parts (length_of_width rfl hitem)
    rw [show Tag.timestamp.code :: _ = (Item.timestamp secs.toInt64 nanos).toBytes by
      rw [Item.toBytes, UInt64.toUInt64_toInt64]] at hitem ⊢
    exact takes_timestamp hitem
  | duration =>
    obtain rfl := List.mem_singleton.1 htag
    obtain ⟨secs, nanos, rfl⟩ := exists_parts (length_of_width rfl hitem)
    rw [show Tag.duration.code :: _ = (Item.duration secs.toInt64 nanos.toInt32).toBytes by
      rw [Item.toBytes, UInt64.toUInt64_toInt64, UInt32.toUInt32_toInt32]] at hitem ⊢
    exact takes_duration hitem
  | string =>
    obtain rfl := List.mem_singleton.1 htag
    obtain ⟨body, -, hbytes⟩ := exists_body_of_width rfl hitem
    rw [hbytes] at hitem ⊢
    exact takes_string hitem
  | bytes | list | map =>
    obtain rfl := List.mem_singleton.1 htag
    obtain ⟨body, hle, hbytes⟩ := exists_body_of_width rfl hitem
    rw [hbytes]
    exact fun behind => .inl ⟨body, body_on hle behind⟩
  | option =>
    rcases List.mem_cons.1 htag with rfl | htag
    · obtain rfl := List.length_eq_zero_iff.1 (length_of_width rfl hitem)
      exact fun behind => .inl ⟨none, Cursor.option_eq_none_iff.2 rfl⟩
    · obtain rfl := List.mem_singleton.1 htag
      obtain ⟨body, hle, hbytes⟩ := exists_body_of_width rfl hitem
      rw [hbytes]
      exact fun behind => .inl ⟨some body, Cursor.option_eq_some_iff.2 ⟨hle, rfl⟩⟩
  | variant =>
    obtain rfl := List.mem_singleton.1 htag
    obtain ⟨body, -, hbytes⟩ := exists_body_of_width rfl hitem
    rw [hbytes] at hitem ⊢
    exact takes_variant hitem

/-- Skipping and reading agree. What a read takes with success is passed over; what is passed over
is taken by every read of its tag, which may still refuse it for what is in it; and every tag has a
read. Bytes put behind change neither what is read nor what is passed over. -/
theorem skip_agrees (bs : Bytes) :
    (∀ (r : TypedRead) (a : r.Answer) (rest : Bytes), r.read.on bs = (.ok a, rest) →
        Cursor.skip.on bs = (.ok (), rest) ∧
          ∀ more, r.read.on (bs ++ more) = (.ok a, rest ++ more)) ∧
      ∀ rest, Cursor.skip.on bs = (.ok (), rest) →
        (∀ more, Cursor.skip.on (bs ++ more) = (.ok (), rest ++ more)) ∧
          ∃ tag, Cursor.peek.eval bs = .ok tag ∧ (∃ r : TypedRead, tag ∈ r.tags) ∧
            ∀ r : TypedRead, tag ∈ r.tags → (∃ a, r.read.on bs = (.ok a, rest)) ∨
              ∃ item e, bs = item ++ rest ∧ r.Malformed item e ∧
                r.read.on bs = (.error e, rest) := by
  constructor
  · intro r a rest hread
    exact ⟨r.exact_read.skip_on hread, r.exact_read.on_append hread⟩
  · intro rest hskip
    refine ⟨Cursor.exact_skip.on_append hskip, ?_⟩
    obtain ⟨item, hitem, rfl⟩ := Cursor.skip_eq_ok_iff.1 hskip
    obtain ⟨tag, data, rfl⟩ := hitem.exists_code
    refine ⟨tag, congrArg Prod.fst (Cursor.peek_cons tag (data ++ rest)), exists_mem_tags tag, ?_⟩
    intro r htag
    rcases takes_of_mem_tags htag hitem rest with hok | ⟨e, hmalformed, herror⟩
    · exact .inl hok
    · exact .inr ⟨_, e, rfl, hmalformed, herror⟩

/-- A variant without a name is passed over as a whole and refused as a whole, and a present option
is read as far as it is passed over, with further bytes behind them as without. -/
theorem skip_agrees_of_nameless :
    let nameless : Bytes := [0x31, 1, 0, 0, 0, 0xff, 7]
    let present : Bytes := [0x30, 2, 0, 0, 0, 5, 6, 9]
    (Cursor.skip.on nameless = (.ok (), [7]) ∧
        Cursor.skip.on (nameless ++ [8]) = (.ok (), [7, 8]) ∧
        ∃ item e, nameless = item ++ [7] ∧ variant.Malformed item e ∧
          variant.read.on nameless = (.error e, [7])) ∧
      option.read.on present = (.ok (some [5, 6]), [9]) ∧
        Cursor.skip.on present = (.ok (), [9]) ∧
        option.read.on (present ++ [8]) = (.ok (some [5, 6]), [9, 8]) := by
  intro nameless present
  have hskip : Cursor.skip.on nameless = (.ok (), [7]) := by rfl
  have hread : option.read.on present = (.ok (some [5, 6]), [9]) := by rfl
  obtain ⟨happend, tag, hpeek, -, hreads⟩ := (skip_agrees nameless).2 _ hskip
  obtain rfl : tag = .variant := (Except.ok.inj hpeek).symm
  refine ⟨⟨hskip, happend [8], ?_⟩, hread, ?_⟩
  · rcases hreads variant (List.mem_singleton_self _) with ⟨a, hread⟩ | hrefused
    · cases hread
    · exact hrefused
  · obtain ⟨hskip, happend⟩ := (skip_agrees present).1 option _ _ hread
    exact ⟨hskip, happend [8]⟩

end TypedRead

end Resumable.Wire
