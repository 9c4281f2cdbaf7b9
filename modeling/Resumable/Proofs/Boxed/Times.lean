import Resumable.Boxed.Codec
import Resumable.Proofs.Wire.Writable

/-!
# Times as items

The parts of an instant are its seconds and nanoseconds, and the instant of these parts is the
instant itself. The very first instant of the range has no parts (`Instant.IsFirst`), and spans of
more seconds than a signed word holds have no item (`Span.IsLong`); these are the only times that
cannot be written.
-/

namespace Resumable

open Wire

/-- A read that succeeds is an answer of the codec. -/
theorem CodecError.reading_of_on {α : Type} {op : Read α} {bs rest : Bytes} {a : α}
    (h : op.on bs = (.ok a, rest)) : CodecError.reading op bs = .ok (a, rest) := by
  have hop : op bs = (.ok a, rest) := h
  rw [CodecError.reading, hop]

theorem CodecError.ofWire_eq_ok_iff {α : Type} {answer : Except Wire.Error α} {a : α} :
    CodecError.ofWire answer = .ok a ↔ answer = .ok a := by
  cases answer with
  | error e => exact ⟨nofun, nofun⟩
  | ok a' =>
    show Except.ok a' = Except.ok a ↔ _
    rw [Except.ok.injEq, Except.ok.injEq]

namespace Instant

/-- The first instant of the range: the least number of seconds, and no nanoseconds. -/
def IsFirst (t : Instant) : Prop := t.secs = Int64.minValue ∧ t.nanos = 0

instance (t : Instant) : Decidable t.IsFirst := inferInstanceAs (Decidable (_ ∧ _))

theorem ext_toInt {s t : Instant} (hsecs : s.secs.toInt = t.secs.toInt)
    (hnanos : s.nanos.toNat = t.nanos.toNat) : s = t := by
  obtain ⟨secs, nanos, hlt⟩ := s
  obtain ⟨secs', nanos', hlt'⟩ := t
  obtain rfl := Int64.toInt_inj.1 hsecs
  obtain rfl := UInt32.toNat_inj.1 hnanos
  rfl

/-- An instant is found again from its nanoseconds. -/
theorem ofNanos?_toNanos (t : Instant) : ofNanos? t.toNanos = some t := by
  have hlt := t.nanos_lt
  have hlower := t.secs.le_toInt
  have hupper := t.secs.toInt_lt
  have hdiv : t.toNanos.fdiv 1000000000 = t.secs.toInt := by
    rw [toNanos, Int.fdiv_eq_ediv_of_nonneg _ (by decide)]
    omega
  have hmod : t.toNanos.fmod 1000000000 = t.nanos.toNat := by
    rw [toNanos, Int.fmod_eq_emod_of_nonneg _ (by decide)]
    omega
  have hrange : -0x8000000000000000 ≤ t.toNanos.fdiv 1000000000 ∧
      t.toNanos.fdiv 1000000000 < 0x8000000000000000 := by
    rw [hdiv]
    omega
  rw [ofNanos?, if_pos hrange]
  refine congrArg some (ext_toInt ?_ ?_)
  · show (Int64.ofInt (t.toNanos.fdiv 1000000000)).toInt = t.secs.toInt
    rw [hdiv, Int64.ofInt_toInt]
  · show (UInt32.ofNat (t.toNanos.fmod 1000000000).toNat).toNat = t.nanos.toNat
    rw [hmod, Int.toNat_natCast, UInt32.ofNat_toNat]

/-- Moving from the epoch by an instant's parts leads to the instant. -/
theorem ofEpoch?_parts (t : Instant) : ofEpoch? t.secs t.nanos = some t := by
  have hepoch : epoch.toNanos = 0 := rfl
  rw [ofEpoch?]
  split
  · rename_i hsecs
    have hnanos : epoch.toNanos + ((t.secs.toInt.toNat * 1000000000 + t.nanos.toNat : Nat) : Int) =
        t.toNanos := by
      rw [hepoch, toNanos]
      omega
    rw [later?, hnanos, ofNanos?_toNanos]
  · rename_i hsecs
    -- the whole seconds lead to an instant without nanoseconds first
    have hwhole : epoch.toNanos - ((t.secs.toInt.natAbs * 1000000000 : Nat) : Int) =
        toNanos ⟨t.secs, 0, by decide⟩ := by
      rw [hepoch, toNanos]
      show _ = t.secs.toInt * 1000000000 + ((0 : UInt32).toNat : Int)
      have hzero : (0 : UInt32).toNat = 0 := rfl
      rw [hzero]
      omega
    have hlater : toNanos ⟨t.secs, 0, by decide⟩ + (t.nanos.toNat : Int) = t.toNanos := by
      simp [toNanos]
    rw [earlier?, hwhole, ofNanos?_toNanos, Option.bind_some, later?, hlater, ofNanos?_toNanos]

/-- Every instant but the first has its seconds and nanoseconds as parts. -/
theorem epochParts?_eq (t : Instant) :
    t.epochParts? = if t.IsFirst then none else some (t.secs, t.nanos) := by
  have hlt := t.nanos_lt
  have hlower := t.secs.le_toInt
  have hupper := t.secs.toInt_lt
  have hfirst : t.IsFirst ↔ t.secs.toInt = -0x8000000000000000 ∧ t.nanos.toNat = 0 := by
    rw [IsFirst, ← Int64.toInt_inj, ← UInt32.toNat_inj]
    rfl
  have hnanos : t.toNanos = t.secs.toInt * 1000000000 + t.nanos.toNat := rfl
  have hsecsOf : ∀ n : Int, n = t.secs.toInt → Int64.ofInt n = t.secs := by
    rintro n rfl
    exact Int64.ofInt_toInt _
  have hnanosOf : ∀ n : Nat, n = t.nanos.toNat → UInt32.ofNat n = t.nanos := by
    rintro n rfl
    exact UInt32.ofNat_toNat
  rw [epochParts?]
  by_cases hf : t.IsFirst
  · obtain ⟨hs, hn⟩ := hfirst.1 hf
    rw [if_pos hf, if_pos (by omega)]
  · rw [if_neg hf, if_neg (by rw [hfirst] at hf; omega)]
    split
    · -- at the epoch or after it, the distance is the instant
      rw [hsecsOf _ (by omega), hnanosOf _ (by omega)]
    · split
      · rw [hsecsOf _ (by omega)]
        have hzero : t.nanos = 0 := UInt32.toNat_inj.1 (by
          show t.nanos.toNat = 0
          omega)
        rw [hzero]
      · -- before the epoch the seconds are rounded away from it
        rw [if_pos (by omega), hsecsOf _ (by omega), hnanosOf _ (by omega)]

/-- The first instant has no item; every other is written as its parts. -/
theorem toItem_eq (t : Instant) :
    t.toItem = if t.IsFirst then .error (.marshal (.instantOutOfRange t))
      else .ok (.timestamp t.secs t.nanos) := by
  rw [toItem, epochParts?_eq]
  by_cases hf : t.IsFirst
  · rw [if_pos hf, if_pos hf]
  · rw [if_neg hf, if_neg hf]

theorem toItem_eq_ok_iff {t : Instant} {item : Item} :
    t.toItem = .ok item ↔ ¬t.IsFirst ∧ item = .timestamp t.secs t.nanos := by
  rw [toItem_eq, refusal_eq_ok_iff]

theorem toItem_eq_error_iff {t : Instant} {e : CodecError} :
    t.toItem = .error e ↔ t.IsFirst ∧ e = .marshal (.instantOutOfRange t) := by
  rw [toItem_eq, refusal_eq_error_iff]

/-- An instant has an item unless it is the first. -/
theorem exists_toItem_iff {t : Instant} : (∃ item, t.toItem = .ok item) ↔ ¬t.IsFirst := by
  simp only [toItem_eq_ok_iff, exists_and_left, exists_eq, and_true]

theorem valid_of_toItem {t : Instant} {item : Item} (h : t.toItem = .ok item) : item.Valid := by
  obtain ⟨-, rfl⟩ := toItem_eq_ok_iff.1 h
  exact List.forall_mem_singleton.2 t.nanos_lt

theorem ofParts_parts (t : Instant) : ofParts t.secs t.nanos = .ok t := by
  rw [ofParts, ofEpoch?_parts]

end Instant

namespace Span

/-- Whether a span has more seconds than a signed word holds. -/
def IsLong (d : Span) : Prop := 0x8000000000000000 ≤ d.secs.toNat

instance (d : Span) : Decidable d.IsLong := inferInstanceAs (Decidable (_ ≤ _))

/-- A long span has no item; every other is written as its seconds and nanoseconds. -/
theorem toItem_eq (d : Span) :
    d.toItem = if d.IsLong then .error (.marshal (.spanOutOfRange d))
      else .ok (.duration d.secs.toInt64 d.nanos.toInt32) := by
  rw [toItem]
  by_cases hl : d.IsLong
  · rw [if_pos hl, if_neg (Nat.not_lt_of_le hl)]
  · rw [if_neg hl, if_pos (Nat.lt_of_not_le hl)]

theorem toInt_secs {d : Span} (h : ¬d.IsLong) : d.secs.toInt64.toInt = d.secs.toNat := by
  have hlt : d.secs.toNat < 0x8000000000000000 := Nat.lt_of_not_le h
  show d.secs.toBitVec.toInt = d.secs.toBitVec.toNat
  refine BitVec.toInt_eq_toNat_of_lt ?_
  show 2 * d.secs.toNat < 2 ^ 64
  omega

theorem toInt_nanos (d : Span) : d.nanos.toInt32.toInt = d.nanos.toNat := by
  have hlt := d.nanos_lt
  show d.nanos.toBitVec.toInt = d.nanos.toBitVec.toNat
  refine BitVec.toInt_eq_toNat_of_lt ?_
  show 2 * d.nanos.toNat < 2 ^ 32
  omega

/-- The nanoseconds of a span are in the range that the wire has for them. -/
theorem nanosOk {d : Span} (h : ¬d.IsLong) :
    SpanNanosOk d.secs.toInt64.toInt d.nanos.toInt32.toInt := by
  have hlt := d.nanos_lt
  rw [toInt_secs h, toInt_nanos, SpanNanosOk, nanosPerSecond]
  omega

theorem toItem_eq_ok_iff {d : Span} {item : Item} :
    d.toItem = .ok item ↔ ¬d.IsLong ∧ item = .duration d.secs.toInt64 d.nanos.toInt32 := by
  rw [toItem_eq, refusal_eq_ok_iff]

theorem toItem_eq_error_iff {d : Span} {e : CodecError} :
    d.toItem = .error e ↔ d.IsLong ∧ e = .marshal (.spanOutOfRange d) := by
  rw [toItem_eq, refusal_eq_error_iff]

/-- A span has an item unless it is long. -/
theorem exists_toItem_iff {d : Span} : (∃ item, d.toItem = .ok item) ↔ ¬d.IsLong := by
  simp only [toItem_eq_ok_iff, exists_and_left, exists_eq, and_true]

theorem valid_of_toItem {d : Span} {item : Item} (h : d.toItem = .ok item) : item.Valid := by
  obtain ⟨hl, rfl⟩ := toItem_eq_ok_iff.1 h
  exact List.forall_mem_singleton.2 (nanosOk hl)

theorem ofParts?_parts {d : Span} (h : ¬d.IsLong) :
    ofParts? d.secs.toInt64 d.nanos.toInt32 = some d := by
  have hlt := d.nanos_lt
  have hsecs := toInt_secs h
  have hnanos := toInt_nanos d
  rw [ofParts?, dif_pos ⟨by omega, by omega, by omega⟩]
  obtain ⟨secs, nanos, hbound⟩ := d
  refine congrArg some ?_
  congr 1
  · show UInt64.ofNat secs.toInt64.toInt.toNat = secs
    rw [hsecs, Int.toNat_natCast, UInt64.ofNat_toNat]
  · show UInt32.ofNat nanos.toInt32.toInt.toNat = nanos
    rw [hnanos, Int.toNat_natCast, UInt32.ofNat_toNat]

end Span

end Resumable
