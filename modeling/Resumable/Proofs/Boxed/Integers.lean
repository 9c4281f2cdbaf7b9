import Resumable.Proofs.Boxed.Canonical

/-!
# Integers of every width

An integer is boxed as the word of 64 bits of its signedness, and unboxed into a type of any width.
The bits that narrowing looks at and the range of the type agree (`IntegerType.contains_iff_signed`,
`IntegerType.contains_iff_unsigned`), and every word lies in the range of the types that it is handed
over to without narrowing (`IntegerType.contains_of_native`). So unboxing gives the integer if the
type has it, an overflow if it has not, and a mismatch if the signedness differs; and what an integer
is unboxed from is what it is boxed as (`IntegerType.unbox_box`).
-/

namespace Resumable

open Number Wire

/-! ## Words and ranges -/

namespace Value

/-- The integer that a value is, if it is one of this signedness. -/
def integer? (signed : Bool) : Value → Option Int
  | int m => if signed then some m.toInt else none
  | uint m => if signed then none else some m.toNat
  | _ => none

/-- A value is an integer as a word of its signedness. -/
theorem integer?_cases {v : Value} {signed : Bool} {n : Int} (h : v.integer? signed = some n) :
    (signed = true ∧ ∃ m : Int64, v = .int m ∧ m.toInt = n) ∨
      (signed = false ∧ ∃ m : UInt64, v = .uint m ∧ (m.toNat : Int) = n) := by
  cases v with
  | int m | uint m => cases signed <;> simp_all [integer?]
  | _ => cases h

theorem shape_of_integer? {v : Value} {signed : Bool} {n : Int}
    (h : v.integer? signed = some n) : v.shape = if signed then .int else .uint := by
  rcases integer?_cases h with ⟨rfl, m, rfl, -⟩ | ⟨rfl, m, rfl, -⟩ <;> rfl

end Value

namespace Number.IntegerType

variable {t : IntegerType} {v : Value} {n : Int}

/-- The word of 64 bits that an integer is boxed as. -/
def word (n : t.Num) : Value :=
  if t.signed then .int (Int64.ofInt n.val) else .uint (UInt64.ofNat n.val.toNat)

/-- A signed word lies in the range of a signed type if it fits as many bits. -/
theorem contains_iff_signed (ht : t.signed = true) (m : Int64) :
    t.Contains m.toInt ↔ Value.FitsSigned m t.bits := by
  have hlower := m.le_toInt
  have hupper := m.toInt_lt
  obtain ⟨signed, width⟩ := t
  obtain rfl : signed = true := ht
  -- The bounds are numerals once the width is known, and 64 bits are the case of the first disjunct.
  cases width <;> simp [Contains, least, greatest, bits, Width.bits, Value.FitsSigned] <;> omega

/-- An unsigned word lies in the range of an unsigned type if it fits as many bits. -/
theorem contains_iff_unsigned (ht : t.signed = false) (m : UInt64) :
    t.Contains m.toNat ↔ Value.FitsUnsigned m t.bits := by
  have hupper := m.toNat_lt
  obtain ⟨signed, width⟩ := t
  obtain rfl : signed = false := ht
  cases width <;> simp [Contains, least, greatest, bits, Width.bits, Value.FitsUnsigned] <;> omega

/-- A value of a signed type is its signed word. -/
theorem toInt_ofInt_of_contains (ht : t.signed = true) (h : t.Contains n) :
    (Int64.ofInt n).toInt = n := by
  obtain ⟨signed, width⟩ := t
  obtain rfl : signed = true := ht
  cases width <;> simp [Contains, least, greatest, bits, Width.bits] at h <;>
    exact Int64.toInt_ofInt_of_le (by omega) (by omega)

/-- A value of an unsigned type is its unsigned word. -/
theorem toNat_ofNat_of_contains (ht : t.signed = false) (h : t.Contains n) :
    ((UInt64.ofNat n.toNat).toNat : Int) = n := by
  obtain ⟨signed, width⟩ := t
  obtain rfl : signed = false := ht
  have hn : 0 ≤ n ∧ n.toNat < UInt64.size := by
    cases width <;> simp [Contains, least, greatest, bits, Width.bits, UInt64.size] at h ⊢ <;> omega
  rw [UInt64.toNat_ofNat_of_lt' hn.2, Int.toNat_of_nonneg hn.1]

theorem integer?_word (n : t.Num) (signed : Bool) :
    (word n).integer? signed = if t.signed = signed then some n.val else none := by
  cases ht : t.signed with
  | true =>
    have hword := toInt_ofInt_of_contains ht n.property
    cases signed <;> simp [word, ht, Value.integer?, hword]
  | false =>
    have hword := toNat_ofNat_of_contains ht n.property
    rw [word, ht]
    cases signed with
    | true => rfl
    | false => exact congrArg some hword

/-- The word of an integer is the only value that is this integer. -/
theorem eq_word_of_integer? (h : v.integer? t.signed = some n) (hn : t.Contains n) :
    v = word ⟨n, hn⟩ := by
  rcases Value.integer?_cases h with ⟨ht, m, rfl, rfl⟩ | ⟨ht, m, rfl, rfl⟩
  · simp [word, ht]
  · simp [word, ht]

/-! ## The target of an integer type -/

theorem ofValue_integer (v : Value) :
    (Target.integer t).ofValue v = (v.integer? t.signed).bind t.num? := by
  cases v with
  | int m | uint m => cases ht : t.signed <;> simp [Target.integer, Value.integer?, ht]
  | _ => rfl

theorem convert_integer (v : Value) : (Target.integer t).convert v = none := by
  cases v <;> rfl

/-- Narrowing to an integer type checks the range of the type. -/
theorem narrow_integer (h : v.integer? t.signed = some n) :
    v.narrow (Target.integer t).kind =
      if t.Contains n then .ok (some v)
      else .error (.overflow v.shape (toString n) (Target.integer t).kind) := by
  rcases Value.integer?_cases h with ⟨ht, m, rfl, rfl⟩ | ⟨ht, m, rfl, rfl⟩
  · simp [Target.integer, ht, Value.narrow, contains_iff_signed ht]
  · simp only [Target.integer, ht, Bool.false_eq_true, if_false, Value.narrow,
      contains_iff_unsigned ht]
    rfl

/-- Nothing but an integer of the same signedness is narrowed to an integer type. -/
theorem narrow_integer_eq_none (h : v.integer? t.signed = none) :
    v.narrow (Target.integer t).kind = .ok none := by
  cases ht : t.signed <;> cases v <;> simp_all [Target.integer, Value.narrow, Value.integer?]

/-- The types whose values are handed over without narrowing are those of 64 bits, which every word
of their signedness belongs to. -/
theorem contains_of_native {shape : Shape}
    (hnative : (Target.integer t).kind.nativeShape? = some shape)
    (h : v.integer? t.signed = some n) : t.Contains n := by
  have hbits : 64 ≤ t.bits := by
    obtain ⟨signed, width⟩ := t
    cases signed <;> cases width <;> first | exact Nat.le_refl 64 | cases hnative
  rcases Value.integer?_cases h with ⟨ht, m, rfl, rfl⟩ | ⟨ht, m, rfl, rfl⟩
  · exact (contains_iff_signed ht m).2 (.inl hbits)
  · exact (contains_iff_unsigned ht m).2 (.inl hbits)

/-! ## Unboxing -/

variable {boxed : Boxed}

/-- An integer of the signedness of the type is unboxed if the type has it. -/
theorem unbox_of_integer? (hdecode : boxed.decode = .ok v) (h : v.integer? t.signed = some n) :
    boxed.unbox (Target.integer t) =
      if hn : t.Contains n then .ok ⟨n, hn⟩
      else .error (.overflow boxed.shape (toString n) (Target.integer t).kind) := by
  have hnull : v.isNull = false := by
    rcases Value.integer?_cases h with ⟨-, m, rfl, -⟩ | ⟨-, m, rfl, -⟩ <;> rfl
  have hvalue : (Target.integer t).ofValue v = t.num? n := by rw [ofValue_integer, h, Option.bind_some]
  rw [Boxed.unbox, hdecode]
  simp only [bind, Except.bind, hnull, Bool.false_eq_true, if_false, convert_integer, hvalue]
  split
  · rename_i hnative
    -- The word is handed over as it is, which is right only because the type has every word.
    have hn := contains_of_native hnative h
    rw [num?, dif_pos hn, dif_pos hn]
    rfl
  · rw [narrow_integer h, Boxed.shape_of_decode hdecode]
    by_cases hn : t.Contains n
    · simp only [if_pos hn, dif_pos hn, Option.bind_some, hvalue, num?]
      rfl
    · rw [if_neg hn, dif_neg hn]

/-- Whatever is no integer of the signedness of the type is a mismatch. -/
theorem unbox_of_integer?_eq_none (hdecode : boxed.decode = .ok v)
    (h : v.integer? t.signed = none) :
    boxed.unbox (Target.integer t) =
      .error (.typeMismatch boxed.shape (Target.integer t).kind) := by
  have hvalue : (Target.integer t).ofValue v = none := by rw [ofValue_integer, h, Option.bind_none]
  rw [Boxed.unbox, hdecode]
  simp only [bind, Except.bind, convert_integer, hvalue, narrow_integer_eq_none h]
  split
  · rfl
  · split <;> rfl

/-- An integer is boxed as its word. -/
theorem box_integer (n : t.Num) :
    ∃ boxed, (Forms.integer t n).box = .ok boxed ∧ boxed.decode = .ok (word n) ∧
      boxed.shape = if t.signed then .int else .uint := by
  obtain ⟨item, hitem, hwritable⟩ : ∃ item : Item,
      (word n).toItem? = .ok (some item) ∧ item.Writable := by
    rw [word]
    split
    · exact ⟨_, rfl, Item.writable_of_fixed rfl trivial rfl⟩
    · exact ⟨_, rfl, Item.writable_of_fixed rfl trivial rfl⟩
  have hword := integer?_word n t.signed
  rw [if_pos rfl] at hword
  exact ⟨_, Value.encode_of_toItem? hitem hwritable, Value.decode_of_toItem? hitem hwritable,
    Value.shape_of_integer? hword⟩

/-- An integer is unboxed from nothing but its boxed form. -/
theorem box_of_unbox {x : t.Num} (h : boxed.unbox (Target.integer t) = .ok x) :
    (Forms.integer t x).box = .ok boxed := by
  obtain ⟨v, hdecode, -⟩ := bind_eq_ok_iff.1 h
  cases hv : v.integer? t.signed with
  | none =>
    rw [unbox_of_integer?_eq_none hdecode hv] at h
    cases h
  | some n =>
    rw [unbox_of_integer? hdecode hv] at h
    split at h
    · rename_i hn
      cases h
      have hshape : v.shape = .int ∨ v.shape = .uint := by
        rw [Value.shape_of_integer? hv]
        split <;> simp
      -- Words are neither instants, which may not be boxed again, nor null or trees, which may be
      -- boxed otherwise than they came.
      have hfirst : ∀ i, v = .timestamp i → ¬i.IsFirst := by
        rintro i rfl
        rcases hshape with h | h <;> cases h
      obtain ⟨again, hencode, -, -, -, hsame⟩ := Boxed.encode_of_decode hdecode hfirst
      rw [Boxed.shape_of_decode hdecode] at hsame
      obtain rfl := eq_word_of_integer? hv hn
      obtain rfl : again = boxed := by
        rcases hshape with h | h <;> exact hsame (by simp [h]) (by simp [h])
      exact hencode
    · cases h

/-- An integer of one type that is boxed is unboxed into another of the same signedness if that type
has it, and is an overflow in its decimal form if not; into a type of the other signedness it never
is. What is unboxed as an integer, from whatever payload, is what this integer is boxed as. -/
theorem unbox_box (s t : IntegerType) (n : s.Num) :
    (∃ boxed, (Forms.integer s n).box = .ok boxed ∧
      boxed.shape = (if s.signed then .int else .uint) ∧
      boxed.unbox (Target.integer t) =
        if s.signed = t.signed then
          if hn : t.Contains n.val then .ok ⟨n.val, hn⟩
          else .error (.overflow boxed.shape (toString n.val) (Target.integer t).kind)
        else .error (.typeMismatch boxed.shape (Target.integer t).kind)) ∧
      ∀ (boxed : Boxed) (x : t.Num),
        boxed.unbox (Target.integer t) = .ok x ↔ (Forms.integer t x).box = .ok boxed := by
  constructor
  · obtain ⟨boxed, hbox, hdecode, hshape⟩ := box_integer n
    refine ⟨boxed, hbox, hshape, ?_⟩
    have hword := integer?_word n t.signed
    split at hword
    · rw [unbox_of_integer? hdecode hword]
      simp [*]
    · rw [unbox_of_integer?_eq_none hdecode hword]
      simp [*]
  · intro boxed x
    constructor
    · exact box_of_unbox
    · intro hbox
      obtain ⟨boxed', hbox', hdecode, -⟩ := box_integer x
      obtain rfl : boxed' = boxed := by
        rw [hbox'] at hbox
        exact Except.ok.inj hbox
      have hword := integer?_word x t.signed
      rw [if_pos rfl] at hword
      rw [unbox_of_integer? hdecode hword]
      exact dif_pos x.property

end Number.IntegerType

end Resumable
