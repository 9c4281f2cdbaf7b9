import Resumable.Number.Double
import Resumable.Proofs.Number.Nearest

/-!
# Doubles and singles

Every finite single is a double (`Single.widened`), so a double lies beyond the greatest single as
its number does (`Double.exceedsSingle_iff`). One that does not is narrowed to the nearest single, of
its sign (`Double.isNearest_toSingle`), and a single that was widened to itself
(`Single.toSingle_toDouble`).
-/

namespace Resumable.Number

/-! ## Signs and magnitudes -/

/-- A number with its sign. -/
def signed (negative : Bool) (v : ℚ) : ℚ := if negative then -v else v

theorem abs_signed {v : ℚ} (negative : Bool) (hv : 0 ≤ v) : |signed negative v| = v := by
  cases negative with
  | true => exact (abs_neg v).trans (abs_of_nonneg hv)
  | false => exact abs_of_nonneg hv

theorem signed_sub (negative : Bool) (v w : ℚ) :
    |signed negative v - signed negative w| = |v - w| := by
  cases negative with
  | true =>
    show |-v - -w| = |v - w|
    rw [neg_sub_neg, abs_sub_comm]
  | false => rfl

theorem signed_sub_of_ne {negative negative' : Bool} (hne : negative ≠ negative') {v w : ℚ}
    (hv : 0 ≤ v) (hw : 0 ≤ w) : |signed negative v - signed negative' w| = v + w := by
  cases negative <;> cases negative'
  · exact absurd rfl hne
  · exact (congrArg abs (sub_neg_eq_add v w)).trans (abs_of_nonneg (add_nonneg hv hw))
  · show |-v - w| = v + w
    rw [← neg_add', abs_neg, abs_of_nonneg (add_nonneg hv hw)]
  · exact absurd rfl hne

namespace Double

theorem negative_ofMagnitude {negative : Bool} {x : Nat} (hx : x < 2 ^ 63) :
    (ofMagnitude negative x).negative = negative := by
  cases negative <;> simp [Double.negative, ofMagnitude] <;> omega

theorem magnitude_ofMagnitude {negative : Bool} {x : Nat} (hx : x < 2 ^ 63) :
    (ofMagnitude negative x).magnitude = x := by
  cases negative <;> simp [Double.magnitude, ofMagnitude] <;> omega

end Double

namespace Single

theorem negative_ofMagnitude {negative : Bool} {x : Nat} (hx : x < 2 ^ 31) :
    (ofMagnitude negative x).negative = negative := by
  cases negative <;> simp [Single.negative, ofMagnitude] <;> omega

theorem magnitude_ofMagnitude {negative : Bool} {x : Nat} (hx : x < 2 ^ 31) :
    (ofMagnitude negative x).magnitude = x := by
  cases negative <;> simp [Single.magnitude, ofMagnitude] <;> omega

/-- A single is its sign and its magnitude bits. -/
theorem eq_of_magnitude {s t : Single} (hsign : s.negative = t.negative)
    (hmagnitude : s.magnitude = t.magnitude) : s = t := by
  rcases s with ⟨a⟩
  rcases t with ⟨b⟩
  have ha := a.toNat_lt
  have hb := b.toNat_lt
  simp only [Single.negative, Nat.one_shiftLeft, decide_eq_decide] at hsign
  simp only [Single.magnitude, Nat.one_shiftLeft] at hmagnitude
  congr 1
  apply UInt32.toNat_inj.1
  omega

end Single

/-! ## Widening -/

/-- The number that a finite double stands for. -/
def Double.value (d : Double) : ℚ := signed d.negative (Format.double.value d.magnitude)

/-- The number that a finite single stands for. -/
def Single.value (s : Single) : ℚ := signed s.negative (Format.single.value s.magnitude)

theorem Double.abs_value (d : Double) : |d.value| = Format.double.value d.magnitude :=
  abs_signed _ (Format.double.value_nonneg _)

theorem Single.abs_value (s : Single) : |s.value| = Format.single.value s.magnitude :=
  abs_signed _ (Format.single.value_nonneg _)

theorem Single.isFinite_iff {s : Single} :
    s.isFinite = true ↔ s.magnitude < Format.single.infinity := decide_eq_true_iff

theorem Double.isFinite_iff {d : Double} :
    d.isFinite = true ↔ d.magnitude < Format.double.infinity := decide_eq_true_iff

/-- No finite single is greater than the greatest double. -/
theorem Format.value_single_le {x : Nat} (hx : x < single.infinity) :
    single.value x ≤ double.value (double.infinity - 1) := by
  have hsignificand : (single.significand x : ℚ) ≤ 2 ^ (24 : Int) := by
    exact_mod_cast (single.significand_lt x).le
  have hexponent : single.exponent x ≤ 104 := by
    have : x / 2 ^ 23 < 255 := Nat.div_lt_of_lt_mul hx
    rw [exponent, Nat.shiftRight_eq_div_pow]
    show (-149 : Int) + ((x / 2 ^ 23 - 1 : Nat) : Int) ≤ 104
    omega
  have hgreatest : (1 : ℚ) ≤ double.significand (double.infinity - 1) := by
    exact_mod_cast (by decide : 1 ≤ double.significand (double.infinity - 1))
  calc
    single.value x ≤ 2 ^ (24 : Int) * 2 ^ (104 : Int) :=
      mul_le_mul hsignificand (zpow_le_zpow_right₀ one_le_two hexponent) (two_zpow_pos _).le
        (two_zpow_pos _).le
    _ = 1 * 2 ^ (128 : Int) := by rw [one_mul, ← zpow_add₀ two_ne_zero]; rfl
    _ ≤ double.value (double.infinity - 1) :=
      mul_le_mul hgreatest (zpow_le_zpow_right₀ one_le_two (by decide)) (two_zpow_pos _).le
        (Nat.cast_nonneg _)

/-- A finite single is the double of its number. -/
theorem Single.widened {s : Single} (hs : s.isFinite = true) :
    s.toDouble.isFinite = true ∧ s.toDouble.negative = s.negative ∧ s.toDouble.value = s.value := by
  have hfinite := Single.isFinite_iff.1 hs
  have hsignificand := Format.single.significand_lt s.magnitude
  have hexponent : Format.double.minExponent ≤ Format.single.exponent s.magnitude := by
    rw [Format.exponent]
    show (-1074 : Int) ≤ -149 + _
    omega
  obtain ⟨y, hy⟩ := Format.double.exists_value (by decide)
    (hsignificand.trans_le (by decide)) hexponent
  obtain ⟨hround, hnearest⟩ := Format.double.round_nearest (by decide) (by decide)
    (Format.value_single_le hfinite)
  rw [← hy] at hnearest
  obtain rfl := hnearest.eq_of_value
  rw [Single.toDouble, if_pos hs]
  have hlt := hround.trans (by decide : Format.double.infinity < 2 ^ 63)
  refine ⟨?_, Double.negative_ofMagnitude hlt, ?_⟩
  · rw [Double.isFinite_iff, Double.magnitude_ofMagnitude hlt]
    exact hround
  · rw [Double.value, Double.negative_ofMagnitude hlt, Double.magnitude_ofMagnitude hlt, hy]
    rfl

/-- A single that is widened to a finite double is finite. -/
theorem Single.isFinite_of_toDouble {s : Single} (h : s.toDouble.isFinite = true) :
    s.isFinite = true := by
  by_contra hs
  rw [Single.toDouble, if_neg hs, Double.isFinite_iff] at h
  split at h
  · have hpayload : 1 <<< 51 ||| (s.magnitude % 1 <<< 23) <<< 29 < 2 ^ 52 := by
      refine Nat.or_lt_two_pow (by decide) ?_
      rw [Nat.shiftLeft_eq]
      have := Nat.mod_lt s.magnitude (Nat.two_pow_pos 23)
      rw [Nat.one_shiftLeft]
      omega
    rw [Double.magnitude_ofMagnitude] at h
    · omega
    · exact (Nat.add_lt_add_left hpayload _).trans_le (by decide)
  · rw [Double.magnitude_ofMagnitude (by decide)] at h
    exact absurd h (Nat.lt_irrefl _)

/-! ## Narrowing -/

/-- The doubles beyond the greatest single are those of greater numbers. -/
theorem Double.exceedsSingle_iff {d : Double} (hd : d.isFinite = true) :
    d.exceedsSingle = true ↔ Single.greatest.value < |d.value| := by
  obtain ⟨-, hsign, hvalue⟩ := Single.widened (by decide : Single.greatest.isFinite = true)
  have hgreatest :
      Single.greatest.value = Format.double.value Single.greatest.toDouble.magnitude := by
    rw [← hvalue, Double.value, hsign]
    rfl
  rw [Double.abs_value, hgreatest, Format.double.value_strictMono.lt_iff_lt, Double.exceedsSingle,
    hd, Bool.true_and, decide_eq_true_iff]

/-- Whether a single is the finite one nearest to a number, the even one if there are two of them. -/
structure Single.IsNearest (v : ℚ) (s : Single) : Prop where
  finite : s.isFinite = true
  le : ∀ t : Single, t.isFinite = true → |v - s.value| ≤ |v - t.value|
  even : ∀ t : Single, t.isFinite = true → |v - t.value| = |v - s.value| →
    t = s ∨ s.bits.toNat % 2 = 0

/-- A double that is not beyond the greatest single is narrowed by rounding its magnitude. -/
theorem Double.narrowed {d : Double} (hd : d.isFinite = true)
    (hle : |d.value| ≤ Single.greatest.value) :
    d.toSingle.isFinite = true ∧ d.toSingle.negative = d.negative ∧
      Format.single.Nearest (Format.double.value d.magnitude) d.toSingle.magnitude := by
  rw [Double.abs_value] at hle
  obtain ⟨hround, hnearest⟩ := Format.single.round_nearest (by decide) (by decide) hle
  have hlt := hround.trans (by decide : Format.single.infinity < 2 ^ 31)
  rw [Double.toSingle, if_pos hd, Single.isFinite_iff, Single.negative_ofMagnitude hlt,
    Single.magnitude_ofMagnitude hlt]
  exact ⟨hround, rfl, hnearest⟩

/-- A double that is not beyond the greatest single is narrowed to the nearest one. -/
theorem Double.isNearest_toSingle {d : Double} (hd : d.isFinite = true)
    (hle : |d.value| ≤ Single.greatest.value) : d.toSingle.IsNearest d.value := by
  obtain ⟨hfinite, hsign, hnearest⟩ := Double.narrowed hd hle
  have hd' := Format.double.value_nonneg d.magnitude
  have hs : |d.value - d.toSingle.value| =
      |Format.double.value d.magnitude - Format.single.value d.toSingle.magnitude| := by
    rw [Double.value, Single.value, hsign, signed_sub]
  -- zero is no further away than what lies on the other side of it
  have hzero := hnearest.le 0
  rw [Format.value_zero, sub_zero, abs_of_nonneg hd'] at hzero
  refine ⟨hfinite, fun t ht => ?_, fun t ht htie => ?_⟩
  · rw [hs, Double.value, Single.value]
    by_cases hsame : d.negative = t.negative
    · rw [hsame, signed_sub]
      exact hnearest.le t.magnitude
    · have ht' := Format.single.value_nonneg t.magnitude
      rw [signed_sub_of_ne hsame hd' ht']
      linarith
  · rw [hs, Double.value, Single.value] at htie
    have heven : d.toSingle.magnitude % 2 = 0 → d.toSingle.bits.toNat % 2 = 0 := by
      rw [Single.magnitude, Nat.one_shiftLeft]
      omega
    by_cases hsame : d.negative = t.negative
    · rw [hsame, signed_sub] at htie
      rcases hnearest.even _ htie with heq | h
      · exact .inl (Single.eq_of_magnitude (hsame.symm.trans hsign.symm) heq)
      · exact .inr (heven h)
    · have ht' := Format.single.value_nonneg t.magnitude
      rw [signed_sub_of_ne hsame hd' ht'] at htie
      have hties : |Format.double.value d.magnitude - Format.single.value 0| =
          |Format.double.value d.magnitude - Format.single.value d.toSingle.magnitude| := by
        rw [Format.value_zero, sub_zero, abs_of_nonneg hd']
        linarith
      -- zero is as near, and even
      right
      apply heven
      rcases hnearest.even 0 hties with h | h
      · rw [← h]
      · exact h

/-- A finite single is its own nearest one. -/
theorem Single.toSingle_toDouble {s : Single} (hs : s.isFinite = true) :
    s.toDouble.toSingle = s := by
  obtain ⟨hfinite, hsign, hvalue⟩ := Single.widened hs
  have hmagnitude : Format.double.value s.toDouble.magnitude = Format.single.value s.magnitude := by
    rw [← Double.abs_value, hvalue, Single.abs_value]
  have hle : |s.toDouble.value| ≤ Single.greatest.value := by
    rw [hvalue, Single.abs_value]
    exact Format.single.value_strictMono.monotone (Nat.le_sub_one_of_lt (Single.isFinite_iff.1 hs))
  obtain ⟨-, hsign', hnearest⟩ := Double.narrowed hfinite hle
  rw [hmagnitude] at hnearest
  exact Single.eq_of_magnitude (hsign'.trans hsign) hnearest.eq_of_value

end Resumable.Number
