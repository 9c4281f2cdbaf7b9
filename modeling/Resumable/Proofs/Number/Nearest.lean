import Mathlib.Algebra.Order.Field.Power
import Mathlib.Algebra.Order.Field.Rat
import Mathlib.Tactic.Linarith
import Mathlib.Tactic.LinearCombination
import Mathlib.Tactic.Ring
import Resumable.Number.Rounding

/-!
# Rounding to nearest

The numbers of a format are in the order of their magnitude bits (`Format.value_strictMono`), so that
between any two neighbours there is nothing of the format. Every number m · 2^q lies between two of
them, and `Format.round` picks the nearer one, or the even one if it lies halfway
(`Format.exists_rounds`). Hence it gives a finite number unless the greatest one is exceeded, and
there is none nearer (`Format.round_nearest`).
-/

namespace Resumable.Number

/-! ## The choice between two neighbours -/

/-- Whether `r` is the nearer of `b` and `b + 1`, where the one lies `below` a number and the other
`above` it; halfway between them, it is the even one. -/
def Picks {α : Type} [LT α] (below above : α) (b r : Nat) : Prop :=
  r = b ∧ (below < above ∨ below = above ∧ b % 2 = 0) ∨
    r = b + 1 ∧ (above < below ∨ above = below ∧ b % 2 = 1)

theorem picks_roundShift (n k : Nat) :
    Picks (n % 2 ^ k) (2 ^ k - n % 2 ^ k) (n / 2 ^ k) (roundShift n k) := by
  have hlt : n % 2 ^ k < 2 ^ k := Nat.mod_lt _ (Nat.two_pow_pos k)
  rw [Picks, roundShift]
  simp only [Nat.one_shiftLeft, Nat.shiftRight_eq_div_pow]
  split
  · left
    omega
  · split
    · right
      omega
    · rcases Nat.mod_two_eq_zero_or_one (n / 2 ^ k) with heven | hodd
      · left
        omega
      · right
        omega

/-- The choice is the same on another scale. -/
theorem Picks.scale {below above b r : Nat} {unit : ℚ} (h : Picks below above b r)
    (hunit : 0 < unit) : Picks (below * unit) (above * unit) b r := by
  have hlt : ∀ {m n : Nat}, m < n → (m * unit : ℚ) < n * unit := fun h =>
    mul_lt_mul_of_pos_right (Nat.cast_lt.2 h) hunit
  have heq : ∀ {m n : Nat}, m = n → (m * unit : ℚ) = n * unit := fun h => by rw [h]
  rcases h with ⟨rfl, h⟩ | ⟨rfl, h⟩
  · exact .inl ⟨rfl, h.imp hlt (And.imp_left heq)⟩
  · exact .inr ⟨rfl, h.imp hlt (And.imp_left heq)⟩

/-- The choice is the same behind an even number of steps. -/
theorem Picks.shift {below above : ℚ} {b r base : Nat} (h : Picks below above b r)
    (hbase : base % 2 = 0) : Picks below above (base + b) (base + r) := by
  have hmod : (base + b) % 2 = b % 2 := by omega
  rw [Picks, hmod]
  rcases h with ⟨rfl, h⟩ | ⟨rfl, h⟩
  · exact .inl ⟨rfl, h⟩
  · exact .inr ⟨rfl, h⟩

namespace Format

variable {f : Format} {m x y r : Nat} {q : Int} {v : ℚ}

/-! ## Numbers of a format -/

/-- The number that magnitude bits stand for. -/
def value (f : Format) (magnitude : Nat) : ℚ :=
  f.significand magnitude * 2 ^ f.exponent magnitude

theorem two_zpow_pos (e : Int) : (0 : ℚ) < 2 ^ e := zpow_pos two_pos e

theorem significand_lt (f : Format) (x : Nat) : f.significand x < 2 ^ (f.fractionBits + 1) := by
  have hlt := Nat.mod_lt x (Nat.two_pow_pos f.fractionBits)
  rw [significand, Nat.one_shiftLeft, Nat.pow_succ]
  split <;> omega

/-- A significand stands for so many last places, also when it carries into the exponent. -/
theorem value_place {place s : Nat} (hs : s ≤ 2 ^ (f.fractionBits + 1))
    (hplace : place = 0 ∨ 2 ^ f.fractionBits ≤ s) :
    f.value (place * 2 ^ f.fractionBits + s) = s * 2 ^ (f.minExponent + place) := by
  have hpos := Nat.two_pow_pos f.fractionBits
  rw [Nat.pow_succ] at hs
  rw [value, significand, exponent, Nat.shiftRight_eq_div_pow, Nat.one_shiftLeft,
    Nat.mul_add_mod', Nat.add_comm, Nat.add_mul_div_right _ _ hpos]
  -- a significand with its leading bit moves the exponent on by one, one that carries by two
  rcases Nat.lt_or_ge s (2 ^ f.fractionBits) with hlt | hge
  · obtain rfl : place = 0 := hplace.resolve_right (by omega)
    rw [Nat.div_eq_of_lt hlt, Nat.mod_eq_of_lt hlt]
    rfl
  · rcases Nat.lt_or_ge s (2 ^ f.fractionBits * 2) with hlt | htop
    · have hdiv : s / 2 ^ f.fractionBits = 1 := Nat.div_eq_of_lt_le (by omega) (by omega)
      have hmod : s % 2 ^ f.fractionBits + 2 ^ f.fractionBits = s := by
        have := Nat.div_add_mod s (2 ^ f.fractionBits)
        rw [hdiv] at this
        omega
      rw [hdiv, if_neg (by omega), hmod, Nat.add_sub_cancel_left]
    · obtain rfl : s = 2 ^ f.fractionBits * 2 := by omega
      have hdiv : 2 ^ f.fractionBits * 2 / 2 ^ f.fractionBits = 2 := Nat.mul_div_cancel_left _ hpos
      rw [hdiv, if_neg (by omega), Nat.mul_mod_right, Nat.zero_add]
      have hplace' : ((2 + place - 1 : Nat) : Int) = place + 1 := by omega
      rw [hplace', ← add_assoc, zpow_add_one₀ two_ne_zero]
      push_cast
      ring

/-- Magnitude bits are a significand at its last place. -/
theorem exists_place (f : Format) (x : Nat) :
    ∃ place s, x = place * 2 ^ f.fractionBits + s ∧ s < 2 ^ (f.fractionBits + 1) ∧
      (place = 0 ∨ 2 ^ f.fractionBits ≤ s) := by
  have hpos := Nat.two_pow_pos f.fractionBits
  have hx := Nat.div_add_mod' x (2 ^ f.fractionBits)
  have hlt := Nat.mod_lt x hpos
  rw [Nat.pow_succ]
  cases hplace : x / 2 ^ f.fractionBits with
  | zero =>
    refine ⟨0, x, by omega, ?_, .inl rfl⟩
    rw [hplace] at hx
    omega
  | succ place =>
    refine ⟨place, 2 ^ f.fractionBits + x % 2 ^ f.fractionBits, ?_, by omega, .inr (by omega)⟩
    rw [hplace, Nat.succ_mul] at hx
    omega

/-- The numbers of a format are in the order of their bits. -/
theorem value_strictMono (f : Format) : StrictMono f.value := by
  refine strictMono_nat_of_lt_succ fun x => ?_
  obtain ⟨place, s, rfl, hs, hplace⟩ := f.exists_place x
  rw [Nat.add_assoc, value_place hs.le hplace, value_place hs (hplace.imp_right (by omega))]
  exact mul_lt_mul_of_pos_right (Nat.cast_lt.2 s.lt_succ_self) (two_zpow_pos _)

theorem value_zero (f : Format) : f.value 0 = 0 := by
  rw [value, significand, Nat.zero_shiftRight, if_pos rfl, Nat.zero_mod, Nat.cast_zero, zero_mul]

theorem value_nonneg (f : Format) (x : Nat) : 0 ≤ f.value x := by
  rw [← f.value_zero]
  exact f.value_strictMono.monotone x.zero_le

/-! ## Rounding -/

/-- Whether magnitude bits are picked of the two neighbours that a number lies between. -/
def Rounds (f : Format) (v : ℚ) (r : Nat) : Prop :=
  ∃ b, f.value b ≤ v ∧ v < f.value (b + 1) ∧ Picks (v - f.value b) (f.value (b + 1) - v) b r

/-- A number is rounded by its significand at one place. -/
theorem rounds_of_place {place s : Nat} (hf : 0 < f.fractionBits)
    (hs : s < 2 ^ (f.fractionBits + 1)) (hplace : place = 0 ∨ 2 ^ f.fractionBits ≤ s)
    (hlow : s * 2 ^ (f.minExponent + place) ≤ v)
    (hhigh : v < (s + 1) * 2 ^ (f.minExponent + place))
    (hpick : Picks (v - s * 2 ^ (f.minExponent + place))
      ((s + 1) * 2 ^ (f.minExponent + place) - v) s r) :
    f.Rounds v (place * 2 ^ f.fractionBits + r) := by
  have hvalue := value_place hs.le hplace
  have hnext := value_place (s := s + 1) hs (hplace.imp_right (by omega))
  have heven : place * 2 ^ f.fractionBits % 2 = 0 := by
    obtain ⟨bits, hbits⟩ := Nat.exists_eq_add_one.2 hf
    rw [hbits, Nat.pow_succ, ← Nat.mul_assoc, Nat.mul_mod_left]
  rw [Nat.cast_succ] at hnext
  refine ⟨place * 2 ^ f.fractionBits + s, ?_, ?_, ?_⟩
  · rw [hvalue]
    exact hlow
  · rw [Nat.add_assoc, hnext]
    exact hhigh
  · rw [Nat.add_assoc, hnext, hvalue]
    exact hpick.shift heven

/-- The last place of a number leaves it as many bits as the format has, or fewer if it is the least
of all. -/
theorem exists_lastPlace (hf : 0 < f.fractionBits) (m : Nat) (q : Int) :
    ∃ place : Nat, f.lastPlace m q = f.minExponent + place ∧
      q + m.log2 ≤ f.minExponent + place + f.fractionBits ∧
      (place = 0 ∨ q + m.log2 = f.minExponent + place + f.fractionBits) := by
  have hprecision : f.precision = f.fractionBits + 1 := by
    rw [fractionBits] at hf ⊢
    omega
  refine ⟨(f.lastPlace m q - f.minExponent).toNat, ?_, ?_, ?_⟩ <;> rw [lastPlace] <;> omega

/-- A number that ends at its last place or above it is a number of the format. -/
theorem value_shiftLeft {place k : Nat} (hm : 0 < m) (hq : q = f.minExponent + place + k)
    (hle : m.log2 + k ≤ f.fractionBits) (hplace : place = 0 ∨ m.log2 + k = f.fractionBits) :
    f.value (place * 2 ^ f.fractionBits + m * 2 ^ k) = m * 2 ^ q := by
  have hs : m * 2 ^ k ≤ 2 ^ (f.fractionBits + 1) := calc
    m * 2 ^ k ≤ 2 ^ (m.log2 + 1) * 2 ^ k := Nat.mul_le_mul_right _ Nat.lt_log2_self.le
    _ = 2 ^ (m.log2 + 1 + k) := (Nat.pow_add ..).symm
    _ ≤ 2 ^ (f.fractionBits + 1) := Nat.pow_le_pow_right Nat.two_pos (by omega)
  have hplace' : place = 0 ∨ 2 ^ f.fractionBits ≤ m * 2 ^ k := by
    refine hplace.imp_right fun hwide => ?_
    rw [← hwide, Nat.pow_add]
    exact Nat.mul_le_mul_right _ (Nat.log2_self_le hm.ne')
  rw [value_place hs hplace', hq, zpow_add₀ two_ne_zero _ (k : Int), zpow_natCast]
  push_cast
  ring

/-- A significand of no more bits than a format has, at no lesser exponent, is a number of it. -/
theorem exists_value (hf : 0 < f.fractionBits) (hm : m < 2 ^ (f.fractionBits + 1))
    (hq : f.minExponent ≤ q) : ∃ x, f.value x = m * 2 ^ q := by
  rcases Nat.eq_zero_or_pos m with rfl | hpos
  · rw [Nat.cast_zero, zero_mul]
    exact ⟨0, f.value_zero⟩
  obtain ⟨place, hlast, hle, hplace⟩ := f.exists_lastPlace hf m q
  have hlog : m.log2 < f.fractionBits + 1 := (Nat.log2_lt hpos.ne').2 hm
  obtain ⟨k, hk⟩ : ∃ k : Nat, q = f.minExponent + place + k := by
    refine ⟨(q - f.minExponent - place).toNat, ?_⟩
    omega
  exact ⟨_, value_shiftLeft hpos hk (by omega) (by omega)⟩

/-- A number of the format is rounded to itself. -/
theorem rounds_value (f : Format) (x : Nat) : f.Rounds (f.value x) x := by
  have hnext := f.value_strictMono x.lt_succ_self
  refine ⟨x, le_rfl, hnext, .inl ⟨rfl, .inl ?_⟩⟩
  rw [sub_self]
  exact sub_pos.2 hnext

/-- What lies below the last place is rounded off. -/
theorem rounds_roundShift {place k : Nat} (hf : 0 < f.fractionBits) (hm : 0 < m)
    (hq : f.minExponent + place = q + k) (hle : m.log2 ≤ f.fractionBits + k)
    (hplace : place = 0 ∨ m.log2 = f.fractionBits + k) :
    f.Rounds (m * 2 ^ q) (place * 2 ^ f.fractionBits + roundShift m k) := by
  have hdiv : (m : ℚ) = 2 ^ k * (m / 2 ^ k : Nat) + (m % 2 ^ k : Nat) := by
    exact_mod_cast (Nat.div_add_mod m (2 ^ k)).symm
  have hrest := Nat.mod_lt m (Nat.two_pow_pos k)
  have hbelow : (m * 2 ^ q : ℚ) - (m / 2 ^ k : Nat) * 2 ^ (f.minExponent + place) =
      (m % 2 ^ k : Nat) * 2 ^ q := by
    rw [hq, zpow_add₀ two_ne_zero, zpow_natCast]
    linear_combination 2 ^ q * hdiv
  have habove : ((m / 2 ^ k : Nat) + 1) * 2 ^ (f.minExponent + place) - (m * 2 ^ q : ℚ) =
      (2 ^ k - m % 2 ^ k : Nat) * 2 ^ q := by
    rw [hq, zpow_add₀ two_ne_zero, zpow_natCast, Nat.cast_sub hrest.le, Nat.cast_pow, Nat.cast_two]
    linear_combination -2 ^ q * hdiv
  -- what is cut off is counted in units of the number, and so is what is missing to the next place
  have hpick := (picks_roundShift m k).scale (two_zpow_pos q)
  rw [← hbelow, ← habove] at hpick
  refine rounds_of_place hf ?_ ?_ ?_ ?_ hpick
  · refine Nat.div_lt_of_lt_mul (Nat.lt_log2_self.trans_le ?_)
    rw [← Nat.pow_add]
    exact Nat.pow_le_pow_right Nat.two_pos (by omega)
  · refine hplace.imp_right fun hwide => ?_
    rw [Nat.le_div_iff_mul_le (Nat.two_pow_pos k), ← Nat.pow_add, ← hwide]
    exact Nat.log2_self_le hm.ne'
  · rw [← sub_nonneg, hbelow]
    exact mul_nonneg (Nat.cast_nonneg _) (two_zpow_pos q).le
  · rw [← sub_pos, habove]
    exact mul_pos (Nat.cast_pos.2 (Nat.sub_pos_of_lt hrest)) (two_zpow_pos q)

/-- Every number is rounded to one of its neighbours, or to infinity if that comes before it. -/
theorem exists_rounds (hf : 0 < f.fractionBits) (m : Nat) (q : Int) :
    ∃ r, f.Rounds (m * 2 ^ q) r ∧ f.round m q = min r f.infinity := by
  rcases Nat.eq_zero_or_pos m with rfl | hm
  · refine ⟨0, ?_, (Nat.zero_min _).symm⟩
    rw [Nat.cast_zero, zero_mul, ← f.value_zero]
    exact f.rounds_value 0
  obtain ⟨place, hlast, hle, hplace⟩ := f.exists_lastPlace hf m q
  have hshift : (f.minExponent + place - f.minExponent).toNat = place := by omega
  rw [round, if_neg hm.ne']
  dsimp only
  rw [hlast, hshift, Nat.shiftLeft_eq]
  refine ⟨_, ?_, rfl⟩
  split
  · rename_i hends
    obtain ⟨k, hk⟩ := Int.eq_ofNat_of_zero_le (sub_nonneg.2 hends)
    have hv : f.value (place * 2 ^ f.fractionBits + m * 2 ^ k) = m * 2 ^ q :=
      value_shiftLeft hm (by omega) (by omega) (by omega)
    rw [hk, Int.toNat_natCast, Nat.shiftLeft_eq, ← hv]
    exact f.rounds_value _
  · exact rounds_roundShift hf hm (by omega) (by omega) (by omega)

/-- Whether magnitude bits stand for the number nearest to a given one, the even one if there are
two of them. -/
structure Nearest (f : Format) (v : ℚ) (r : Nat) : Prop where
  le : ∀ y, |v - f.value r| ≤ |v - f.value y|
  even : ∀ y, |v - f.value y| = |v - f.value r| → y = r ∨ r % 2 = 0

/-- What lies below a neighbour from below is further away than it. -/
theorem sub_value_le_abs {b : Nat} (hb : f.value b ≤ v) (hy : y ≤ b) :
    v - f.value b ≤ |v - f.value y| ∧ (|v - f.value y| = v - f.value b → y = b) := by
  have hvalue := f.value_strictMono.monotone hy
  rw [abs_of_nonneg (sub_nonneg.2 (hvalue.trans hb))]
  exact ⟨by linarith, fun heq => f.value_strictMono.injective (by linarith)⟩

/-- What lies above a neighbour from above is further away than it. -/
theorem value_sub_le_abs {b : Nat} (hb : v ≤ f.value b) (hy : b ≤ y) :
    f.value b - v ≤ |v - f.value y| ∧ (|v - f.value y| = f.value b - v → y = b) := by
  have hvalue := f.value_strictMono.monotone hy
  rw [abs_of_nonpos (sub_nonpos.2 (hb.trans hvalue))]
  exact ⟨by linarith, fun heq => f.value_strictMono.injective (by linarith)⟩

/-- Of all numbers of a format, the neighbour picked is the nearest. -/
theorem Rounds.nearest (h : f.Rounds v r) : f.Nearest v r := by
  obtain ⟨b, hlow, hhigh, hpick⟩ := h
  have hbelow := fun y (hy : y ≤ b) => sub_value_le_abs hlow hy
  have habove := fun y (hy : b < y) => value_sub_le_abs hhigh.le hy
  have hb : |v - f.value b| = v - f.value b := abs_of_nonneg (sub_nonneg.2 hlow)
  have hb' : |v - f.value (b + 1)| = f.value (b + 1) - v := by
    rw [abs_sub_comm]
    exact abs_of_pos (sub_pos.2 hhigh)
  rcases hpick with ⟨rfl, hpick⟩ | ⟨rfl, hpick⟩
  · have hle : v - f.value r ≤ f.value (r + 1) - v := hpick.elim le_of_lt fun h => h.1.le
    constructor
    · intro y
      rw [hb]
      rcases Nat.lt_or_ge r y with hy | hy
      · exact hle.trans (habove y hy).1
      · exact (hbelow y hy).1
    · intro y heq
      rw [hb] at heq
      rcases Nat.lt_or_ge r y with hy | hy
      · -- the other neighbour is as near only if this one lies halfway, and so is even
        refine .inr (hpick.resolve_left fun hlt => ?_).2
        exact absurd ((habove y hy).1.trans heq.le) hlt.not_ge
      · exact .inl ((hbelow y hy).2 heq)
  · have hle : f.value (b + 1) - v ≤ v - f.value b := hpick.elim le_of_lt fun h => h.1.le
    constructor
    · intro y
      rw [hb']
      rcases Nat.lt_or_ge b y with hy | hy
      · exact (habove y hy).1
      · exact hle.trans (hbelow y hy).1
    · intro y heq
      rw [hb'] at heq
      rcases Nat.lt_or_ge b y with hy | hy
      · exact .inl ((habove y hy).2 heq)
      · have hodd := hpick.resolve_left fun hlt =>
          absurd ((hbelow y hy).1.trans heq.le) hlt.not_ge
        right
        omega

/-- The nearest to a number of the format is this number. -/
theorem Nearest.eq_of_value (h : f.Nearest (f.value x) r) : r = x := by
  have hle := h.le x
  rw [sub_self, abs_zero] at hle
  exact f.value_strictMono.injective (sub_eq_zero.1 (abs_nonpos_iff.1 hle)).symm

/-- What does not exceed the greatest number is rounded to the nearest one, which is finite. -/
theorem round_nearest (hf : 0 < f.fractionBits) (hinfinity : 0 < f.infinity)
    (hle : (m * 2 ^ q : ℚ) ≤ f.value (f.infinity - 1)) :
    f.round m q < f.infinity ∧ f.Nearest (m * 2 ^ q) (f.round m q) := by
  obtain ⟨r, hrounds, hround⟩ := f.exists_rounds hf m q
  have hfinite : r < f.infinity := by
    obtain ⟨b, hlow, hhigh, hpick⟩ := hrounds
    have hb : b ≤ f.infinity - 1 := f.value_strictMono.le_iff_le.1 (hlow.trans hle)
    rcases hpick with ⟨rfl, -⟩ | ⟨rfl, hpick⟩
    · omega
    · -- the greatest number itself is not rounded up, as nothing is left above it
      have hne : b ≠ f.infinity - 1 := by
        rintro rfl
        have hbelow := hpick.elim le_of_lt fun h => h.1.le
        linarith
      omega
  rw [hround, Nat.min_eq_left hfinite.le]
  exact ⟨hfinite, hrounds.nearest⟩

end Format

end Resumable.Number
