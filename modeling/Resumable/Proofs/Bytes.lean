import Mathlib.Algebra.Group.Nat.Defs
import Resumable.Bytes

/-!
# Little-endian numbers

Reading back a fixed-width number gives what was written, modulo the width (`number_littleEndian`),
and every number read from so many bytes fits them (`number_lt`).
-/

namespace Resumable.Bytes

/-- Reading back what was written gives the number modulo the width. -/
theorem number_littleEndian (width n : Nat) :
    number (littleEndian width n) = n % 256 ^ width := by
  induction width generalizing n with
  | zero => simp [littleEndian, number, Nat.mod_one]
  | succ width ih =>
    have hbyte : (UInt8.ofNat n).toNat = n % 256 := by simp
    rw [littleEndian, number, ih, hbyte, Nat.pow_succ, Nat.mul_comm (256 ^ width) 256, Nat.mod_mul]

theorem number_lt (bs : Bytes) : number bs < 256 ^ bs.length := by
  induction bs with
  | nil => simp [number]
  | cons b rest ih =>
    have hb : b.toNat < 256 := b.toNat_lt
    simp only [number, List.length_cons, Nat.pow_succ]
    omega

end Resumable.Bytes
