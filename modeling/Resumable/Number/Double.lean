import Resumable.Number.Rounding
import Resumable.Number.Shortest

/-!
# Floating-point numbers

Doubles and singles are their bits. A double is narrowed to the nearest single, a tie to even, and a
single is widened exactly; both agree on what is finite, zero and negative. Equality is that of the
numbers: a NaN differs from itself and the zeros are equal.
-/

namespace Resumable.Number

/-- A double-precision number, as its bits. -/
structure Double where
  bits : UInt64
  deriving DecidableEq, Repr

/-- A single-precision number, as its bits. -/
structure Single where
  bits : UInt32
  deriving DecidableEq, Repr

namespace Double

/-- The bits below the sign. -/
def magnitude (d : Double) : Nat := d.bits.toNat % 1 <<< 63

/-- Whether the sign bit is set. -/
def negative (d : Double) : Bool := decide (1 <<< 63 ≤ d.bits.toNat)

/-- Whether the number is neither infinite nor NaN. -/
def isFinite (d : Double) : Bool := decide (d.magnitude < Format.double.infinity)

/-- Whether the bits stand for no number. -/
def isNaN (d : Double) : Bool := decide (Format.double.infinity < d.magnitude)

/-- The double with this sign and these magnitude bits. -/
def ofMagnitude (negative : Bool) (magnitude : Nat) : Double :=
  ⟨UInt64.ofNat ((if negative then 1 <<< 63 else 0) + magnitude)⟩

/-- Equality of numbers. -/
def equal (a b : Double) : Bool :=
  !a.isNaN && !b.isNaN && (a.bits == b.bits || (a.magnitude == 0 && b.magnitude == 0))

/-- The nearest double to an integer, a tie to even. -/
def ofInt (n : Int) : Double := ofMagnitude (decide (n < 0)) (Format.double.round n.natAbs 0)

/-- The shortest decimal that reads back as a finite number's magnitude; zero has one digit. -/
def decimal (d : Double) : Decimal :=
  if d.magnitude = 0 then ⟨0, 0⟩
  else
    let m := Format.double.significand d.magnitude
    let q := Format.double.exponent d.magnitude
    let closerBelow := d.magnitude % 1 <<< 52 == 0 && decide (1 <<< 53 ≤ d.magnitude)
    ((Interval.around m q closerBelow).shortest?).getD ⟨m, q⟩

/-- The text of a number: its shortest decimal in positional form. -/
def text (d : Double) : String :=
  if d.isNaN then "NaN"
  else (if d.negative then "-" else "") ++ (if d.isFinite then d.decimal.text else "inf")

end Double

namespace Single

/-- The bits below the sign. -/
def magnitude (s : Single) : Nat := s.bits.toNat % 1 <<< 31

/-- Whether the sign bit is set. -/
def negative (s : Single) : Bool := decide (1 <<< 31 ≤ s.bits.toNat)

/-- Whether the bits stand for no number. -/
def isNaN (s : Single) : Bool := decide (Format.single.infinity < s.magnitude)

/-- Whether the number is neither infinite nor NaN. -/
def isFinite (s : Single) : Bool := decide (s.magnitude < Format.single.infinity)

/-- The single with this sign and these magnitude bits. -/
def ofMagnitude (negative : Bool) (magnitude : Nat) : Single :=
  ⟨UInt32.ofNat ((if negative then 1 <<< 31 else 0) + magnitude)⟩

/-- The double of the same value. A NaN becomes quiet and keeps its payload. -/
def toDouble (s : Single) : Double :=
  Double.ofMagnitude s.negative <|
    if s.isFinite then
      Format.double.round (Format.single.significand s.magnitude)
        (Format.single.exponent s.magnitude)
    else if s.isNaN then
      Format.double.infinity + (1 <<< 51 ||| (s.magnitude % 1 <<< 23) <<< 29)
    else Format.double.infinity

/-- The greatest finite single. -/
def greatest : Single := ⟨0x7f7fffff⟩

end Single

/-- The nearest single, a tie to even; what lies beyond the greatest single becomes infinite. A NaN
becomes quiet and keeps the front of its payload. -/
def Double.toSingle (d : Double) : Single :=
  Single.ofMagnitude d.negative <|
    if d.isFinite then
      Format.single.round (Format.double.significand d.magnitude)
        (Format.double.exponent d.magnitude)
    else if d.isNaN then
      Format.single.infinity + (1 <<< 22 ||| (d.magnitude % 1 <<< 52) >>> 29)
    else Format.single.infinity

/-- Whether a finite number lies beyond the greatest single, on either side. -/
def Double.exceedsSingle (d : Double) : Bool :=
  d.isFinite && decide (Single.greatest.toDouble.magnitude < d.magnitude)

end Resumable.Number
