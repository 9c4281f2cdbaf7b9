/-!
# Rounding to a binary format

A binary floating-point format keeps so many significant bits down to a least exponent.
`Format.round` takes an exact value m · 2^q to the bits of the nearest magnitude of a format, a tie
to the even neighbour; it is the only rounding in the library.
-/

namespace Resumable.Number

/-- The quotient n / 2^k, rounded to nearest, a tie to even. -/
def roundShift (n k : Nat) : Nat :=
  let quotient := n >>> k
  let twiceRest := 2 * (n % 1 <<< k)
  if twiceRest < 1 <<< k then quotient
  else if 1 <<< k < twiceRest then quotient + 1
  else quotient + quotient % 2

/-- A binary interchange format: the significant bits, the exponent of the last place of its
smallest numbers, and the magnitude bits of infinity. -/
structure Format where
  precision : Nat
  minExponent : Int
  infinity : Nat
  deriving DecidableEq, Repr

namespace Format

/-- Single precision: 24 significant bits. -/
def single : Format := ⟨24, -149, 0x7f800000⟩

/-- Double precision: 53 significant bits. -/
def double : Format := ⟨53, -1074, 0x7ff0000000000000⟩

/-- The number of stored bits of a significand. -/
def fractionBits (f : Format) : Nat := f.precision - 1

/-- The exponent of the last place to which m · 2^q is rounded. -/
def lastPlace (f : Format) (m : Nat) (q : Int) : Int :=
  max (q + (Nat.log2 m + 1 : Nat) - f.precision) f.minExponent

/-- The magnitude bits of the nearest number to m · 2^q. A carry out of the significand goes into
the exponent field, and what lies beyond the greatest finite number is infinity. -/
def round (f : Format) (m : Nat) (q : Int) : Nat :=
  if m = 0 then 0
  else
    let last := f.lastPlace m q
    let significand :=
      if last ≤ q then m <<< (q - last).toNat else roundShift m (last - q).toNat
    min ((last - f.minExponent).toNat <<< f.fractionBits + significand) f.infinity

/-- The significand that magnitude bits stand for, with the leading bit put back. -/
def significand (f : Format) (magnitude : Nat) : Nat :=
  let fraction := magnitude % 1 <<< f.fractionBits
  if magnitude >>> f.fractionBits = 0 then fraction else fraction + 1 <<< f.fractionBits

/-- The exponent of the last place that magnitude bits stand for. -/
def exponent (f : Format) (magnitude : Nat) : Int :=
  f.minExponent + ((magnitude >>> f.fractionBits - 1 : Nat) : Int)

end Format

end Resumable.Number
