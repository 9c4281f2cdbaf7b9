/-!
# Shortest decimals

The decimal that stands for a binary number is the one with the fewest digits among those that read
back as it, and of these the nearest, a tie going up. `Interval` is the set of reals that read back;
`Interval.onGrid?` asks one decimal grid for its best point in it, and `shortest?` takes the coarsest
grid that has one.
-/

namespace Resumable.Number

/-- A decimal: `digits` · 10^`exponent`. -/
structure Decimal where
  digits : Nat
  exponent : Int
  deriving DecidableEq, Repr

/-- A positive value with the interval of reals that read back as it, all in units of 2^`exponent`.
The ends belong to the interval iff it is closed. -/
structure Interval where
  low : Nat
  value : Nat
  high : Nat
  exponent : Int
  closed : Bool
  deriving DecidableEq, Repr

namespace Interval

/-- The interval of m · 2^q: half a unit to each side, but a quarter below where the numbers below
lie closer. Ends belong to it iff m is even. -/
def around (m : Nat) (q : Int) (closerBelow : Bool) : Interval where
  low := 4 * m - (if closerBelow then 1 else 2)
  value := 4 * m
  high := 4 * m + 2
  exponent := q - 2
  closed := m % 2 == 0

/-- The best multiple of 10^k in the interval, if it holds one. -/
def onGrid? (i : Interval) (k : Int) : Option Decimal :=
  let unit := Nat.pow 10 (-k).toNat <<< i.exponent.toNat
  let step := Nat.pow 10 k.toNat <<< (-i.exponent).toNat
  let below := i.value * unit / step
  let above := below + 1
  let inside := fun c : Nat =>
    if i.closed then decide (i.low * unit ≤ c * step ∧ c * step ≤ i.high * unit)
    else decide (i.low * unit < c * step ∧ c * step < i.high * unit)
  let belowNearer := i.value * unit - below * step < above * step - i.value * unit
  if inside below ∧ (belowNearer ∨ ¬inside above) then some ⟨below, k⟩
  else if inside above then some ⟨above, k⟩
  else none

/-- The grids tried, coarsest first: from 10^309, beyond every double, to 10^-1074, on which every
double lies. -/
def grids : List Int := (List.range 1384).map fun n : Nat => 309 - (n : Int)

/-- The shortest decimal in the interval. -/
def shortest? (i : Interval) : Option Decimal := grids.findSome? i.onGrid?

end Interval

namespace Decimal

/-- Positional text: never an exponent, and no point where there is no fraction. -/
def text (d : Decimal) : String :=
  let digits := toString d.digits
  if 0 ≤ d.exponent then digits ++ "".pushn '0' d.exponent.toNat
  else
    let places := (-d.exponent).toNat
    let padded := "".pushn '0' (places + 1 - digits.length) ++ digits
    let chars := padded.toList
    let whole := chars.length - places
    String.ofList (chars.take whole) ++ "." ++ String.ofList (chars.drop whole)

end Decimal

end Resumable.Number
