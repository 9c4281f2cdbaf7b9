/-!
# Integer types

The ten fixed-width integer types a value can be boxed from and unboxed into: signed and unsigned,
of 8, 16, 32 and 64 bits, and of the width of a pointer, which is 64 bits.
-/

namespace Resumable.Number

/-- The widths of the integer types. -/
inductive Width where
  | w8
  | w16
  | w32
  | w64
  | pointer
  deriving DecidableEq, Repr

/-- The number of bits. -/
def Width.bits : Width → Nat
  | w8 => 8
  | w16 => 16
  | w32 => 32
  | w64 => 64
  | pointer => 64

/-- A fixed-width integer type. -/
structure IntegerType where
  signed : Bool
  width : Width
  deriving DecidableEq, Repr

namespace IntegerType

/-- Every integer type, the signed ones first. -/
def all : List IntegerType :=
  [true, false].flatMap fun signed =>
    [Width.w8, .w16, .w32, .w64, .pointer].map fun width => ⟨signed, width⟩

/-- The number of bits. -/
def bits (t : IntegerType) : Nat := t.width.bits

/-- The type's name: its signedness and its width. -/
def name (t : IntegerType) : String :=
  (if t.signed then "i" else "u") ++ if t.width = .pointer then "size" else toString t.bits

/-- The type of a name, if there is one. -/
def named? (name : String) : Option IntegerType := all.find? (·.name = name)

/-- The least value. -/
def least (t : IntegerType) : Int := if t.signed then -(1 <<< (t.bits - 1) : Nat) else 0

/-- The greatest value. -/
def greatest (t : IntegerType) : Int :=
  if t.signed then (1 <<< (t.bits - 1) : Nat) - 1 else (1 <<< t.bits : Nat) - 1

/-- Whether an integer is a value of the type. -/
def Contains (t : IntegerType) (n : Int) : Prop := t.least ≤ n ∧ n ≤ t.greatest

instance (t : IntegerType) (n : Int) : Decidable (t.Contains n) :=
  inferInstanceAs (Decidable (_ ∧ _))

/-- The values of an integer type. -/
def Num (t : IntegerType) : Type := { n : Int // t.Contains n }

/-- The value of the type that an integer is, if it is one. -/
def num? (t : IntegerType) (n : Int) : Option t.Num :=
  if h : t.Contains n then some ⟨n, h⟩ else none

end IntegerType

end Resumable.Number
