import Resumable.Boxed.Error
import Resumable.Tree.Basic

/-!
# Decoded values

A `Value` is what a payload holds before any target is considered. `Value.narrow` is the only way
from a value of one width to a kind of another: it refuses what does not fit and never wraps.
-/

namespace Resumable

open Number

/-- The decoded, untyped form of a boxed value. -/
inductive Value where
  | null
  | bool (b : Bool)
  | int (n : Int64)
  | uint (n : UInt64)
  | double (d : Double)
  | string (s : String)
  | bytes (data : Bytes)
  | timestamp (t : Instant)
  | duration (d : Span)
  | tree (t : Tree)

namespace Value

/-- The shape the value boxes under. -/
def shape : Value → Shape
  | null => .empty
  | bool _ => .bool
  | int _ => .int
  | uint _ => .uint
  | double _ => .double
  | string _ => .string
  | bytes _ => .bytes
  | timestamp _ => .timestamp
  | duration _ => .duration
  | tree _ => .tree

/-- Whether the value is null. -/
def isNull : Value → Bool
  | null => true
  | _ => false

/-- Equality of values, with floating-point numbers compared as numbers. -/
def equal : Value → Value → Bool
  | null, null => true
  | bool a, bool b => a == b
  | int a, int b => a == b
  | uint a, uint b => a == b
  | double a, double b => a.equal b
  | string a, string b => a == b
  | bytes a, bytes b => a == b
  | timestamp a, timestamp b => a == b
  | duration a, duration b => a == b
  | tree a, tree b => a.equal b
  | _, _ => false

/-- Whether a signed word lies in the range of so many bits; 64 bits and more hold every word. -/
def FitsSigned (n : Int64) (bits : Nat) : Prop :=
  64 ≤ bits ∨ (-(1 <<< (bits - 1) : Nat) ≤ n.toInt ∧ n.toInt < (1 <<< (bits - 1) : Nat))

instance (n : Int64) (bits : Nat) : Decidable (FitsSigned n bits) :=
  inferInstanceAs (Decidable (_ ∨ _))

/-- Whether an unsigned word lies in the range of so many bits. -/
def FitsUnsigned (n : UInt64) (bits : Nat) : Prop := 64 ≤ bits ∨ n.toNat < 1 <<< bits

instance (n : UInt64) (bits : Nat) : Decidable (FitsUnsigned n bits) :=
  inferInstanceAs (Decidable (_ ∨ _))

/-- Narrows a value to a kind. There is no answer if the kind is another one, and an overflow if it
is the same and the value lies outside its range. -/
def narrow (v : Value) (target : Kind) : Except CodecError (Option Value) :=
  match v, target with
  | v, .any => .ok (some v)
  | .bool _, .bool => .ok (some v)
  | .int n, .int bits =>
    if FitsSigned n bits then .ok (some v)
    else .error (.overflow v.shape (toString n.toInt) target)
  | .uint n, .uint bits =>
    if FitsUnsigned n bits then .ok (some v)
    else .error (.overflow v.shape (toString n.toNat) target)
  | .double d, .float bits =>
    if bits < 64 ∧ d.exceedsSingle then .error (.overflow v.shape d.text target)
    else .ok (some v)
  | .string _, .string => .ok (some v)
  | .bytes _, .bytes => .ok (some v)
  | .timestamp _, .timestamp => .ok (some v)
  | .duration _, .duration => .ok (some v)
  | .tree _, .tree => .ok (some v)
  | _, _ => .ok none

end Value

end Resumable
