import Resumable.Number.Integer

/-!
# Reading values off their text

Readers of the text forms: whole numbers of a fixed-width type in decimal, truth values, single
characters, and internet addresses of four decimal parts. A refused text comes with the reason.
-/

namespace Resumable.Text

open Number

/-- A reader of values off texts, with the reason where it refuses one. -/
abbrev Reader (α : Type) := String → Except String α

/-- The value of a decimal digit. -/
def digit? (c : Char) : Option Nat :=
  if '0' ≤ c ∧ c ≤ '9' then some (c.toNat - '0'.toNat) else none

/-- The number that decimal digits spell, most significant first. -/
def decimal? (digits : List Char) : Option Nat :=
  digits.foldlM (fun n c => (digit? c).map (10 * n + ·)) 0

namespace Reader

/-- A text itself. -/
def text : Reader String := .ok

/-- The digits of a number behind its sign: a minus makes it negative, where the type has negative
numbers; a plus says nothing. A sign alone is no sign. -/
def unsign (signed : Bool) : List Char → Bool × List Char
  | '-' :: c :: rest => if signed then (true, c :: rest) else (false, '-' :: c :: rest)
  | '+' :: c :: rest => (false, c :: rest)
  | digits => (false, digits)

/-- Appends a digit to a number of the type. The digit is looked at before the range. -/
def appendDigit (t : IntegerType) (negative : Bool) (n : Nat) (c : Char) : Except String Nat :=
  match digit? c with
  | none => .error "invalid digit found in string"
  | some d =>
    if t.Contains (if negative then -(10 * n + d : Nat) else (10 * n + d : Nat)) then
      .ok (10 * n + d)
    else .error (if negative then "number too small to fit in target type"
      else "number too large to fit in target type")

/-- A number of a fixed-width type in decimal, with one sign in front or none and any number of
leading zeros. The first digit that is none or leaves the range decides. -/
def integer (t : IntegerType) : Reader t.Num := fun s => do
  if s.isEmpty then throw "cannot parse integer from empty string"
  let (negative, digits) := unsign t.signed s.toList
  let n ← digits.foldlM (appendDigit t negative) 0
  match t.num? (if negative then -(n : Int) else n) with
  | some value => return value
  | none => throw "number too large to fit in target type"

/-- A truth value by its name. -/
def bool : Reader Bool := fun s =>
  if s = "true" then .ok true
  else if s = "false" then .ok false
  else .error "provided string was not `true` or `false`"

/-- A text of one character. -/
def char : Reader Char := fun s =>
  match s.toList with
  | [] => .error "cannot parse char from empty string"
  | [c] => .ok c
  | _ => .error "too many characters in string"

/-- One part of an internet address: up to three digits, none of them a leading zero, below 256. -/
def addressPart? (digits : List Char) : Option UInt8 :=
  if digits.isEmpty ∨ 3 < digits.length ∨ (1 < digits.length ∧ digits.head? = some '0') then none
  else (decimal? digits).bind fun n => if n < 256 then some (UInt8.ofNat n) else none

/-- An internet address: four decimal parts with points between them. -/
def address : Reader (List UInt8) := fun s =>
  let parts := (s.splitOn ".").map String.toList
  match parts.mapM addressPart? with
  | some bytes =>
    if bytes.length = 4 then .ok bytes else .error "invalid IPv4 address syntax"
  | none => .error "invalid IPv4 address syntax"

end Reader

/-- The text of an internet address. -/
def address (parts : List UInt8) : String := ".".intercalate (parts.map fun b => toString b.toNat)

end Resumable.Text
