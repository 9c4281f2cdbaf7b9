import Resumable.Number.Double
import Resumable.Tree.Keyed

/-!
# Structural trees

A tree is null, a truth value, a number, a text, a list of trees, or a map from keys to trees. An
integer is a number of its own whatever word it came from, and never equals a floating-point number;
floating-point numbers in trees are finite. The fields of a map stand in the order of their keys,
one for each key, as their type says (`Keyed`).
-/

namespace Resumable

open Number

/-- An integer that fits 64 bits, signed or unsigned. -/
structure Tree.Integer where
  val : Int
  lower : -0x8000000000000000 ≤ val
  upper : val < 0x10000000000000000
  deriving DecidableEq, Repr

/-- A structural tree. -/
inductive Tree where
  | null
  | bool (b : Bool)
  | int (n : Tree.Integer)
  | double (d : Double) (finite : d.isFinite = true)
  | string (s : String)
  | list (items : List Tree)
  | map (fields : Keyed Tree none)

namespace Tree

instance : Inhabited Tree := ⟨null⟩

/-- The integer of a signed word. -/
def Integer.ofInt64 (n : Int64) : Integer where
  val := n.toInt
  lower := n.le_toInt
  upper := by have := n.toInt_lt; omega

/-- The integer of an unsigned word. -/
def Integer.ofUInt64 (n : UInt64) : Integer where
  val := n.toNat
  lower := by omega
  upper := by have := n.toNat_lt; omega

/-- The tree of an integer that fits 64 bits. -/
def ofInt? (n : Int) : Option Tree :=
  if h : -0x8000000000000000 ≤ n ∧ n < 0x10000000000000000 then some (.int ⟨n, h.1, h.2⟩) else none

/-- The tree of a floating-point number; null stands for one that is not finite. -/
def ofDouble (d : Double) : Tree :=
  if h : d.isFinite = true then .double d h else .null

/-- The map of these fields; of two with one key the later wins. -/
def ofFields (fields : List (String × Tree)) : Tree := .map fields

mutual

/-- Equality of trees: maps agree field by field, floating-point numbers as numbers. -/
def equal : Tree → Tree → Bool
  | null, null => true
  | bool a, bool b => a == b
  | int a, int b => a.val == b.val
  | double a _, double b _ => a.equal b
  | string a, string b => a == b
  | list as, list bs => equalLists as bs
  | map as, map bs => equalFields as bs
  | _, _ => false

/-- Equality of lists of trees. -/
def equalLists : List Tree → List Tree → Bool
  | [], [] => true
  | a :: as, b :: bs => equal a b && equalLists as bs
  | _, _ => false

/-- Equality of fields. -/
def equalFields {after after' : Option String} : Keyed Tree after → Keyed Tree after' → Bool
  | .nil, .nil => true
  | .cons k a _ as, .cons l b _ bs => k == l && equal a b && equalFields as bs
  | _, _ => false

end

end Tree

end Resumable
