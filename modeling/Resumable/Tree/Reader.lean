import Resumable.Tree.Basic
import Resumable.Number.Integer

/-!
# Reading typed values off trees

A reader takes a tree to a value of its type or refuses it. Integers take integers in range and
nothing else, a floating-point number takes any number, and a record takes a map with all its keys
or a list of exactly its fields.
-/

namespace Resumable.Tree

open Number

/-- A reader of values of one type. -/
abbrev Reader (α : Type) := Tree → Option α

namespace Reader

/-- Any tree, as it is. -/
def tree : Reader Tree := some

/-- An integer of a fixed-width type. -/
def integer (t : IntegerType) : Reader t.Num
  | .int n => t.num? n.val
  | _ => none

/-- Any number, rounded to the nearest double. -/
def double : Reader Double
  | .int n => some (Double.ofInt n.val)
  | .double d _ => some d
  | _ => none

/-- A text. -/
def string : Reader String
  | .string s => some s
  | _ => none

/-- Null, or what the reader takes. -/
def optional {α : Type} (reader : Reader α) : Reader (Option α)
  | .null => some none
  | t => (reader t).map some

/-- A list of what the reader takes. -/
def list {α : Type} (reader : Reader α) : Reader (List α)
  | .list items => items.mapM reader
  | _ => none

/-- A record of three named fields: a map that has them all, others besides, or a list of exactly
three. -/
def record₃ {α β γ : Type} (a : String × Reader α) (b : String × Reader β)
    (c : String × Reader γ) : Reader (α × β × γ)
  | .map fields => do
    let x ← a.2 (← fields.get? a.1)
    let y ← b.2 (← fields.get? b.1)
    let z ← c.2 (← fields.get? c.1)
    return (x, y, z)
  | .list [x, y, z] => do
    return (← a.2 x, ← b.2 y, ← c.2 z)
  | _ => none

end Reader

end Resumable.Tree
