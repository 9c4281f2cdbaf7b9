import Resumable.Boxed.Error
import Resumable.Tree.Basic
import Resumable.Wire.Item

/-!
# Trees on the wire

A tree is one item: integers that fit a signed word are signed, the others unsigned, maps hold one
variant for each field. Both directions stop at trees more than 64 levels below the root, before
they look at the node there.
-/

namespace Resumable.Tree

open Number Wire

/-- Levels that a tree may have: the root and 64 below it. -/
def maxLevels : Nat := 65

/-- The item of an integer: signed if it fits, else unsigned. -/
def Integer.toItem (n : Integer) : Item :=
  if n.val < 0x8000000000000000 then .s64 (Int64.ofInt n.val) else .u64 (UInt64.ofNat n.val.toNat)

/-- The item of a tree of so many levels at most. -/
def toItem : (levels : Nat) → Tree → Except CodecError Item
  | 0, _ => .error .recursionLimitExceeded
  | levels + 1, t =>
    match t with
    | .null => .ok .null
    | .bool b => .ok (.bool b)
    | .int n => .ok n.toItem
    | .double d _ => .ok (.f64 d.bits)
    | .string s => .ok (.string s)
    | .list items => do
      return .list (← items.mapM (toItem levels))
    | .map fields => do
      return .map (← fields.toList.mapM fun field => do return (field.1, ← toItem levels field.2))

/-- Reads a tree of so many levels at most off the front of some bytes. Bytes behind the item of a
field are not looked at; of two fields with one key the later wins. -/
def read : (levels : Nat) → Bytes → Except CodecError (Tree × Bytes)
  | 0, _ => .error .recursionLimitExceeded
  | levels + 1, bs => do
    match (← CodecError.ofWire (Cursor.peek.eval bs)) with
    | .null => return (.null, (← CodecError.reading Cursor.null bs).2)
    | .boolTrue | .boolFalse =>
      let (b, rest) ← CodecError.reading Cursor.bool bs
      return (.bool b, rest)
    | .s64 =>
      let (n, rest) ← CodecError.reading Cursor.s64 bs
      return (.int (.ofInt64 n), rest)
    | .u64 =>
      let (n, rest) ← CodecError.reading Cursor.u64 bs
      return (.int (.ofUInt64 n), rest)
    | .f64 =>
      let (bits, rest) ← CodecError.reading Cursor.f64 bs
      let d : Double := ⟨bits⟩
      if h : d.isFinite = true then return (.double d h, rest)
      else throw (.marshal (.notFinite d))
    | .string =>
      let (s, rest) ← CodecError.reading Cursor.string bs
      return (.string s, rest)
    | .list =>
      let (body, rest) ← CodecError.reading Cursor.list bs
      let (windows, failure) := Cursor.items body
      let items ← windows.mapM fun window => do return (← read levels window).1
      CodecError.unlessFailed failure (.list items, rest)
    | .map =>
      let (body, rest) ← CodecError.reading Cursor.map bs
      let (windows, failure) := Cursor.entries body
      let fields ← windows.mapM fun entry => do return (entry.1, (← read levels entry.2).1)
      CodecError.unlessFailed failure (.ofFields fields, rest)
    | tag => throw (.protocolViolation (.notInTree tag))

end Resumable.Tree
