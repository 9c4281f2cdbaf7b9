import Resumable.Bytes
import Resumable.Wire.Writer

/-!
# Reading items

A cursor is the list of unread bytes. A `Read` takes bytes off its front; when it fails, what it had
taken before the failing stage stays taken. Containers are read as windows: the body of a list, a
map, an option or a variant is a byte string of its own, and `nextItem` and `nextEntry` take it
apart item by item.
-/

namespace Resumable.Wire

/-- A read off the front of the unread bytes; these are kept when the read fails. -/
abbrev Read (α : Type) := ExceptT Error (StateM Bytes) α

/-- Runs a read: its answer, and the bytes left unread. -/
def Read.on {α : Type} (read : Read α) (bs : Bytes) : Except Error α × Bytes := read bs

/-- The answer of a read, whatever is left unread. -/
def Read.eval {α : Type} (read : Read α) (bs : Bytes) : Except Error α := (read.on bs).1

namespace Cursor

/-- The tag at the front, which stays unread. -/
def peek : Read Tag := fun bs =>
  match bs with
  | [] => (.error .unexpectedEnd, bs)
  | b :: _ =>
    match Tag.ofCode? b with
    | some tag => (.ok tag, bs)
    | none => (.error (.invalidTag b), bs)

/-- Takes exactly `n` bytes, or nothing. -/
def take (n : Nat) : Read Bytes := fun bs =>
  if n ≤ bs.length then (.ok (bs.take n), bs.drop n) else (.error .unexpectedEnd, bs)

/-- Takes a little-endian number of so many bytes. -/
def number (width : Nat) : Read Nat := do
  return Bytes.number (← take width)

/-- Takes a four-byte length and as many bytes. -/
def sized : Read Bytes := do
  take (← number 4)

/-- Takes the tag byte, which must be the one named. -/
def expect (expected : Tag) : Read Unit := do
  let found ← peek
  if found ≠ expected then throw (.unexpectedTag expected found)
  discard (take 1)

/-- Skips the item at the front with everything nested in it. -/
def skip : Read Unit := do
  let tag ← peek
  discard (take 1)
  match tag.width? with
  | some width => discard (take width)
  | none => discard sized

/-- Reads the null item. -/
def null : Read Unit := expect .null

/-- Reads a truth value. -/
def bool : Read Bool := do
  match ← peek with
  | .boolTrue => discard (take 1); return true
  | .boolFalse => discard (take 1); return false
  | found => throw (.unexpectedTag .boolTrue found)

/-- Reads an unsigned number. -/
def u64 : Read UInt64 := do
  expect .u64
  return UInt64.ofNat (← number 8)

/-- Reads a signed number. -/
def s64 : Read Int64 := do
  expect .s64
  return (UInt64.ofNat (← number 8)).toInt64

/-- Reads the bits of a floating-point number. -/
def f64 : Read UInt64 := do
  expect .f64
  return UInt64.ofNat (← number 8)

/-- Reads a point in time as seconds and nanoseconds; the nanoseconds are checked after both have
been taken. -/
def timestamp : Read (Int64 × UInt32) := do
  expect .timestamp
  let secs := (UInt64.ofNat (← number 8)).toInt64
  let nanos := UInt32.ofNat (← number 4)
  if nanosPerSecond ≤ nanos.toNat then throw (.invalidNanos nanos.toNat)
  return (secs, nanos)

/-- Reads a signed span of time; its nanoseconds are checked after both numbers have been taken. -/
def duration : Read (Int64 × Int32) := do
  expect .duration
  let secs := (UInt64.ofNat (← number 8)).toInt64
  let nanos := (UInt32.ofNat (← number 4)).toInt32
  if ¬SpanNanosOk secs.toInt nanos.toInt then throw (.invalidNanos nanos.toInt)
  return (secs, nanos)

/-- Reads the absent option. -/
def optionNone : Read Unit := expect .optionNone

/-- Reads a text; its bytes are taken before they are checked. -/
def string : Read String := do
  expect .string
  match Bytes.text? (← sized) with
  | some s => return s
  | none => throw .invalidUtf8

/-- Reads a byte string. -/
def bytes : Read Bytes := do
  expect .bytes
  sized

/-- Reads a container and gives its body. -/
def body (tag : Tag) : Read Bytes := do
  expect tag
  sized

/-- Reads a list and gives its body. -/
def list : Read Bytes := body .list

/-- Reads a map and gives its body. -/
def map : Read Bytes := body .map

/-- Reads an option and gives the body of a present one. -/
def option : Read (Option Bytes) := do
  match ← peek with
  | .optionNone => discard (take 1); return none
  | .optionSome => return some (← body .optionSome)
  | found => throw (.unexpectedTag .optionSome found)

/-- Reads a variant and gives its name and what follows the name in its body. The whole variant has
been taken when its name turns out to be malformed. -/
def variant : Read (String × Bytes) := do
  let inner ← body .variant
  match string.on inner with
  | (.ok name, rest) => return (name, rest)
  | (.error e, _) => throw e

/-- Takes the next item of a list body as a window of its own; `none` at the end. The item is
measured on a copy first, so that a malformed one leaves the body as it was. -/
def nextItem : Read (Option Bytes) := do
  let bs ← get
  if bs.isEmpty then return none
  match skip.on bs with
  | (.error e, _) => throw e
  | (.ok (), rest) => return some (← take (bs.length - rest.length))

/-- Takes the next entry of a map body, which must be a variant; `none` at the end. -/
def nextEntry : Read (Option (String × Bytes)) := do
  if (← get).isEmpty then return none
  let found ← peek
  if found ≠ .variant then throw (.unexpectedTag .variant found)
  return some (← variant)

/-- Drains a body with `next`: what it yields up to the end or the first failure, and that failure.
Every step takes at least a tag byte, so there are at most `fuel` of them in as many bytes. -/
def drain {α : Type} (next : Read (Option α)) : (fuel : Nat) → Bytes → List α × Option Error
  | 0, _ => ([], none)
  | fuel + 1, bs =>
    match next.on bs with
    | (.ok none, _) => ([], none)
    | (.error e, _) => ([], some e)
    | (.ok (some a), rest) =>
      let (more, failure) := drain next fuel rest
      (a :: more, failure)

/-- The items of a list body, up to its end or the first malformed one. -/
def items (body : Bytes) : List Bytes × Option Error := drain nextItem (body.length + 1) body

/-- The entries of a map body, up to its end or the first malformed one. -/
def entries (body : Bytes) : List (String × Bytes) × Option Error :=
  drain nextEntry (body.length + 1) body

end Cursor

end Resumable.Wire
