import Resumable.Boxed.TreeCodec
import Resumable.Boxed.Value

/-!
# Encoding and decoding values

`Value.encode` boxes a value as the one item of its shape, and `Boxed.decode` reads it back. A
payload is that item and nothing behind it; the payload of the boxed null is never looked at.
-/

namespace Resumable

open Number Wire

/-- The item of a point in time. -/
def Instant.toItem (t : Instant) : Except CodecError Item :=
  match t.epochParts? with
  | some (secs, nanos) => .ok (.timestamp secs nanos)
  | none => .error (.marshal (.instantOutOfRange t))

/-- The item of a span, whose seconds have to fit a signed word. -/
def Span.toItem (d : Span) : Except CodecError Item :=
  if d.secs.toNat < 0x8000000000000000 then .ok (.duration d.secs.toInt64 d.nanos.toInt32)
  else .error (.marshal (.spanOutOfRange d))

/-- The point in time of seconds and nanoseconds as they were read. -/
def Instant.ofParts (secs : Int64) (nanos : UInt32) : Except CodecError Instant :=
  match Instant.ofEpoch? secs nanos with
  | some t => .ok t
  | none => .error (.overflow .timestamp s!"{secs.toInt}s{nanos.toNat}ns" .timestamp)

/-- The span of seconds and nanoseconds as they were read, unless one of them is negative. -/
def Span.ofParts? (secs : Int64) (nanos : Int32) : Option Span :=
  if h : 0 ≤ secs.toInt ∧ 0 ≤ nanos.toInt ∧ nanos.toInt.toNat < 1000000000 then
    some {
      secs := UInt64.ofNat secs.toInt.toNat
      nanos := UInt32.ofNat nanos.toInt.toNat
      nanos_lt := by
        rw [UInt32.toNat_ofNat_of_lt' (by simp only [UInt32.size]; omega)]
        exact h.2.2 }
  else none

namespace Value

/-- The item in the payload of a value; null has none. -/
def toItem? : Value → Except CodecError (Option Item)
  | null => .ok none
  | bool b => .ok (some (.bool b))
  | int n => .ok (some (.s64 n))
  | uint n => .ok (some (.u64 n))
  | double d => .ok (some (.f64 d.bits))
  | string s => .ok (some (.string s))
  | bytes data => .ok (some (.bytes data))
  | timestamp t => return some (← t.toItem)
  | duration d => return some (← d.toItem)
  | tree t => return some (← t.toItem Tree.maxLevels)

/-- Boxes a value under its shape. -/
def encode (v : Value) : Except CodecError Boxed := do
  match ← v.toItem? with
  | none => return .null
  | some item => return ⟨v.shape, ← CodecError.ofWire (Item.encode [item])⟩

/-- Reads a value of a shape off the front of some bytes. -/
def read (shape : Shape) (bs : Bytes) : Except CodecError (Value × Bytes) :=
  match shape with
  | .empty => return (.null, bs)
  | .bool => return (← CodecError.reading Cursor.bool bs).map .bool id
  | .int => return (← CodecError.reading Cursor.s64 bs).map .int id
  | .uint => return (← CodecError.reading Cursor.u64 bs).map .uint id
  | .double => return (← CodecError.reading Cursor.f64 bs).map (fun bits => .double ⟨bits⟩) id
  | .string => return (← CodecError.reading Cursor.string bs).map .string id
  | .bytes => return (← CodecError.reading Cursor.bytes bs).map .bytes id
  | .timestamp => do
    let ((secs, nanos), rest) ← CodecError.reading Cursor.timestamp bs
    return (.timestamp (← Instant.ofParts secs nanos), rest)
  | .duration => do
    let ((secs, nanos), rest) ← CodecError.reading Cursor.duration bs
    match Span.ofParts? secs nanos with
    | some d => return (.duration d, rest)
    | none => throw (.overflow .duration s!"{secs.toInt}s{nanos.toInt}ns" .duration)
  | .tree => return (← Tree.read Tree.maxLevels bs).map .tree id

end Value

/-- Decodes a payload as its shape says. Bytes behind the item are refused. -/
def Boxed.decode (boxed : Boxed) : Except CodecError Value := do
  if boxed.shape = .empty then return .null
  let (v, rest) ← Value.read boxed.shape boxed.payload
  if rest.isEmpty then return v
  else throw (.protocolViolation (.trailingPayload rest.length boxed.shape))

end Resumable
