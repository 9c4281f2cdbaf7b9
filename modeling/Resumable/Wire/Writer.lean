import Resumable.Bytes
import Resumable.Wire.Error

/-!
# Writing items

A `Writer` holds the bytes written so far and the scopes that are open. A container's length is
known only when its scope closes, so opening a scope leaves four zero bytes behind the tag and
closing it writes the length of everything behind them into that place.

Operations are values of `Write`, which keeps the writer also when it fails. `Write.step` lifts an
operation that succeeds as a whole or leaves the writer alone; every operation but
`Writer.variantBegin`, which opens a scope and then writes the name, is one such step.
-/

namespace Resumable.Wire

/-- An open scope: where its body starts, its kind, and the number of items in it. -/
structure OpenScope where
  start : Nat
  scope : Scope
  count : Nat
  deriving DecidableEq, Repr

/-- Bytes written so far and the open scopes, innermost first. -/
structure Writer where
  bytes : Bytes
  top : OpenScope
  below : List OpenScope
  deriving DecidableEq, Repr

/-- An operation on a writer; the writer is kept when the operation fails. -/
abbrev Write (α : Type) := ExceptT Error (StateM Writer) α

/-- Runs an operation: its answer, and the writer afterwards. -/
def Write.on {α : Type} (op : Write α) (w : Writer) : Except Error α × Writer := op w

/-- An operation that succeeds as a whole or leaves the writer alone. -/
def Write.step (f : Writer → Except Error Writer) : Write Unit := fun w =>
  match f w with
  | .ok w' => (.ok (), w')
  | .error e => (.error e, w)

/-- The greatest length that fits the four length bytes. -/
def maxLength : Nat := 4294967295

/-- The four bytes of a length. -/
def lengthBytes (n : Nat) : Bytes := Bytes.littleEndian 4 n

/-- Nanoseconds in a second. -/
def nanosPerSecond : Nat := 1000000000

/-- Nanoseconds that a signed span of so many seconds may carry: less than a second, of one sign. -/
def SpanNanosOk (secs nanos : Int) : Prop :=
  nanos.natAbs < nanosPerSecond ∧ ¬(0 < secs ∧ nanos < 0) ∧ ¬(secs < 0 ∧ 0 < nanos)

instance (secs nanos : Int) : Decidable (SpanNanosOk secs nanos) :=
  inferInstanceAs (Decidable (_ ∧ _ ∧ _))

namespace OpenScope

/-- One more item in the scope. -/
def counted (s : OpenScope) : OpenScope := { s with count := s.count + 1 }

/-- Whether an item with this tag may come next: maps take variants only, an option and a variant
take one item, the others take any. -/
def allow (s : OpenScope) (tag : Tag) : Except Error Unit :=
  match s.scope with
  | .root | .list => .ok ()
  | .map => if tag = .variant then .ok () else .error .invalidMapEntry
  | .option | .variant => if s.count = 0 then .ok () else .error (.tooManyItems s.scope)

end OpenScope

namespace Writer

/-- The writer with nothing written: the root is open. -/
def empty : Writer := ⟨[], ⟨0, .root, 0⟩, []⟩

/-- The open scopes, innermost first, the root last. -/
def stack (w : Writer) : List OpenScope := w.top :: w.below

/-- Appends the bytes of an item and counts it. -/
def append (w : Writer) (item : Bytes) : Writer :=
  { w with bytes := w.bytes ++ item, top := w.top.counted }

/-- Writes a tag and its data where the scope admits the tag. -/
def scalar (tag : Tag) (data : Bytes) : Write Unit :=
  Write.step fun w => do
    w.top.allow tag
    return w.append (tag.code :: data)

/-- Writes a tag, the length of the data, and the data. -/
def blob (tag : Tag) (data : Bytes) : Write Unit :=
  Write.step fun w => do
    if maxLength < data.length then throw (.blobTooLarge data.length)
    w.top.allow tag
    return w.append (tag.code :: lengthBytes data.length ++ data)

/-- Opens a scope: its tag, and room for the length. -/
def openScope (tag : Tag) (scope : Scope) : Write Unit :=
  Write.step fun w => do
    w.top.allow tag
    let bytes := w.bytes ++ tag.code :: lengthBytes 0
    return ⟨bytes, ⟨bytes.length, scope, 0⟩, w.stack⟩

/-- The bytes with the four in front of `start` replaced by the length of what is behind it. -/
def patched (bytes : Bytes) (start : Nat) : Bytes :=
  bytes.take (start - 4) ++ lengthBytes (bytes.length - start) ++ bytes.drop start

/-- Closes the innermost scope, which must be of the kind named and, if it holds one item, have it.
The finished container counts as one item of the scope around it. -/
def closeScope (expected : Scope) : Write Unit :=
  Write.step fun w =>
    match w.below with
    | [] => throw .scopeUnderflow
    | parent :: rest => do
      if w.top.scope ≠ expected then throw (.scopeMismatch expected w.top.scope)
      if (w.top.scope = .option ∨ w.top.scope = .variant) ∧ w.top.count = 0 then
        throw (.emptyScope w.top.scope)
      if maxLength < w.bytes.length - w.top.start then
        throw (.blobTooLarge (w.bytes.length - w.top.start))
      return ⟨patched w.bytes w.top.start, parent.counted, rest⟩

/-- Writes the null item. -/
def null : Write Unit := scalar .null []

/-- Writes a truth value, which is its tag alone. -/
def bool (b : Bool) : Write Unit := scalar (if b then .boolTrue else .boolFalse) []

/-- Writes an unsigned number. -/
def u64 (n : UInt64) : Write Unit := scalar .u64 (Bytes.littleEndian 8 n.toNat)

/-- Writes a signed number in two's complement. -/
def s64 (n : Int64) : Write Unit := scalar .s64 (Bytes.littleEndian 8 n.toUInt64.toNat)

/-- Writes the bits of a floating-point number. -/
def f64 (bits : UInt64) : Write Unit := scalar .f64 (Bytes.littleEndian 8 bits.toNat)

/-- Writes a point in time, as seconds and the nanoseconds to add to them. -/
def timestamp (secs : Int64) (nanos : UInt32) : Write Unit := do
  if nanosPerSecond ≤ nanos.toNat then throw (.invalidNanos nanos.toNat)
  scalar .timestamp (Bytes.littleEndian 8 secs.toUInt64.toNat ++ Bytes.littleEndian 4 nanos.toNat)

/-- Writes a signed span of time. -/
def duration (secs : Int64) (nanos : Int32) : Write Unit := do
  if ¬SpanNanosOk secs.toInt nanos.toInt then throw (.invalidNanos nanos.toInt)
  scalar .duration
    (Bytes.littleEndian 8 secs.toUInt64.toNat ++ Bytes.littleEndian 4 nanos.toUInt32.toNat)

/-- Writes the absent option. -/
def optionNone : Write Unit := scalar .optionNone []

/-- Writes a text. -/
def string (s : String) : Write Unit := blob .string (Bytes.ofText s)

/-- Writes a byte string. -/
def bytesItem (data : Bytes) : Write Unit := blob .bytes data

/-- Opens a list. -/
def listBegin : Write Unit := openScope .list .list

/-- Closes a list. -/
def listEnd : Write Unit := closeScope .list

/-- Opens a map. -/
def mapBegin : Write Unit := openScope .map .map

/-- Closes a map. -/
def mapEnd : Write Unit := closeScope .map

/-- Opens a present option. -/
def optionBegin : Write Unit := openScope .optionSome .option

/-- Closes a present option. -/
def optionEnd : Write Unit := closeScope .option

/-- Opens a variant and writes its name, which does not count as its item. -/
def variantBegin (name : String) : Write Unit := do
  openScope .variant .variant
  blob .string (Bytes.ofText name)
  modify fun w => { w with top := { w.top with count := 0 } }

/-- Closes a variant. -/
def variantEnd : Write Unit := closeScope .variant

/-- The bytes written, once only the root is open. -/
def finish (w : Writer) : Except Error Bytes :=
  if w.below.isEmpty then .ok w.bytes else .error .scopeStillOpen

end Writer

end Resumable.Wire
