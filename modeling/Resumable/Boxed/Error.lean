import Resumable.Boxed.Shape
import Resumable.Number.Double
import Resumable.Time
import Resumable.Wire.Error

/-!
# Codec errors

What can go wrong while values are boxed and unboxed and while records are framed. The causes are
constructors, down to the detail that a message shows; `CodecError.message` words them.
-/

namespace Resumable

open Number

/-- What a boxed value is to be unboxed into. Numbers carry their width in bits, so that narrowing
can be checked. -/
inductive Kind where
  | bool
  | int (bits : Nat)
  | uint (bits : Nat)
  | float (bits : Nat)
  | string
  | bytes
  | timestamp
  | duration
  | tree
  /-- Whatever the payload holds. -/
  | any
  /-- A type that only its own conversion can make, by its name. -/
  | named (name : String)
  deriving DecidableEq, Repr

namespace Kind

/-- The kind's name in messages. -/
def name : Kind → String
  | bool => "bool"
  | int bits => s!"i{bits}"
  | uint bits => s!"u{bits}"
  | float bits => s!"f{bits}"
  | string => "string"
  | bytes => "bytes"
  | timestamp => "timestamp"
  | duration => "duration"
  | tree => "structure"
  | any => "any"
  | named name => name

/-- The kind of a name, if it is no type of one's own: a plain kind, or a number with its width. -/
def named? (name : String) : Option Kind :=
  let width := ((name.drop 1).toNat?).getD 0
  [bool, string, bytes, timestamp, duration, tree, any, int width, uint width,
    float width].find? (·.name = name)

/-- The shape whose decoded values are exactly of this kind, if there is one. -/
def nativeShape? : Kind → Option Shape
  | bool => some .bool
  | int 64 => some .int
  | uint 64 => some .uint
  | float 64 => some .double
  | string => some .string
  | bytes => some .bytes
  | timestamp => some .timestamp
  | duration => some .duration
  | tree => some .tree
  | int _ | uint _ | float _ | any | named _ => none

end Kind

/-- Why a value could not be turned into the form it is boxed in, or back. -/
inductive MarshalCause where
  /-- More seconds than a signed word holds. -/
  | spanOutOfRange (span : Span)
  /-- No seconds and nanoseconds stand for the instant. -/
  | instantOutOfRange (instant : Instant)
  /-- A number in a tree that is infinite or none at all. -/
  | notFinite (number : Double)
  /-- The value's own conversion failed, for the reason it gives. -/
  | refused (reason : String)
  deriving DecidableEq, Repr

/-- The wording of each cause. -/
def MarshalCause.message : MarshalCause → String
  | spanOutOfRange span => "duration " ++ span.text ++ " out of range"
  | instantOutOfRange instant => "timestamp " ++ instant.text ++ " out of range"
  | notFinite number => "non-finite number " ++ number.text ++ " in structure"
  | refused reason => reason

/-- Ways in which bytes break the rules of payloads and frames. -/
inductive Violation where
  /-- Bytes behind a payload's one item. -/
  | trailingPayload (count : Nat) (shape : Shape)
  /-- Bytes behind a frame. -/
  | trailingFrame (count : Nat)
  /-- An item that no tree holds. -/
  | notInTree (tag : Wire.Tag)
  /-- A required field that is not there. -/
  | missing (field : String)
  /-- A count beyond 32 bits. -/
  | countOutOfRange (field : String) (count : Nat)
  /-- A span with a sign where none is allowed. -/
  | negativeSpan (secs nanos : Int)
  /-- A violation told in words. -/
  | told (text : String)
  deriving DecidableEq, Repr

/-- The wording of each violation. -/
def Violation.message : Violation → String
  | trailingPayload count shape => s!"{count} trailing bytes after {shape.name} payload"
  | trailingFrame count => s!"{count} trailing bytes after frame"
  | notInTree tag => s!"{tag.name} cannot appear inside a structure"
  | missing field => s!"missing {field}"
  | countOutOfRange field count => s!"{field} {count} out of range"
  | negativeSpan secs nanos => s!"negative duration {secs}s{nanos}ns"
  | told text => text

/-- Names and codes that stand for nothing known. -/
inductive UnknownName where
  | shapeCode (code : Nat)
  | frame (expected found : String)
  /-- A name told in words. -/
  | told (text : String)
  deriving DecidableEq, Repr

/-- The wording of each unknown name. -/
def UnknownName.message : UnknownName → String
  | shapeCode code => s!"tag code {code}"
  | frame expected found => s!"expected {expected} frame, found {found}"
  | told text => text

/-- Causes for which boxing, unboxing or framing is refused. -/
inductive CodecError where
  /-- The bytes could not be read or written. -/
  | wire (error : Wire.Error)
  /-- The value offers no form. -/
  | unsupportedType (typeName : String)
  /-- Values of this shape never become the target. -/
  | typeMismatch (shape : Shape) (target : Kind)
  /-- The value, given in words, does not fit the target. -/
  | overflow (shape : Shape) (value : String) (target : Kind)
  | marshal (cause : MarshalCause)
  | protocolViolation (violation : Violation)
  | unknownVariant (name : UnknownName)
  /-- A tree nested too deeply. -/
  | recursionLimitExceeded
  deriving DecidableEq, Repr

/-- The name of each cause. -/
def CodecError.name : CodecError → String
  | wire _ => "Wire"
  | unsupportedType _ => "UnsupportedType"
  | typeMismatch _ _ => "TypeMismatch"
  | overflow _ _ _ => "Overflow"
  | marshal _ => "Marshal"
  | protocolViolation _ => "ProtocolViolation"
  | unknownVariant _ => "UnknownVariant"
  | recursionLimitExceeded => "RecursionLimitExceeded"

/-- The wording of each cause. -/
def CodecError.message : CodecError → String
  | wire error => "wire error: " ++ error.message
  | unsupportedType typeName => s!"cannot box value of type {typeName}: unsupported type"
  | typeMismatch shape target => s!"cannot unbox {shape.name} into {target.name}: type mismatch"
  | overflow shape value target =>
    s!"cannot unbox {shape.name} of {value} into {target.name}: overflow"
  | marshal cause => "marshal error: " ++ cause.message
  | protocolViolation violation => "protocol violation: " ++ violation.message
  | unknownVariant name => "unknown variant: " ++ name.message
  | recursionLimitExceeded => "structural value nested too deeply"

/-- A wire answer as an answer of the codec. -/
def CodecError.ofWire {α : Type} (answer : Except Wire.Error α) : Except CodecError α :=
  answer.mapError .wire

/-- A read off the front of some bytes: the value and the bytes behind it. -/
def CodecError.reading {α : Type} (read : Bytes → Except Wire.Error α × Bytes) (bs : Bytes) :
    Except CodecError (α × Bytes) :=
  match read bs with
  | (.ok a, rest) => .ok (a, rest)
  | (.error e, _) => .error (.wire e)

/-- Stops at the failure that ended a body, if one did. -/
def CodecError.unlessFailed {α : Type} (failure : Option Wire.Error) (a : α) :
    Except CodecError α :=
  match failure with
  | some e => .error (.wire e)
  | none => .ok a

end Resumable
