import Resumable.Bytes

/-!
# Boxed values

A boxed value is a payload with the name of its shape. The shape alone says how the payload is read,
whatever type the value had before it was boxed.
-/

namespace Resumable

/-- The shapes of boxed values. -/
inductive Shape where
  /-- The absent value; it has no payload. -/
  | empty
  | bool
  /-- Any signed integer. -/
  | int
  /-- Any unsigned integer. -/
  | uint
  /-- Any floating-point number. -/
  | double
  | string
  | bytes
  | timestamp
  | duration
  /-- A structural tree. -/
  | tree
  deriving DecidableEq, Repr

namespace Shape

/-- Every shape, in the order of the codes. -/
def all : List Shape :=
  [empty, bool, int, uint, double, string, bytes, timestamp, duration, tree]

/-- The shape's name in messages. -/
def name : Shape → String
  | empty => "empty"
  | bool => "bool"
  | int => "int64"
  | uint => "uint64"
  | double => "double"
  | string => "string"
  | bytes => "bytes"
  | timestamp => "timestamp"
  | duration => "duration"
  | tree => "structure"

/-- The code by which frames name the shape. -/
def code : Shape → UInt64
  | empty => 0
  | bool => 1
  | int => 2
  | uint => 3
  | double => 4
  | string => 5
  | bytes => 6
  | timestamp => 7
  | duration => 8
  | tree => 9

/-- The shape of a code, if there is one. -/
def ofCode? (code : UInt64) : Option Shape := all.find? (·.code = code)

@[simp] theorem ofCode?_code (s : Shape) : ofCode? s.code = some s := by
  cases s <;> decide

end Shape

/-- A boxed value. The payload need not be well formed; decoding says so. -/
structure Boxed where
  shape : Shape
  payload : Bytes
  deriving DecidableEq, Repr

namespace Boxed

/-- The boxed null. -/
def null : Boxed := ⟨.empty, []⟩

instance : Inhabited Boxed := ⟨null⟩

end Boxed

end Resumable
