import Resumable.Boxed.Forms
import Resumable.Boxed.Target
import Resumable.Number.Integer
import Resumable.Text.Reader
import Resumable.Tree.Reader

/-!
# Standard types

Forms and targets of the common types: integers of every width, floating-point numbers, texts, byte
strings, times, trees, the untyped value, and the adapters through which a type of one's own is boxed
as a tree or as a text.
-/

namespace Resumable

open Number

namespace Forms

/-- A primitive value. -/
def ofValue (v : Value) : Forms where
  native := some v

/-- An integer of a fixed-width type, widened to 64 bits of its signedness. -/
def integer (t : IntegerType) (n : t.Num) : Forms :=
  ofValue (if t.signed then .int (Int64.ofInt n.val) else .uint (UInt64.ofNat n.val.toNat))

/-- A truth value. -/
def bool (b : Bool) : Forms := ofValue (.bool b)

/-- A double. -/
def double (d : Double) : Forms := ofValue (.double d)

/-- A single, widened exactly. -/
def single (s : Single) : Forms := ofValue (.double s.toDouble)

/-- A text. -/
def string (s : String) : Forms := ofValue (.string s)

/-- A byte string. -/
def bytes (data : Bytes) : Forms := ofValue (.bytes data)

/-- A point in time. -/
def timestamp (t : Instant) : Forms := ofValue (.timestamp t)

/-- A span of time. -/
def duration (d : Span) : Forms := ofValue (.duration d)

/-- A tree. -/
def tree (t : Tree) : Forms := ofValue (.tree t)

/-- The value of the unit type, which is absent. -/
def unit : Forms where
  isNull := true

/-- A decoded value; null is the absent value. -/
def untyped (v : Value) : Forms where
  isNull := v.isNull
  native := some v

/-- A boxed value, which passes through. -/
def ofBoxed (boxed : Boxed) : Forms where
  boxed := some boxed

/-- A value that is boxed as a tree. -/
def ofTree (tree : Except CodecError Tree) : Forms where
  structured := some tree

/-- A natural number boxed as a tree, which it has only up to 64 bits. -/
def natural (n : Nat) : Forms :=
  ofTree (match Tree.ofInt? n with
    | some tree => .ok tree
    | none => .error (.marshal (.refused "number out of range")))

/-- A value that is boxed as its text. -/
def ofText (text : String) : Forms where
  text := some (.ok text)

/-- A value that is boxed as bytes of its own. -/
def ofBinary (data : Bytes) : Forms where
  binary := some (.ok data)

end Forms

namespace Target

/-- An integer of a fixed-width type. -/
def integer (t : IntegerType) : Target t.Num where
  kind := if t.signed then .int t.bits else .uint t.bits
  ofValue
    | .int n => if t.signed then t.num? n.toInt else none
    | .uint n => if t.signed then none else t.num? n.toNat
    | _ => none

/-- A truth value. -/
def bool : Target Bool where
  kind := .bool
  ofValue
    | .bool b => some b
    | _ => none

/-- A double. -/
def double : Target Double where
  kind := .float 64
  ofValue
    | .double d => some d
    | _ => none

/-- A single: the nearest one, narrowing having checked the range. -/
def single : Target Single where
  kind := .float 32
  ofValue
    | .double d => some d.toSingle
    | _ => none

/-- A text. -/
def string : Target String where
  kind := .string
  ofValue
    | .string s => some s
    | _ => none

/-- A byte string. -/
def bytes : Target Bytes where
  kind := .bytes
  ofValue
    | .bytes data => some data
    | _ => none

/-- A point in time. -/
def timestamp : Target Instant where
  kind := .timestamp
  ofValue
    | .timestamp t => some t
    | _ => none

/-- A span of time. -/
def duration : Target Span where
  kind := .duration
  ofValue
    | .duration d => some d
    | _ => none

/-- A tree; null is the null tree. -/
def tree : Target Tree where
  kind := .tree
  ofValue
    | .tree t => some t
    | _ => none
  ofNull := some .null

/-- The unit type, which is null and nothing else. -/
def unit : Target Unit where
  kind := .named "()"
  ofValue _ := none
  ofNull := some ()

/-- The untyped value, which takes everything. -/
def untyped : Target Value where
  kind := .any
  ofValue := some
  ofNull := some .null

/-- A type that is read off trees. -/
def ofTreeReader {α : Type} (typeName : String) (reader : Tree.Reader α) : Target α where
  kind := .named typeName
  ofValue _ := none
  ofTree tree := some <|
    match reader tree with
    | some a => .ok a
    | none => .error (.marshal (.refused "invalid structure"))

/-- A type that is read off its text. -/
def ofTextReader {α : Type} (typeName : String) (reader : Text.Reader α) : Target α where
  kind := .named typeName
  ofValue _ := none
  ofText text := some ((reader text).mapError fun reason => .marshal (.refused reason))

/-- A pair of bytes, which has a binary form alone. -/
def bytePair : Target (UInt8 × UInt8) where
  kind := .named "Pair"
  ofValue _ := none
  ofBytes
    | [a, b] => some (.ok (a, b))
    | data => some (.error (.marshal (.refused s!"pair needs 2 bytes, got {data.length}")))

end Target

end Resumable
