/-!
# Wire tags

Every item on the wire opens with one tag byte. The tag says whether the item is a scalar of fixed
width or carries a four-byte length and that many bytes; `Tag.width?` is the whole of that rule.
-/

namespace Resumable.Wire

/-- The shapes an item on the wire can have. -/
inductive Tag where
  | null
  | boolTrue
  | boolFalse
  | u64
  | s64
  | f64
  /-- Seconds (signed, eight bytes) and nanoseconds (four bytes) since the epoch. -/
  | timestamp
  /-- Seconds (signed, eight bytes) and nanoseconds (signed, four bytes) of one sign. -/
  | duration
  | optionNone
  | string
  | bytes
  | list
  | map
  | optionSome
  | variant
  deriving DecidableEq, Repr

namespace Tag

/-- The tag byte. -/
def code : Tag → UInt8
  | null => 0x00
  | boolTrue => 0x01
  | boolFalse => 0x02
  | u64 => 0x03
  | s64 => 0x04
  | f64 => 0x05
  | timestamp => 0x06
  | duration => 0x07
  | optionNone => 0x08
  | string => 0x10
  | bytes => 0x11
  | list => 0x20
  | map => 0x21
  | optionSome => 0x30
  | variant => 0x31

/-- Every tag, in the order of the tag bytes. -/
def all : List Tag :=
  [null, boolTrue, boolFalse, u64, s64, f64, timestamp, duration, optionNone, string, bytes, list,
    map, optionSome, variant]

/-- The tag of a tag byte, if it is one. -/
def ofCode? (b : UInt8) : Option Tag := all.find? (·.code = b)

/-- The tag's name in messages. -/
def name : Tag → String
  | null => "Null"
  | boolTrue => "BoolTrue"
  | boolFalse => "BoolFalse"
  | u64 => "U64"
  | s64 => "S64"
  | f64 => "F64"
  | timestamp => "Timestamp"
  | duration => "Duration"
  | optionNone => "OptionNone"
  | string => "String"
  | bytes => "Bytes"
  | list => "List"
  | map => "Map"
  | optionSome => "OptionSome"
  | variant => "Variant"

/-- The number of data bytes behind a scalar's tag; `none` for items that carry their length. -/
def width? : Tag → Option Nat
  | null | boolTrue | boolFalse | optionNone => some 0
  | u64 | s64 | f64 => some 8
  | timestamp | duration => some 12
  | string | bytes | list | map | optionSome | variant => none

@[simp] theorem ofCode?_code (t : Tag) : ofCode? t.code = some t := by
  cases t <;> decide

theorem code_of_ofCode? {b : UInt8} {t : Tag} (h : ofCode? b = some t) : t.code = b := by
  simpa using List.find?_some h

end Tag

end Resumable.Wire
