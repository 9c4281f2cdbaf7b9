import Resumable.Bytes
import Resumable.Wire.Tag

/-!
# Wire errors

What can go wrong while items are written or read. Each cause is a constructor; `Error.message` is
the one place that words them.
-/

namespace Resumable.Wire

/-- The kinds of scope a writer can be in. -/
inductive Scope where
  /-- The outermost scope; any number of items. -/
  | root
  /-- An ordered sequence; any number of items. -/
  | list
  /-- Named entries; variants only. -/
  | map
  /-- Exactly one item. -/
  | option
  /-- Exactly one item behind the name. -/
  | variant
  deriving DecidableEq, Repr

/-- Every kind of scope. -/
def Scope.all : List Scope := [root, list, map, option, variant]

/-- The scope's name in messages. -/
def Scope.name : Scope → String
  | root => "Root"
  | list => "List"
  | map => "Map"
  | option => "Option"
  | variant => "Variant"

/-- Causes for which a write or a read is refused. -/
inductive Error where
  /-- The byte is no tag. -/
  | invalidTag (byte : UInt8)
  /-- A tag, but not the one asked for. -/
  | unexpectedTag (expected found : Tag)
  /-- The bytes of a string are not UTF-8. -/
  | invalidUtf8
  /-- Nanoseconds of a second or more, or against the sign of the seconds. -/
  | invalidNanos (nanos : Int)
  /-- The innermost open scope is of another kind. -/
  | scopeMismatch (expected actual : Scope)
  /-- Only the root is open. -/
  | scopeUnderflow
  /-- The bytes were asked for while a scope was open. -/
  | scopeStillOpen
  /-- The input ends within an item. -/
  | unexpectedEnd
  /-- The length does not fit its four bytes. -/
  | blobTooLarge (size : Nat)
  /-- A second item in a scope that holds one. -/
  | tooManyItems (scope : Scope)
  /-- A scope that holds one item was closed without it. -/
  | emptyScope (scope : Scope)
  /-- Something other than a variant directly in a map. -/
  | invalidMapEntry
  deriving DecidableEq, Repr

/-- The name of each cause. -/
def Error.name : Error → String
  | invalidTag _ => "InvalidTag"
  | unexpectedTag _ _ => "UnexpectedTag"
  | invalidUtf8 => "InvalidUtf8"
  | invalidNanos _ => "InvalidNanos"
  | scopeMismatch _ _ => "ScopeMismatch"
  | scopeUnderflow => "ScopeUnderflow"
  | scopeStillOpen => "ScopeStillOpen"
  | unexpectedEnd => "UnexpectedEnd"
  | blobTooLarge _ => "BlobTooLarge"
  | tooManyItems _ => "TooManyItems"
  | emptyScope _ => "EmptyAdt"
  | invalidMapEntry => "InvalidMapEntry"

/-- The wording of each cause. -/
def Error.message : Error → String
  | invalidTag byte => "invalid tag byte 0x" ++ Bytes.hex [byte]
  | unexpectedTag expected found => s!"expected {expected.name}, found {found.name}"
  | invalidUtf8 => "string is not valid utf-8"
  | invalidNanos nanos => s!"nanoseconds out of range: {nanos}"
  | scopeMismatch expected actual =>
    s!"scope mismatch: expected {expected.name}, found {actual.name}"
  | scopeUnderflow => "no open scope to close"
  | scopeStillOpen => "buffer finalized with an open scope"
  | unexpectedEnd => "unexpected end of buffer"
  | blobTooLarge size => s!"blob of {size} bytes exceeds u32 length"
  | tooManyItems scope => s!"too many items in {scope.name} scope; expected exactly 1"
  | emptyScope scope => s!"empty {scope.name} scope; expected exactly 1 item"
  | invalidMapEntry => "map entries must be variants"

end Resumable.Wire
