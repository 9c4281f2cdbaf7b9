import Resumable.Boxed.Codec

/-!
# Boxing

A value to be boxed offers forms. They are asked in a fixed order, and the first one offered decides:
a boxed value passes through, null boxes as null, then come the primitive, the structural, the textual
and the binary form. A form that fails fails the boxing; no later form is tried in its place.
-/

namespace Resumable

/-- The forms a value offers for boxing; a value normally offers one. -/
structure Forms where
  /-- The name of the value's type, for the message that it offers no form. -/
  typeName : String := "value"
  /-- An already boxed value. -/
  boxed : Option Boxed := none
  /-- Whether it is the absent value. -/
  isNull : Bool := false
  /-- A primitive value. -/
  native : Option Value := none
  /-- A structural tree of the value. -/
  structured : Option (Except CodecError Tree) := none
  /-- A textual form of the value. -/
  text : Option (Except CodecError String) := none
  /-- A binary form of the value. -/
  binary : Option (Except CodecError Bytes) := none

namespace Forms

/-- The decoded form that the value boxes as, unless it is already boxed. -/
def value (f : Forms) : Except CodecError Value :=
  if f.isNull then .ok .null
  else match f.native with
  | some v => .ok v
  | none =>
    match f.structured with
    | some tree => tree.map .tree
    | none =>
      match f.text with
      | some text => text.map .string
      | none =>
        match f.binary with
        | some data => data.map .bytes
        | none => .error (.unsupportedType f.typeName)

/-- Boxes a value. -/
def box (f : Forms) : Except CodecError Boxed :=
  match f.boxed with
  | some boxed => .ok boxed
  | none => do (← f.value).encode

/-- The forms of an optional value: an absent one is null, a present one offers what its value
offers. -/
def optional (typeName : String) (f : Option Forms) : Forms where
  typeName := typeName
  boxed := f.bind (·.boxed)
  isNull := f.all (·.isNull)
  native := f.bind (·.native)
  structured := f.bind (·.structured)
  text := f.bind (·.text)
  binary := f.bind (·.binary)

/-- The forms of a reference to a value: those of the value. -/
def reference (typeName : String) (f : Forms) : Forms where
  typeName := typeName
  boxed := f.boxed
  isNull := f.isNull
  native := f.native
  structured := f.structured
  text := f.text
  binary := f.binary

end Forms

end Resumable
