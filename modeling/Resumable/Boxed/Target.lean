import Resumable.Boxed.Codec

/-!
# Unboxing

A target describes the type wanted: its kind, how it is made of a value of that kind, what it makes
of null, and its own conversions from trees, texts and byte strings. `Boxed.unbox` decodes first, so
that a malformed payload is reported whatever the target. A value whose shape is exactly the kind is
handed over; a tree, text or byte string goes to the target's own conversion if it has one, whose
answer stands; everything else is narrowed to the kind.
-/

namespace Resumable

/-- A type to unbox into. -/
structure Target (α : Type) where
  kind : Kind
  /-- Makes the type of a value narrowed to `kind`. -/
  ofValue : Value → Option α
  /-- What null becomes, if it becomes anything. -/
  ofNull : Option α := none
  /-- The conversion from a tree; no answer means that there is no such conversion. -/
  ofTree : Tree → Option (Except CodecError α) := fun _ => none
  /-- The conversion from a text. -/
  ofText : String → Option (Except CodecError α) := fun _ => none
  /-- The conversion from a byte string. -/
  ofBytes : Bytes → Option (Except CodecError α) := fun _ => none

namespace Target

variable {α β : Type}

/-- The target's own conversion of a value, if the value is a tree, a text or a byte string and there
is one. -/
def convert (t : Target α) : Value → Option (Except CodecError α)
  | .tree tree => t.ofTree tree
  | .string text => t.ofText text
  | .bytes data => t.ofBytes data
  | _ => none

/-- A target whose results are mapped. -/
def map (f : α → β) (t : Target α) : Target β where
  kind := t.kind
  ofValue v := (t.ofValue v).map f
  ofNull := t.ofNull.map f
  ofTree tree := (t.ofTree tree).map (·.map f)
  ofText text := (t.ofText text).map (·.map f)
  ofBytes data := (t.ofBytes data).map (·.map f)

/-- An optional type: null is its absent value, and it takes whatever the type takes. -/
def optional (t : Target α) : Target (Option α) where
  kind := t.kind
  ofValue v := (t.ofValue v).map some
  ofNull := some none
  ofTree tree := (t.ofTree tree).map (·.map some)
  ofText text := (t.ofText text).map (·.map some)
  ofBytes data := (t.ofBytes data).map (·.map some)

end Target

/-- Unboxes a value into a type. -/
def Boxed.unbox {α : Type} (boxed : Boxed) (target : Target α) : Except CodecError α := do
  let orMismatch : Option α → Except CodecError α := fun answer =>
    answer.elim (.error (.typeMismatch boxed.shape target.kind)) .ok
  let value ← boxed.decode
  if value.isNull then orMismatch target.ofNull
  else if target.kind.nativeShape? = some boxed.shape then orMismatch (target.ofValue value)
  else match target.convert value with
  | some answer => answer
  | none => orMismatch ((← value.narrow target.kind).bind target.ofValue)

end Resumable
