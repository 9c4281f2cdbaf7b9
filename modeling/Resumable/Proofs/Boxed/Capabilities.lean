import Resumable.Boxed.Standard
import Resumable.Proofs.Boxed.Canonical

/-!
# Values by their capabilities

A value that is not boxed yet is boxed through the first capability that it has (`Forms.first?`):
null, a primitive value, a tree, a text, or a byte string, in this order. What that capability gives
is encoded, and decoding the boxed value gives it back; when it fails, boxing fails, and no later one
is tried in its place. A target with a kind of its own is handed what the capability gave through its
conversion of the same sort (`Forms.box_hands_over`).
-/

namespace Resumable

/-- What a value may have to be boxed through. -/
inductive Capability where
  | null
  | native
  | structured
  | text
  | binary
  deriving DecidableEq, Repr

/-- The capabilities in the order in which they are asked. -/
def Capability.order : List Capability := [null, native, structured, text, binary]

namespace Forms

/-- What a capability of a value gives, in decoded form; a capability that is absent has no answer. -/
def answer? (f : Forms) : Capability → Option (Except CodecError Value)
  | .null => if f.isNull then some (.ok .null) else none
  | .native => f.native.map .ok
  | .structured => f.structured.map (·.map .tree)
  | .text => f.text.map (·.map .string)
  | .binary => f.binary.map (·.map .bytes)

/-- The first capability that a value has. -/
def first? (f : Forms) : Option Capability := Capability.order.find? fun c => (f.answer? c).isSome

/-! ## The first capability -/

/-- A value is what its first capability gives; without any it has no decoded form. -/
theorem value_cases (f : Forms) :
    (f.first? = none ∧ f.value = .error (.unsupportedType f.typeName)) ∨
      ∃ c, f.first? = some c ∧ f.answer? c = some f.value := by
  obtain ⟨typeName, boxed, isNull, native, structured, text, binary⟩ := f
  -- each capability that is absent passes the question on to the next
  cases isNull with
  | true => exact .inr ⟨.null, rfl, rfl⟩
  | false =>
    cases native with
    | some v => exact .inr ⟨.native, rfl, rfl⟩
    | none =>
      cases structured with
      | some tree => exact .inr ⟨.structured, rfl, rfl⟩
      | none =>
        cases text with
        | some text => exact .inr ⟨.text, rfl, rfl⟩
        | none =>
          cases binary with
          | some data => exact .inr ⟨.binary, rfl, rfl⟩
          | none => exact .inl ⟨rfl, rfl⟩

theorem value_eq (f : Forms) :
    f.value = (f.first?.bind f.answer?).getD (.error (.unsupportedType f.typeName)) := by
  rcases f.value_cases with ⟨hnone, hvalue⟩ | ⟨c, hfirst, hanswer⟩
  · rw [hnone, hvalue]
    rfl
  · rw [hfirst, Option.bind_some, hanswer]
    rfl

/-- A form that gives a decoded value gave it in its own type. -/
theorem exists_of_map_eq_some_ok {α : Type} {form : Option (Except CodecError α)} {g : α → Value}
    {v : Value} (h : form.map (·.map g) = some (.ok v)) : ∃ a, form = some (.ok a) ∧ g a = v := by
  obtain ⟨given, rfl, hmap⟩ := Option.map_eq_some_iff.1 h
  cases given with
  | error e => cases hmap
  | ok a => exact ⟨a, rfl, Except.ok.inj hmap⟩

theorem box_of_not_boxed {f : Forms} (h : f.boxed = none) : f.box = f.value.bind Value.encode := by
  rw [box, h]
  rfl

end Forms

/-- A target with a kind of its own takes values through its conversions and in no other way. -/
theorem Boxed.unbox_named {α : Type} {t : Target α} {name : String} {boxed : Boxed} {v : Value}
    (hkind : t.kind = .named name) (hdecode : boxed.decode = .ok v) (hnull : v.isNull = false) :
    boxed.unbox t = (t.convert v).getD (.error (.typeMismatch v.shape t.kind)) := by
  have hnarrow : v.narrow (.named name) = .ok none := by cases v <;> rfl
  have hshape : Kind.nativeShape? (.named name) = none := rfl
  rw [Boxed.unbox, hdecode, ← Boxed.shape_of_decode hdecode]
  simp only [bind, Except.bind, hnull, Bool.false_eq_true, if_false, hkind, hshape, hnarrow]
  cases t.convert v <;> rfl

namespace Forms

/-- A value that is not boxed yet is boxed by encoding what its first capability gives, or fails as
that capability or the encoding fails; the boxed value is decoded to what the capability gave. A
target with a kind of its own converts the tree, the text or the byte string that was given, or is a
mismatch if it has no such conversion. -/
theorem box_hands_over (f : Forms) (hboxed : f.boxed = none) :
    (f.first? = none ∧ f.box = .error (.unsupportedType f.typeName)) ∨
    ∃ c answer, f.first? = some c ∧ f.answer? c = some answer ∧
      -- nothing but the answer of the first capability decides
      f.box = answer.bind Value.encode ∧
      ∀ boxed, f.box = .ok boxed →
        ∃ v, answer = .ok v ∧ boxed.decode = .ok v ∧
          ∀ {α : Type} (t : Target α) (name : String), t.kind = .named name →
            (c = .structured → ∃ tree, f.structured = some (.ok tree) ∧
              boxed.unbox t = (t.ofTree tree).getD (.error (.typeMismatch .tree t.kind))) ∧
            (c = .text → ∃ text, f.text = some (.ok text) ∧
              boxed.unbox t = (t.ofText text).getD (.error (.typeMismatch .string t.kind))) ∧
            (c = .binary → ∃ data, f.binary = some (.ok data) ∧
              boxed.unbox t = (t.ofBytes data).getD (.error (.typeMismatch .bytes t.kind))) := by
  rw [box_of_not_boxed hboxed]
  rcases f.value_cases with ⟨hnone, hvalue⟩ | ⟨c, hfirst, hanswer⟩
  · rw [hvalue]
    exact .inl ⟨hnone, rfl⟩
  · refine .inr ⟨c, f.value, hfirst, hanswer, rfl, fun boxed hbox => ?_⟩
    obtain ⟨v, hvalue, hencode⟩ := bind_eq_ok_iff.1 hbox
    rw [hvalue] at hanswer ⊢
    have hdecode := Value.decode_of_encode hencode
    refine ⟨v, rfl, hdecode, fun t name hkind => ⟨?_, ?_, ?_⟩⟩
    · rintro rfl
      obtain ⟨tree, htree, rfl⟩ := exists_of_map_eq_some_ok hanswer
      exact ⟨tree, htree, Boxed.unbox_named hkind hdecode rfl⟩
    · rintro rfl
      obtain ⟨text, htext, rfl⟩ := exists_of_map_eq_some_ok hanswer
      exact ⟨text, htext, Boxed.unbox_named hkind hdecode rfl⟩
    · rintro rfl
      obtain ⟨data, hdata, rfl⟩ := exists_of_map_eq_some_ok hanswer
      exact ⟨data, hdata, Boxed.unbox_named hkind hdecode rfl⟩

/-- A text is handed to the conversion from texts, although a byte string would have failed; a target
without that conversion does not take it. -/
theorem box_hands_over_of_text :
    let f : Forms := { text := some (.ok "a"), binary := some (.error .recursionLimitExceeded) }
    f.boxed = none ∧ ∃ boxed, f.box = .ok boxed ∧ boxed.decode = .ok (.string "a") ∧
      boxed.unbox (Target.ofTextReader "Name" Text.Reader.text) = .ok "a" ∧
      boxed.unbox Target.bytePair = .error (.typeMismatch .string (.named "Pair")) := by
  intro f
  refine ⟨rfl, ?_⟩
  rcases f.box_hands_over rfl with ⟨hnone, -⟩ | ⟨c, answer, hfirst, hanswer, hbox, hover⟩
  · cases hnone
  · obtain rfl : Capability.text = c := Option.some.inj hfirst
    obtain rfl : Except.ok (Value.string "a") = answer := Option.some.inj hanswer
    have hencode : (Value.string "a").encode = .ok ⟨.string, (Wire.Item.string "a").toBytes⟩ :=
      Value.encode_of_toItem? rfl (by decide)
    rw [hbox]
    refine ⟨_, hencode, ?_⟩
    obtain ⟨v, hv, hdecode, hunbox⟩ := hover _ (hbox.trans hencode)
    obtain rfl := Except.ok.inj hv
    obtain ⟨text, htext, hread⟩ :=
      (hunbox (Target.ofTextReader "Name" Text.Reader.text) "Name" rfl).2.1 rfl
    obtain ⟨text', -, hmismatch⟩ := (hunbox Target.bytePair "Pair" rfl).2.1 rfl
    cases htext
    exact ⟨hdecode, hread, hmismatch⟩

end Forms

end Resumable
