import Mathlib.Algebra.Group.Int.Defs
import Resumable.Proofs.Boxed.Wrappers

/-!
# What targets are asked about

Unboxing asks a target in three ways: what null becomes, what the target's own conversion makes of a
tree, a text or a byte string, and what a value of the target's kind becomes (`Boxed.unbox_of_decode`).
The last question is reached in two ways, and both lead to values of the kind alone, which
`Kind.Admits` describes: a value that is handed over as it is has a shape that only such values have
(`Kind.admits_of_nativeShape`), and every other value was narrowed
(`Kind.admits_of_narrow`). So what a target makes of any other value has no say in what is unboxed
(`Boxed.unbox_asks_of_kind`).
-/

namespace Resumable

/-! ## Values of a kind -/

/-- The values of a kind: those of its variant, of which a kind of integers has those in the range of
so many bits. Any kind has every value but null, and a kind of one's own has none. -/
def Kind.Admits : Kind → Value → Prop
  | .bool, .bool _ => True
  | .int bits, .int n => -2 ^ (bits - 1) ≤ n.toInt ∧ n.toInt < 2 ^ (bits - 1)
  | .uint bits, .uint n => n.toNat < 2 ^ bits
  | .float _, .double _ => True
  | .string, .string _ => True
  | .bytes, .bytes _ => True
  | .timestamp, .timestamp _ => True
  | .duration, .duration _ => True
  | .tree, .tree _ => True
  | .any, v => v.isNull = false
  | _, _ => False

theorem Value.fitsSigned_iff {n : Int64} {bits : Nat} :
    FitsSigned n bits ↔ -2 ^ (bits - 1) ≤ n.toInt ∧ n.toInt < 2 ^ (bits - 1) := by
  have hshift : ((1 <<< (bits - 1) : Nat) : Int) = 2 ^ (bits - 1) := by simp [Nat.one_shiftLeft]
  rw [FitsSigned, hshift, or_iff_right_of_imp]
  intro hbits
  -- from 64 bits on, the range holds every word
  have hle : (2 : Int) ^ 63 ≤ 2 ^ (bits - 1) := by
    exact_mod_cast Nat.pow_le_pow_right Nat.two_pos (show 63 ≤ bits - 1 by omega)
  have hlower := n.le_toInt
  have hupper := n.toInt_lt
  omega

theorem Value.fitsUnsigned_iff {n : UInt64} {bits : Nat} :
    FitsUnsigned n bits ↔ n.toNat < 2 ^ bits := by
  rw [FitsUnsigned, Nat.one_shiftLeft, or_iff_right_of_imp]
  intro hbits
  exact Nat.lt_of_lt_of_le n.toNat_lt (Nat.pow_le_pow_right Nat.two_pos hbits)

variable {kind : Kind} {v narrowed : Value}

/-- A value whose shape is exactly the kind is of the kind, which has 64 bits if it has a width. -/
theorem Kind.admits_of_nativeShape (h : kind.nativeShape? = some v.shape) : kind.Admits v := by
  unfold nativeShape? at h
  split at h
  all_goals cases v <;> cases h
  case h_2 n => exact Value.fitsSigned_iff.1 (.inl (Nat.le_refl 64))
  case h_3 n => exact Value.fitsUnsigned_iff.1 (.inl (Nat.le_refl 64))
  all_goals trivial

/-- What a value is narrowed to is the value itself, which is then of the kind. -/
theorem Kind.admits_of_narrow (hnull : v.isNull = false) (h : v.narrow kind = .ok (some narrowed)) :
    narrowed = v ∧ kind.Admits v := by
  unfold Value.narrow at h
  split at h
  all_goals try split at h
  all_goals cases h
  case h_1.refl => exact ⟨rfl, hnull⟩
  case h_3.isTrue.refl hfits => exact ⟨rfl, Value.fitsSigned_iff.1 hfits⟩
  case h_4.isTrue.refl hfits => exact ⟨rfl, Value.fitsUnsigned_iff.1 hfits⟩
  all_goals exact ⟨rfl, trivial⟩

/-! ## Questions to a target -/

namespace Boxed

variable {α : Type} {t : Target α} {boxed : Boxed}

/-- A payload that is malformed is reported before anything is asked. -/
theorem unbox_of_decode_eq_error {e : CodecError} (hdecode : boxed.decode = .error e) :
    boxed.unbox t = .error e := by
  rw [unbox, hdecode]
  rfl

/-- What a decoded value is unboxed to, by the one question that the target is asked about it. -/
theorem unbox_of_decode (hdecode : boxed.decode = .ok v) :
    let orMismatch (answer : Option α) : Except CodecError α :=
      answer.elim (.error (.typeMismatch boxed.shape t.kind)) .ok
    boxed.unbox t =
      if v.isNull then orMismatch t.ofNull
      else if t.kind.nativeShape? = some boxed.shape then orMismatch (t.ofValue v)
      else (t.convert v).getD
        ((v.narrow t.kind).bind fun narrowed => orMismatch (narrowed.bind t.ofValue)) := by
  intro orMismatch
  rw [unbox, hdecode]
  simp only [bind, Except.bind]
  cases t.convert v <;> rfl

/-- Targets of one kind unbox alike if they answer alike what they are asked: of null what it becomes,
of a value whose shape is not that of the kind what their conversion makes of it, and of a value of the
kind what it becomes. -/
theorem unbox_congr {t' : Target α} (hkind : t'.kind = t.kind)
    (hnull : boxed.shape = .empty → t'.ofNull = t.ofNull)
    (hconvert : t.kind.nativeShape? ≠ some boxed.shape → t'.convert = t.convert)
    (hvalue : ∀ v, boxed.decode = .ok v → t.kind.Admits v → t'.ofValue v = t.ofValue v) :
    boxed.unbox t' = boxed.unbox t := by
  cases hdecode : boxed.decode with
  | error e => rw [unbox_of_decode_eq_error hdecode, unbox_of_decode_eq_error hdecode]
  | ok v =>
    have hshape := shape_of_decode hdecode
    rw [unbox_of_decode hdecode, unbox_of_decode hdecode, hkind]
    cases hv : v.isNull with
    | true =>
      rw [hnull (hshape.trans (Value.isNull_iff.1 hv))]
      rfl
    | false =>
      simp only [Bool.false_eq_true, if_false]
      split
      · rename_i hnative
        rw [hvalue v hdecode (Kind.admits_of_nativeShape (hshape ▸ hnative))]
      · rename_i hnative
        rw [hconvert hnative]
        congr 1
        cases hnarrow : v.narrow t.kind with
        | error e => rfl
        | ok answer =>
          cases answer with
          | none => rfl
          | some narrowed =>
            -- what is asked about is the decoded value, which narrowing found to be of the kind
            obtain ⟨rfl, hadmits⟩ := Kind.admits_of_narrow hv hnarrow
            simp only [Except.bind, Option.bind_some, hvalue narrowed hdecode hadmits]

/-- Where the shape is not that of the kind, the answer of a conversion stands, be it an error or not. -/
theorem unbox_of_convert (hnative : t.kind.nativeShape? ≠ some boxed.shape)
    (hdecode : boxed.decode = .ok v) {answer : Except CodecError α}
    (h : t.convert v = some answer) : boxed.unbox t = answer := by
  have hnull : v.isNull ≠ true := by
    cases v with
    | null => cases h
    | _ => exact Bool.false_ne_true
  rw [unbox_of_decode hdecode, if_neg hnull, if_neg hnative, h]
  rfl

/-- What a target makes of values matters at the values of its kind alone: any other function that
agrees there unboxes alike. What null becomes matters for null alone. Where the shape is that of the
kind, the conversions of the target are not asked; where it is not, their answers stand, and an error
is never made up for by narrowing. -/
theorem unbox_asks_of_kind (t : Target α) (boxed : Boxed) :
    (∀ ofValue, (∀ v, boxed.decode = .ok v → t.kind.Admits v → ofValue v = t.ofValue v) →
      boxed.unbox { t with ofValue } = boxed.unbox t) ∧
    (boxed.shape ≠ .empty → ∀ ofNull, boxed.unbox { t with ofNull } = boxed.unbox t) ∧
    (t.kind.nativeShape? = some boxed.shape → ∀ ofTree ofText ofBytes,
      boxed.unbox { t with ofTree, ofText, ofBytes } = boxed.unbox t) ∧
    (t.kind.nativeShape? ≠ some boxed.shape → ∀ v answer, boxed.decode = .ok v →
      t.convert v = some answer → boxed.unbox t = answer) := by
  refine ⟨fun ofValue h => ?_, fun hshape ofNull => ?_, fun hnative ofTree ofText ofBytes => ?_,
    fun hnative v answer hdecode h => unbox_of_convert hnative hdecode h⟩
  · exact unbox_congr rfl (fun _ => rfl) (fun _ => funext fun v => by cases v <;> rfl) h
  · exact unbox_congr rfl (fun h => absurd h hshape) (fun _ => funext fun v => by cases v <;> rfl)
      fun _ _ _ => rfl
  · exact unbox_congr rfl (fun _ => rfl) (fun h => absurd hnative h) fun _ _ _ => rfl

/-- A target for integers of 8 bits takes every other value for zero and refuses texts. A stricter one,
which takes only what is in range, unboxes alike, because nothing else is ever asked about. -/
theorem unbox_asks_of_kind_of_byte :
    let t : Target Int := {
      kind := .int 8
      ofValue
        | .int n => some n.toInt
        | _ => some 0
      ofText := fun text => some (.error (.marshal (.refused text))) }
    let strict : Value → Option Int
      | .int n => if -128 ≤ n.toInt ∧ n.toInt < 128 then some n.toInt else none
      | _ => none
    let five : Boxed := ⟨.int, (Wire.Item.s64 5).toBytes⟩
    let text : Boxed := ⟨.string, (Wire.Item.string "a").toBytes⟩
    (∀ v, t.kind.Admits v → strict v = t.ofValue v) ∧
      five.unbox { t with ofValue := strict } = .ok 5 ∧
      five.shape ≠ .empty ∧ five.unbox { t with ofNull := some 7 } = .ok 5 ∧
      t.kind.nativeShape? ≠ some text.shape ∧
      text.unbox t = .error (.marshal (.refused "a")) := by
  intro t strict five text
  have hagree : ∀ v, t.kind.Admits v → strict v = t.ofValue v := by
    intro v hadmits
    cases v with
    | int n => exact if_pos hadmits
    | _ => cases hadmits
  have hshape : five.shape ≠ .empty := nofun
  have hnative : t.kind.nativeShape? ≠ some text.shape := nofun
  have htext : text.decode = .ok (.string "a") :=
    Value.decode_of_toItem? (v := .string "a") rfl (by decide)
  have hdecode : five.decode = .ok (.int 5) :=
    Value.decode_of_toItem? (v := .int 5) rfl (by decide)
  have hfive : five.unbox t = .ok 5 := by
    rw [unbox_of_decode hdecode]
    rfl
  obtain ⟨hvalue, hnull, -, -⟩ := unbox_asks_of_kind t five
  obtain ⟨-, -, -, hconvert⟩ := unbox_asks_of_kind t text
  refine ⟨hagree, ?_, hshape, ?_, hnative, hconvert hnative _ _ htext rfl⟩
  · exact (hvalue strict fun v _ => hagree v).trans hfive
  · exact (hnull hshape (some 7)).trans hfive

end Boxed

end Resumable
