import Resumable.Proofs.Boxed.RoundTrip
import Resumable.Proofs.Number.Narrowing

/-!
# Unboxing into singles

A double is unboxed into a single if its number is not beyond the greatest one. Only the range is
checked: precision is given up, as far as the nearest single is off, and a double that is a single
is unboxed as just that (`Number.Double.unbox_single`).
-/

namespace Resumable

open Wire

namespace Number.Double

variable {d : Double} {boxed : Boxed}

/-- A double is boxed as its bits. -/
theorem box_double (d : Double) :
    ∃ boxed, (Forms.double d).box = .ok boxed ∧ boxed.decode = .ok (.double d) := by
  have hitem : (Value.double d).toItem? = .ok (some (.f64 d.bits)) := rfl
  have hwritable : (Item.f64 d.bits).Writable := Item.writable_of_fixed rfl trivial rfl
  exact ⟨_, Value.encode_of_toItem? hitem hwritable, Value.decode_of_toItem? hitem hwritable⟩

/-- Of a double, only the range is checked. -/
theorem unbox_of_double (hdecode : boxed.decode = .ok (.double d)) :
    boxed.unbox .single = if d.exceedsSingle then .error (.overflow .double d.text (.float 32))
      else .ok d.toSingle := by
  have hnarrow : (Value.double d).narrow (.float 32) =
      if d.exceedsSingle then .error (.overflow .double d.text (.float 32))
      else .ok (some (.double d)) := by
    simp [Value.narrow, Value.shape]
  rw [Boxed.unbox, hdecode]
  show ((Value.double d).narrow (.float 32) >>= fun narrowed =>
    (narrowed.bind Target.single.ofValue).elim
      (.error (.typeMismatch boxed.shape (.float 32))) .ok) = _
  rw [hnarrow]
  split
  · rfl
  · rfl

/-- A finite double is unboxed into a single unless it lies beyond the greatest one, which is an
overflow. It becomes the nearest finite single, of its own sign, and of two the even one; if it is
the number of a single, then it is widened back to just what it was. -/
theorem unbox_single (hd : d.isFinite = true) :
    ∃ boxed, (Forms.double d).box = .ok boxed ∧
      (boxed.unbox .single = .error (.overflow .double d.text (.float 32)) ↔
        Single.greatest.value < |d.value|) ∧
      (|d.value| ≤ Single.greatest.value → ∃ s : Single, boxed.unbox .single = .ok s ∧
        s.negative = d.negative ∧ s.IsNearest d.value ∧
          ((∃ t : Single, t.toDouble = d) → s.toDouble = d)) := by
  obtain ⟨boxed, hbox, hdecode⟩ := box_double d
  have hunbox := unbox_of_double hdecode
  refine ⟨boxed, hbox, ?_, fun hle => ?_⟩
  · rw [← exceedsSingle_iff hd, hunbox]
    split
    · rename_i hexceeds
      exact ⟨fun _ => hexceeds, fun _ => rfl⟩
    · rename_i hexceeds
      exact ⟨nofun, fun h => absurd h hexceeds⟩
  · have hexceeds : ¬d.exceedsSingle = true := mt (exceedsSingle_iff hd).1 (not_lt.2 hle)
    rw [if_neg hexceeds] at hunbox
    refine ⟨d.toSingle, hunbox, (narrowed hd hle).2.1, isNearest_toSingle hd hle, ?_⟩
    rintro ⟨t, rfl⟩
    rw [Single.toSingle_toDouble (Single.isFinite_of_toDouble hd)]

/-- One half is the number of a single, and comes back from it as it was. -/
theorem unbox_single_of_half :
    let half : Double := ⟨0x3fe0000000000000⟩
    half.isFinite = true ∧ |half.value| ≤ Single.greatest.value ∧
      (⟨0x3f000000⟩ : Single).toDouble = half ∧
      ∃ (boxed : Boxed) (s : Single), (Forms.double half).box = .ok boxed ∧
        boxed.unbox .single = .ok s ∧ s.IsNearest half.value ∧ s.toDouble = half := by
  intro half
  have hfinite : half.isFinite = true := by decide
  have hle : |half.value| ≤ Single.greatest.value :=
    not_lt.1 (mt (exceedsSingle_iff hfinite).2 (by decide))
  have hsingle : (⟨0x3f000000⟩ : Single).toDouble = half := by decide
  obtain ⟨boxed, hbox, -, hunbox⟩ := unbox_single hfinite
  obtain ⟨s, hs, -, hnearest, hback⟩ := hunbox hle
  exact ⟨hfinite, hle, hsingle, boxed, s, hbox, hs, hnearest, hback ⟨_, hsingle⟩⟩

/-- One tenth has more bits than a single, which is not the number that was boxed. -/
theorem tenth_loses_precision :
    let tenth : Double := ⟨0x3fb999999999999a⟩
    tenth.isFinite = true ∧
      ∃ (boxed : Boxed) (s : Single), (Forms.double tenth).box = .ok boxed ∧
        boxed.unbox .single = .ok s ∧ s.toDouble ≠ tenth := by
  intro tenth
  obtain ⟨boxed, hbox, hdecode⟩ := box_double tenth
  have hunbox := unbox_of_double hdecode
  rw [if_neg (by decide)] at hunbox
  exact ⟨by decide, boxed, tenth.toSingle, hbox, hunbox, by decide⟩

end Number.Double

end Resumable
