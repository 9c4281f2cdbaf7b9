import Resumable.Proofs.Frame.Leftovers
import Resumable.Proofs.Frame.RoundTrip

/-!
# Accepted bytes are prefix-free

What is accepted as a payload or as a frame is one item to its end, and of two items neither starts
the other one. So nothing can be cut off accepted bytes or put behind them. Only the payload of null
may be any bytes, as it is never looked at.
-/

namespace Resumable

open Wire

/-- Whether a decoder that accepts some bytes refuses whatever these start and whatever starts
these. -/
def PrefixFree {α : Type} (decode : Bytes → Except CodecError α) : Prop :=
  ∀ bs a, decode bs = .ok a → ∀ other, other ≠ bs → (other <+: bs ∨ bs <+: other) →
    ∃ e, decode other = .error e

/-- A decoder that accepts items alone is prefix-free. -/
theorem IgnoresLeftovers.prefixFree {α : Type} {p : Plan} {decode : Bytes → Except CodecError α}
    (h : IgnoresLeftovers p decode) : PrefixFree decode := by
  intro bs a hbs other hne hstart
  rw [exists_error_iff]
  rintro ⟨b, hother⟩
  obtain ⟨w, hw, rfl, -⟩ := h _ _ hbs
  obtain ⟨w', hw', rfl, -⟩ := h _ _ hother
  rcases hstart with hstart | hstart
  · exact hne (hw'.delimited.eq_of_prefix hw.delimited hstart)
  · exact hne (hw.delimited.eq_of_prefix hw'.delimited hstart).symm

namespace Frame

/-- Accepted payloads, of all shapes but that of null, and accepted frames are prefix-free. -/
theorem accepted_prefix_free :
    (∀ shape, shape ≠ .empty → PrefixFree fun payload => Boxed.decode ⟨shape, payload⟩) ∧
      PrefixFree Request.decode ∧ PrefixFree Response.decode := by
  refine ⟨?_, ignoresLeftovers_request.prefixFree, ignoresLeftovers_response.prefixFree⟩
  intro shape hempty
  exact (Boxed.ignoresLeftovers hempty).prefixFree

/-- A payload that is read leniently and the frames of a request and of a response, each without its
last byte and with one byte more. -/
theorem accepted_prefix_free_of_lenient :
    let payload := Boxed.lenientMap.payload
    let request : Request := { function := "f", directive := .input Boxed.lenientMap }
    let response : Response := .output Boxed.lenientMap
    (∃ e, Boxed.decode ⟨.tree, payload.dropLast⟩ = .error e) ∧
      (∃ e, Boxed.decode ⟨.tree, payload ++ [0]⟩ = .error e) ∧
      (∃ bs, request.encode = .ok bs ∧ (∃ e, Request.decode bs.dropLast = .error e) ∧
        ∃ e, Request.decode (bs ++ [0]) = .error e) ∧
      ∃ bs, response.encode = .ok bs ∧ (∃ e, Response.decode bs.dropLast = .error e) ∧
        ∃ e, Response.decode (bs ++ [0]) = .error e := by
  intro payload request response
  have hpayload : Boxed.lenientMap.decode =
      .ok (.tree (.ofFields [("a", .null), ("b", .int (.ofUInt64 7))])) := by rfl
  have hrequest : request.LengthsFit := by
    intro fields h
    obtain rfl := Except.ok.inj h
    decide +kernel
  have hresponse : response.LengthsFit := by
    intro fields h
    obtain rfl := Except.ok.inj h
    decide +kernel
  have hshorter : ∀ {bs : Bytes}, bs ≠ [] → bs.dropLast ≠ bs := by
    intro bs hne heq
    have hlength := congrArg List.length heq
    have hpos := List.length_pos_iff.2 hne
    rw [List.length_dropLast] at hlength
    omega
  have hlonger : ∀ bs : Bytes, bs ++ [0] ≠ bs := by simp
  obtain ⟨bs, hbs⟩ := (Request.exists_encode_iff hrequest).2 (by decide)
  obtain ⟨bs', hbs'⟩ := (Response.exists_encode_iff hresponse).2 (by decide)
  have hdecode := Request.decode_of_encode hbs
  have hdecode' := Response.decode_of_encode hbs'
  refine ⟨?_, ?_, ⟨bs, hbs, ?_, ?_⟩, ⟨bs', hbs', ?_, ?_⟩⟩
  · exact accepted_prefix_free.1 .tree nofun _ _ hpayload _ (hshorter (by decide))
      (.inl (List.dropLast_prefix _))
  · exact accepted_prefix_free.1 .tree nofun _ _ hpayload _ (hlonger _)
      (.inr (List.prefix_append _ _))
  · exact accepted_prefix_free.2.1 _ _ hdecode _ (hshorter (by rintro rfl; cases hdecode))
      (.inl (List.dropLast_prefix _))
  · exact accepted_prefix_free.2.1 _ _ hdecode _ (hlonger _) (.inr (List.prefix_append _ _))
  · exact accepted_prefix_free.2.2 _ _ hdecode' _ (hshorter (by rintro rfl; cases hdecode'))
      (.inl (List.dropLast_prefix _))
  · exact accepted_prefix_free.2.2 _ _ hdecode' _ (hlonger _) (.inr (List.prefix_append _ _))

end Frame

end Resumable
