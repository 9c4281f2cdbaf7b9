import Resumable.Boxed.Standard
import Resumable.Host.Function
import Resumable.Proofs.Failure.Classify

/-!
# Contexts of a handler's error

A handler puts texts around its error, and each of them is one more failure in the chain of the error
(`HandlerError.toFailure_layered`). Two walks go down this chain, and both pass over the texts: the one
for the kind, because a text is no error that is known (`HandlerError.findSome?_layered`), and
classification, because a text has no status. Classification alone counts its steps, so that texts can
push an error past its end (`HandlerError.classify_layered`).
-/

namespace Resumable.HandlerError

open Failure

variable {e : HandlerError} {layers : List String}

/-- The error with texts put around it, outermost first. -/
def layered (e : HandlerError) (layers : List String) : HandlerError :=
  layers.foldr withContext e

@[simp] theorem cause_layered : (e.layered layers).cause = e.cause := by
  induction layers with
  | nil => rfl
  | cons text layers ih => exact ih

/-- Each text is a failure over what it was put around. -/
theorem toFailure_layered :
    (e.layered layers).toFailure = (layers.map Nature.foreign).foldr caused e.toFailure := by
  induction layers with
  | nil => rfl
  | cons text layers ih => exact congrArg (caused (.foreign text)) ih

theorem chain_ne_nil (f : Failure) : f.chain ≠ [] := by
  cases f <;> exact List.cons_ne_nil _ _

/-- The walk for the kind passes over texts. -/
theorem findSome?_layered :
    (e.layered layers).toFailure.chain.findSome? knownKind? =
      e.toFailure.chain.findSome? knownKind? := by
  rw [toFailure_layered]
  induction layers with
  | nil => rfl
  | cons text layers ih => exact ih

/-- The texts lead the wording of an error, each with a colon behind it. -/
theorem message_layered :
    (e.layered layers).message =
      layers.foldr (fun text message => text ++ ": " ++ message) e.message := by
  induction layers with
  | nil => rfl
  | cons text layers ih =>
    rw [List.foldr_cons, ← ih]
    refine String.intercalate_cons_of_ne_nil ?_
    simpa using chain_ne_nil _

/-- Each text takes one of the steps of classification. -/
theorem classify_layered :
    (e.layered layers).toFailure.classify =
      e.toFailure.classifyWithin (maxSteps - layers.length) := by
  have hfree : ∀ nature ∈ layers.map Nature.foreign, nature.status? = none := by
    intro nature hmem
    obtain ⟨text, -, rfl⟩ := List.mem_map.1 hmem
    rfl
  rw [classify, toFailure_layered, classifyWithin_wrapped hfree, List.length_map]

/-- Texts leave an error its status as long as all that decides it stays within the steps. -/
theorem classify_layered_of_consults
    (h : ∀ depth g, e.toFailure.Consults depth g → depth + layers.length ≤ 15) :
    (e.layered layers).toFailure.classify = e.toFailure.classify := by
  have hwithin : ∀ depth g, e.toFailure.Consults depth g → depth < maxSteps - layers.length := by
    intro depth g hconsults
    have hdepth := h depth g hconsults
    rw [maxSteps]
    omega
  have hclassify : ∀ depth g, e.toFailure.Consults depth g → depth < maxSteps :=
    fun depth g hg => Nat.lt_of_lt_of_le (hwithin depth g hg) (Nat.sub_le _ _)
  rw [classify_layered, classifyWithin_eq_of_consults hwithin, classify,
    classifyWithin_eq_of_consults hclassify]

/-- Texts around an error hide nothing. A remote error is handed on as it is; any other error keeps its
kind, and the texts lead its message. A function that fails with the error exits with the status that
the error has without the texts, unless they push what decides it past the end of classification: then
the status is unspecified. -/
theorem contexts_hide_nothing (e : HandlerError) (layers : List String) :
    (∀ remote, e.cause.remote? = some remote → (e.layered layers).toRemote = remote) ∧
    (e.cause.remote? = none → (e.layered layers).toRemote = {
      kind := e.toRemote.kind
      message := layers.foldr (fun text message => text ++ ": " ++ message) e.toRemote.message }) ∧
    ∀ {ω ι ο : Type} (f : TypedFunction ω ι ο), ∃ status,
      f.respond (.error (e.layered layers)) =
        .exit status { result := .ofError (e.layered layers).toRemote } ∧
      (status = e.toFailure.classify ∨ status = .unspecified ∧
        ∃ depth g, e.toFailure.Consults depth g ∧ 15 < depth + layers.length) ∧
      ((∀ depth g, e.toFailure.Consults depth g → depth + layers.length ≤ 15) →
        status = e.toFailure.classify) := by
  refine ⟨fun remote hremote => ?_, fun hremote => ?_, fun f => ?_⟩
  · rw [toRemote, cause_layered, hremote]
  · rw [toRemote, toRemote, cause_layered, hremote]
    simp only [findSome?_layered, message_layered]
  · refine ⟨_, rfl, ?_, classify_layered_of_consults⟩
    by_cases h : ∀ depth g, e.toFailure.Consults depth g → depth + layers.length ≤ 15
    · exact .inl (classify_layered_of_consults h)
    · -- what was cut off was cut from the status, or from one that was cut before
      rw [classify_layered]
      have hcut : (e.toFailure.classifyWithin (maxSteps - layers.length)).Cut e.toFailure.classify :=
        classifyWithin_cut_of_le (Nat.sub_le _ _)
      rcases hcut with hsame | hcut
      · exact .inl hsame
      · refine .inr ⟨hcut, ?_⟩
        simpa only [Classical.not_forall, exists_prop, Nat.not_le] using h

/-- A remote error and an error of the caller's own, each in two texts. -/
theorem contexts_hide_nothing_of_two :
    let remote : RemoteError := { kind := "", message := "boom", traceback := some [3] }
    let relayed := ofFailure (leaf (.remote remote))
    let own := ofFailure (caused (.await "call failed") (leaf (.condition .deadlineExceeded)))
    let f : TypedFunction Unit Value Value :=
      ⟨"f", .untyped, .untyped, fun _ _ => .done (.error (own.layered ["saving", "of a note"]))⟩
    relayed.cause.remote? = some remote ∧
      (relayed.layered ["saving", "of a note"]).toRemote = remote ∧
      own.cause.remote? = none ∧
      (∀ depth g, own.toFailure.Consults depth g → depth + 2 ≤ 15) ∧
      f.respond (.error (own.layered ["saving", "of a note"])) = .exit .timeout { result := .ofError {
        kind := "corun::AwaitError"
        message := "saving: of a note: call failed: deadline exceeded" } } := by
  intro remote relayed own f
  have hdepth : ∀ depth g, own.toFailure.Consults depth g → depth + 2 ≤ 15 := by
    intro depth g hconsults
    cases hconsults with
    | self => decide
    | source _ hconsults =>
      cases hconsults
      decide
  obtain ⟨hremote, -, -⟩ := contexts_hide_nothing relayed ["saving", "of a note"]
  obtain ⟨-, hown, hexit⟩ := contexts_hide_nothing own ["saving", "of a note"]
  obtain ⟨status, hrespond, -, hstatus⟩ := hexit f
  refine ⟨rfl, hremote remote rfl, rfl, hdepth, ?_⟩
  rw [hrespond, hstatus hdepth, hown rfl]
  rfl

end Resumable.HandlerError
