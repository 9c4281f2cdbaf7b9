import Resumable.Failure.Classify

/-!
# Classification and its reference

Classification ends after `maxSteps` failures, and `Failure.classifyFully` is the same rule without
that end. What the end costs is a status and never a wrong one: `Status.Cut s full` says that `s` is
`full` or unspecified. It holds of any two classifications of a failure of which the first may take
fewer steps, because joined causes are as cautious about a cause that was cut as about one that differs
(`commonStatus_map_cut`). Nothing is cut as long as the failures that the full rule consults
(`Failure.Consults`) lie within the steps (`Failure.classify_refines`).
-/

namespace Resumable

/-- A status is another one, unless it is unspecified. -/
def Status.Cut (s full : Status) : Prop := s = full ∨ s = .unspecified

namespace Failure

/-! ## The status of joined causes -/

/-- Causes have a definite status in common if there are any and each of them has it. -/
theorem commonStatus_eq_iff {statuses : List Status} {s : Status} (hs : s ≠ .unspecified) :
    commonStatus statuses = s ↔ statuses ≠ [] ∧ ∀ x ∈ statuses, x = s := by
  cases statuses with
  | nil => simp [commonStatus, hs.symm]
  | cons first rest =>
    simp only [commonStatus, List.all_eq_true, decide_eq_true_eq, ne_eq, List.cons_ne_nil,
      not_false_eq_true, true_and, List.forall_mem_cons]
    constructor
    · intro h
      split at h
      · rename_i hall
        subst h
        exact ⟨rfl, hall⟩
      · exact absurd h.symm hs
    · rintro ⟨rfl, hall⟩
      exact if_pos hall

variable {α : Type} {xs : List α} {φ ψ : α → Status}

/-- Cutting causes cuts what they have in common. -/
theorem commonStatus_map_cut (h : ∀ x ∈ xs, (φ x).Cut (ψ x)) :
    (commonStatus (xs.map φ)).Cut (commonStatus (xs.map ψ)) := by
  by_cases hs : commonStatus (xs.map φ) = .unspecified
  · exact .inr hs
  · -- All causes have one definite status, so none of them was cut.
    obtain ⟨hne, hall⟩ := (commonStatus_eq_iff hs).1 rfl
    refine .inl (Eq.symm ((commonStatus_eq_iff hs).2 ⟨by simpa using hne, ?_⟩))
    intro s hmem
    obtain ⟨x, hx, rfl⟩ := List.mem_map.1 hmem
    have hφ := hall (φ x) (List.mem_map_of_mem hx)
    rcases h x hx with heq | hcut
    · rw [← heq, hφ]
    · exact absurd (hφ.symm.trans hcut) hs

/-- Comparing with a status stops at the first cause of another one. -/
theorem all_eq_of_front {s : Status}
    (h : ∀ pre x post, xs = pre ++ x :: post → (∀ y ∈ pre, ψ y = s) → φ x = ψ x) :
    xs.all (φ · = s) = xs.all (ψ · = s) := by
  induction xs with
  | nil => rfl
  | cons x xs ih =>
    have hx : φ x = ψ x := h [] x xs rfl (by simp)
    by_cases hs : ψ x = s
    · have hrest := ih fun pre y post hxs hpre => h (x :: pre) y post (by rw [hxs, List.cons_append])
        (by simpa [hs] using hpre)
      simp [hx, hs, hrest]
    · simp [hx, hs]

/-- What causes have in common depends on a cause only if those before it agree. -/
theorem commonStatus_map_congr
    (h : ∀ pre x post, xs = pre ++ x :: post → (∀ y ∈ pre, ∀ z ∈ pre, ψ y = ψ z) → φ x = ψ x) :
    commonStatus (xs.map φ) = commonStatus (xs.map ψ) := by
  cases xs with
  | nil => rfl
  | cons x xs =>
    have hx : φ x = ψ x := h [] x xs rfl (by simp)
    have hrest : xs.all (φ · = ψ x) = xs.all (ψ · = ψ x) := by
      refine all_eq_of_front fun pre y post hxs hpre => ?_
      refine h (x :: pre) y post (by rw [hxs, List.cons_append]) ?_
      have hall : ∀ y ∈ x :: pre, ψ y = ψ x := by simpa using hpre
      intro y hy z hz
      rw [hall y hy, hall z hz]
    simp only [List.map_cons, commonStatus, List.all_map, hx]
    exact congrArg (fun b : Bool => if b then ψ x else .unspecified) hrest

theorem classifyAllFully_eq_map (causes : List Failure) :
    classifyAllFully causes = causes.map classifyFully := by
  induction causes with
  | nil => rfl
  | cons cause rest ih => rw [classifyAllFully, ih, List.map_cons]

/-! ## Fewer steps -/

variable {f g : Failure} {m n : Nat}

/-- With fewer steps a status is at most cut. -/
theorem classifyWithin_cut_of_le (h : m ≤ n) : (f.classifyWithin m).Cut (f.classifyWithin n) := by
  induction m generalizing n f with
  | zero => exact .inr (by cases f <;> rfl)
  | succ m ih =>
    obtain ⟨n, rfl⟩ : ∃ k, n = k + 1 := ⟨n - 1, by omega⟩
    have hle : m ≤ n := Nat.le_of_succ_le_succ h
    cases f with
    | leaf nature => exact .inl rfl
    | explicit s source => exact .inl rfl
    | caused nature source =>
      rw [classifyWithin, classifyWithin]
      split
      · exact .inl rfl
      · exact ih hle
    | joined causes => exact commonStatus_map_cut fun cause _ => ih hle

/-- A status found within some steps is at most cut from the one of the full rule. -/
theorem classifyWithin_cut : (f.classifyWithin n).Cut f.classifyFully := by
  induction n generalizing f with
  | zero => exact .inr (by cases f <;> rfl)
  | succ n ih =>
    cases f with
    | leaf nature => exact .inl rfl
    | explicit s source => exact .inl rfl
    | caused nature source =>
      rw [classifyWithin, classifyFully]
      split
      · exact .inl rfl
      · exact ih
    | joined causes =>
      rw [classifyWithin, classifyFully, classifyAllFully_eq_map]
      exact commonStatus_map_cut fun cause _ => ih

/-! ## Failures that are consulted -/

/-- `Consults f depth g` says that the full rule, classifying `f`, looks at `g`, so many sources and
causes below. Under an error whose nature has a status, and under an explicit status, it looks at
nothing; of joined causes it looks at one after the other until two of them differ. -/
inductive Consults : Failure → Nat → Failure → Prop
  | self (f : Failure) : Consults f 0 f
  | source {nature : Nature} {source g : Failure} {depth : Nat} :
      nature.status? = none → Consults source depth g →
      Consults (caused nature source) (depth + 1) g
  | cause {pre post : List Failure} {cause g : Failure} {depth : Nat} :
      (∀ a ∈ pre, ∀ b ∈ pre, a.classifyFully = b.classifyFully) → Consults cause depth g →
      Consults (joined (pre ++ cause :: post)) (depth + 1) g

/-- Nothing is cut if all that the full rule consults lies within the steps. -/
theorem classifyWithin_eq_of_consults (h : ∀ depth g, f.Consults depth g → depth < n) :
    f.classifyWithin n = f.classifyFully := by
  induction n generalizing f with
  | zero => exact absurd (h 0 f (.self f)) (Nat.not_lt_zero 0)
  | succ n ih =>
    cases f with
    | leaf nature => rfl
    | explicit s source => rfl
    | caused nature source =>
      rw [classifyWithin, classifyFully]
      cases hnature : nature.status? with
      | some s => rfl
      | none => exact ih fun depth g hg => Nat.lt_of_succ_lt_succ (h _ g (.source hnature hg))
    | joined causes =>
      rw [classifyWithin, classifyFully, classifyAllFully_eq_map]
      refine commonStatus_map_congr fun pre cause post hcauses hpre => ih fun depth g hg => ?_
      subst hcauses
      exact Nat.lt_of_succ_lt_succ (h _ g (.cause hpre hg))

/-! ## Wrappers -/

section Wrappers

variable {wrappers : List Nature}

/-- Errors without a status of their own use up one step each. -/
theorem classifyWithin_wrapped (hfree : ∀ nature ∈ wrappers, nature.status? = none) :
    (wrappers.foldr caused f).classifyWithin n = f.classifyWithin (n - wrappers.length) := by
  induction wrappers generalizing n with
  | nil => rfl
  | cons nature wrappers ih =>
    rw [List.forall_mem_cons] at hfree
    cases n with
    | zero => rw [Nat.zero_sub]; cases f <;> rfl
    | succ n =>
      rw [List.foldr_cons, classifyWithin, hfree.1]
      rw [List.length_cons, Nat.add_sub_add_right]
      exact ih hfree.2

/-- Below wrappers, the full rule consults what it consults in the failure that they are put around. -/
theorem Consults.of_wrapped {depth : Nat} (h : (wrappers.foldr caused f).Consults depth g) :
    depth < wrappers.length ∨ ∃ below, depth = below + wrappers.length ∧ f.Consults below g := by
  induction wrappers generalizing depth with
  | nil => exact .inr ⟨depth, rfl, h⟩
  | cons nature wrappers ih =>
    cases h with
    | self => exact .inl (Nat.succ_pos _)
    | source hnature h =>
      rcases ih h with hlt | ⟨below, rfl, hbelow⟩
      · exact .inl (Nat.succ_lt_succ hlt)
      · exact .inr ⟨below, rfl, hbelow⟩

end Wrappers

/-- The status of a failure is the one of the full rule, or unspecified. It is the one of the full rule
if nothing that this consults lies more than 15 sources and causes below the failure. Errors without a
status of their own that are put around a failure leave it its status, or make it unspecified. -/
theorem classify_refines (f : Failure) :
    (f.classify = f.classifyFully ∨ f.classify = .unspecified) ∧
      ((∀ depth g, f.Consults depth g → depth ≤ 15) → f.classify = f.classifyFully) ∧
      ∀ wrappers : List Nature, (∀ nature ∈ wrappers, nature.status? = none) →
        (wrappers.foldr caused f).classify = f.classify ∨
          (wrappers.foldr caused f).classify = .unspecified := by
  refine ⟨classifyWithin_cut, fun h => ?_, fun wrappers hfree => ?_⟩
  · exact classifyWithin_eq_of_consults fun depth g hg => Nat.lt_succ_of_le (h depth g hg)
  · rw [classify, classifyWithin_wrapped hfree]
    exact classifyWithin_cut_of_le (Nat.sub_le _ _)

/-- A timeout is found below 15 wrappers, and cut by one more. -/
theorem classify_refines_of_fifteen_wrappers :
    let wrapped := (List.replicate 15 (Nature.foreign "wrapped")).foldr caused
      (leaf (.condition .deadlineExceeded))
    (∀ depth g, wrapped.Consults depth g → depth ≤ 15) ∧ wrapped.classify = .timeout ∧
      (∀ nature ∈ [Nature.foreign "once more"], nature.status? = none) ∧
      (caused (.foreign "once more") wrapped).classify = .unspecified := by
  intro wrapped
  have hdepth : ∀ depth g, wrapped.Consults depth g → depth ≤ 15 := by
    intro depth g hg
    rcases hg.of_wrapped with hlt | ⟨below, rfl, hbelow⟩
    · exact Nat.le_of_lt hlt
    · cases hbelow
      exact Nat.le_refl 15
  have hfree : ∀ nature ∈ [Nature.foreign "once more"], nature.status? = none := by simp [Nature.status?]
  obtain ⟨-, hfull, hwrap⟩ := classify_refines wrapped
  refine ⟨hdepth, (hfull hdepth).trans rfl, hfree, ?_⟩
  rcases hwrap _ hfree with h | h
  · cases h
  · exact h

end Failure

end Resumable
