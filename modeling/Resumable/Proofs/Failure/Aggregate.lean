import Resumable.Host.Function
import Resumable.Proofs.Failure.Classify

/-!
# Rearranged causes

Statuses are ordered with the unspecified one below all others, which are definite and do not compare;
the status that causes have in common is their greatest lower bound. It is definite only if all of them
have it (`Failure.commonStatus_eq_iff`), so that neither their order nor repetitions matter
(`Failure.commonStatus_congr`), and a group among them may be replaced by what it has in common
(`Failure.commonStatus_group`). `Failure.Regrouped` relates causes that differ by such rearrangements, at
any depth.

The full rule gives rearranged causes one status (`Failure.Regrouped.classifyFully_eq`), and so does
classification as long as it stays clear of its end (`Failure.Clear`). For another order and for
repetitions it is enough that one of the arrangements is clear: if the others are not, their causes
differ anyway (`Failure.classifyWithin_join_of_same`).
-/

namespace Resumable

/-- A status is known by the definite statuses it is. -/
theorem Status.eq_of_definite {a b : Status} (h : ∀ s, s ≠ .unspecified → (a = s ↔ b = s)) :
    a = b := by
  by_cases ha : a = .unspecified
  · by_cases hb : b = .unspecified
    · rw [ha, hb]
    · exact (h b hb).2 rfl
  · exact ((h a ha).1 rfl).symm

namespace Failure

/-! ## What statuses have in common -/

section CommonStatus

variable {statuses others : List Status}

/-- Neither the order of statuses nor repetitions matter to what they have in common. -/
theorem commonStatus_congr (h : ∀ s, s ∈ others ↔ s ∈ statuses) :
    commonStatus others = commonStatus statuses := by
  refine Status.eq_of_definite fun s hs => ?_
  have hnil : others = [] ↔ statuses = [] := by
    simp only [List.eq_nil_iff_forall_not_mem, h]
  simp only [commonStatus_eq_iff hs, ne_eq, hnil, h]

/-- Statuses may be replaced by what they have in common. -/
theorem commonStatus_group (h : statuses ≠ []) :
    commonStatus (commonStatus statuses :: others) = commonStatus (statuses ++ others) := by
  refine Status.eq_of_definite fun s hs => ?_
  rw [commonStatus_eq_iff hs, commonStatus_eq_iff hs, List.forall_mem_cons, commonStatus_eq_iff hs,
    List.forall_mem_append]
  simp [h]

end CommonStatus

/-! ## Rearranged causes -/

/-- Rearrangements of causes: they are put into another order, one of them is repeated, some of them are
joined into one, or the causes of one that is joined are themselves rearranged; and all this undone. -/
inductive Regrouped : List Failure → List Failure → Prop
  | reordered {xs ys : List Failure} : xs.Perm ys → Regrouped xs ys
  | repeated {cause : Failure} {xs : List Failure} : cause ∈ xs → Regrouped xs (cause :: xs)
  | grouped {group rest : List Failure} :
      group ≠ [] → Regrouped (group ++ rest) (joined group :: rest)
  | inside {group group' rest : List Failure} :
      Regrouped group group' → Regrouped (joined group :: rest) (joined group' :: rest)
  | symm {xs ys : List Failure} : Regrouped xs ys → Regrouped ys xs
  | trans {xs ys zs : List Failure} : Regrouped xs ys → Regrouped ys zs → Regrouped xs zs

variable {xs ys : List Failure} {steps : Nat}

theorem classifyFully_joined (xs : List Failure) :
    (joined xs).classifyFully = commonStatus (xs.map classifyFully) := by
  rw [classifyFully, classifyAllFully_eq_map]

/-- Causes of one set are joined to one status. -/
theorem classifyFully_joined_of_same (h : ∀ cause, cause ∈ ys ↔ cause ∈ xs) :
    (joined ys).classifyFully = (joined xs).classifyFully := by
  rw [classifyFully_joined, classifyFully_joined]
  exact commonStatus_congr fun s => by simp only [List.mem_map, h]

/-- The full rule gives rearranged causes one status. -/
theorem Regrouped.classifyFully_eq (h : Regrouped xs ys) :
    (joined ys).classifyFully = (joined xs).classifyFully := by
  induction h with
  | reordered hperm => exact classifyFully_joined_of_same fun cause => hperm.symm.mem_iff
  | @repeated cause xs hmem =>
    refine classifyFully_joined_of_same fun other => ?_
    rw [List.mem_cons, or_iff_right_of_imp]
    rintro rfl
    exact hmem
  | @grouped group rest hne =>
    rw [classifyFully_joined, classifyFully_joined, List.map_cons, List.map_append,
      classifyFully_joined]
    exact commonStatus_group (by simpa using hne)
  | inside _ ih =>
    rw [classifyFully_joined, classifyFully_joined, List.map_cons, List.map_cons, ih]
  | symm _ ih => exact ih.symm
  | trans _ _ ih ih' => exact ih'.trans ih

/-! ## Causes clear of the end -/

/-- Whether all that the full rule consults lies within so many steps. -/
def Clear (steps : Nat) (f : Failure) : Prop := ∀ depth g, f.Consults depth g → depth < steps

theorem clear_leaf (nature : Nature) (steps : Nat) : (leaf nature).Clear (steps + 1) := by
  intro depth g h
  cases h
  exact Nat.succ_pos steps

/-- Causes are joined clear of the end if each of them is, with a step to spare. -/
theorem clear_joined (h : ∀ cause ∈ xs, cause.Clear steps) : (joined xs).Clear (steps + 1) := by
  intro depth g hconsults
  cases hconsults with
  | self => exact Nat.succ_pos steps
  | cause _ hcause => exact Nat.succ_lt_succ (h _ (by simp) _ _ hcause)

/-- If all causes have one status, the full rule consults each of them. -/
theorem Clear.of_mem (h : (joined xs).Clear (steps + 1))
    (hsame : ∀ a ∈ xs, ∀ b ∈ xs, a.classifyFully = b.classifyFully) :
    ∀ cause ∈ xs, cause.Clear steps := by
  intro cause hmem depth g hcause
  obtain ⟨pre, post, rfl⟩ := List.append_of_mem hmem
  have hpre : ∀ a ∈ pre, ∀ b ∈ pre, a.classifyFully = b.classifyFully := by
    intro a ha b hb
    exact hsame a (List.mem_append_left _ ha) b (List.mem_append_left _ hb)
  exact Nat.lt_of_succ_lt_succ (h _ g (.cause hpre hcause))

/-- A single cause, which is joined to itself, has the status that it has in common with no other. -/
theorem classifyFully_join (xs : List Failure) :
    (join xs).classifyFully = (joined xs).classifyFully := by
  match xs with
  | [] => rfl
  | [cause] =>
    rw [classifyFully_joined]
    rfl
  | _ :: _ :: _ => rfl

theorem Clear.join (h : (joined xs).Clear steps) : (join xs).Clear steps := by
  match xs with
  | [] => exact h
  | [cause] =>
    intro depth g hcause
    have hconsults : (joined ([] ++ cause :: [])).Consults (depth + 1) g := .cause nofun hcause
    exact Nat.lt_of_succ_lt (h _ g hconsults)
  | _ :: _ :: _ => exact h

theorem classifyWithin_join (h : (joined xs).Clear steps) :
    (join xs).classifyWithin steps = (joined xs).classifyFully := by
  rw [classifyWithin_eq_of_consults h.join, classifyFully_join]

/-- Causes of one set are joined to one status if they are clear of the end in one order. -/
theorem classifyWithin_join_of_same (h : (joined xs).Clear steps)
    (hsame : ∀ cause, cause ∈ ys ↔ cause ∈ xs) :
    (join ys).classifyWithin steps = (join xs).classifyWithin steps := by
  have hfull : (join ys).classifyFully = (joined xs).classifyFully := by
    rw [classifyFully_join, classifyFully_joined_of_same hsame]
  rw [classifyWithin_join h]
  by_cases hs : (joined xs).classifyFully = .unspecified
  · -- what is at most cut from the unspecified status is unspecified
    rcases (classifyWithin_cut : ((join ys).classifyWithin steps).Cut _) with heq | hcut
    · rw [heq, hfull]
    · rw [hcut, hs]
  · obtain ⟨steps, rfl⟩ : ∃ k, steps = k + 1 := ⟨steps - 1, by have := h 0 _ (.self _); omega⟩
    -- all causes have one status, so each was consulted and is clear of the end in any order
    have hcommon := ((commonStatus_eq_iff hs).1 (classifyFully_joined xs).symm).2
    have hxs := h.of_mem fun a ha b hb =>
      (hcommon _ (List.mem_map_of_mem ha)).trans (hcommon _ (List.mem_map_of_mem hb)).symm
    have hys : (joined ys).Clear (steps + 1) :=
      clear_joined fun cause hmem => hxs cause ((hsame cause).1 hmem)
    rw [classifyWithin_eq_of_consults hys.join, hfull]

theorem Clear.mono {f : Failure} {m n : Nat} (h : f.Clear m) (hle : m ≤ n) : f.Clear n :=
  fun depth g hconsults => Nat.lt_of_lt_of_le (h depth g hconsults) hle

/-- Causes clear of the end are joined to a definite status if there are any and each of them has it. -/
theorem classify_join_eq_iff (h : (joined xs).Clear maxSteps) {s : Status} (hs : s ≠ .unspecified) :
    (join xs).classify = s ↔ xs ≠ [] ∧ ∀ cause ∈ xs, cause.classify = s := by
  rw [classify, classifyWithin_join h, classifyFully_joined, commonStatus_eq_iff hs, ne_eq,
    List.map_eq_nil_iff, List.forall_mem_map]
  refine and_congr_right fun _ => ⟨fun hall cause hmem => ?_, fun hall cause hmem => ?_⟩
  · have hclear : cause.Clear 15 :=
      h.of_mem (fun a ha b hb => (hall a ha).trans (hall b hb).symm) cause hmem
    rw [classify, classifyWithin_eq_of_consults (hclear.mono (by decide)), hall cause hmem]
  · rcases (classifyWithin_cut : (cause.classifyWithin maxSteps).Cut _) with heq | hcut
    · rw [← heq]
      exact hall cause hmem
    · exact absurd ((hall cause hmem).symm.trans hcut) hs

/-! ## Failed calls -/

/-- The status that a failed operation has: that of its joined errors, in one step more. -/
theorem classify_failure (slots : Slots) :
    (Operation.failure slots).toFailure.classify =
      (join ((Operation.errors slots).map fun e => leaf (.remote e))).classifyWithin 15 :=
  rfl

/-- Operations whose calls failed with the same errors have one status. -/
theorem classify_failure_of_same {slots slots' : Slots}
    (h : ∀ e, e ∈ Operation.errors slots' ↔ e ∈ Operation.errors slots) :
    (Operation.failure slots').toFailure.classify =
      (Operation.failure slots).toFailure.classify := by
  rw [classify_failure, classify_failure]
  refine classifyWithin_join_of_same ?_ fun cause => by simp only [List.mem_map, h]
  refine clear_joined fun cause hmem => ?_
  obtain ⟨e, -, rfl⟩ := List.mem_map.1 hmem
  exact clear_leaf _ _

/-- Causes that are joined clear of the end of classification have one status whatever their order and
however often each of them occurs, and also in groups, unless these push them past the end. It is a
definite status if there are any causes and each of them has it. So a function whose calls failed exits
with one status, whatever the order of their errors. -/
theorem classify_regrouped (xs : List Failure) (hclear : (joined xs).Clear maxSteps) :
    (joined xs).classify = (join xs).classify ∧
    (∀ ys, (∀ cause, cause ∈ ys ↔ cause ∈ xs) → (join ys).classify = (join xs).classify) ∧
    (∀ ys, Regrouped xs ys → (joined ys).Clear maxSteps →
      (join ys).classify = (join xs).classify) ∧
    (∀ s, s ≠ .unspecified →
      ((join xs).classify = s ↔ xs ≠ [] ∧ ∀ cause ∈ xs, cause.classify = s)) ∧
    ∀ {ω ι ο : Type} (f : TypedFunction ω ι ο) (slots slots' : Slots),
      (∀ e, e ∈ Operation.errors slots' ↔ e ∈ Operation.errors slots) →
      (f.respond (.error (.ofFailure (Operation.failure slots').toFailure))).status =
        (f.respond (.error (.ofFailure (Operation.failure slots).toFailure))).status := by
  refine ⟨?_, fun ys hsame => classifyWithin_join_of_same hclear hsame, fun ys hys hclear' => ?_,
    fun s hs => classify_join_eq_iff hclear hs, fun f slots slots' h => classify_failure_of_same h⟩
  · exact (classifyWithin_eq_of_consults hclear).trans (classifyWithin_join hclear).symm
  · calc
      (join ys).classify = (joined ys).classifyFully := classifyWithin_join hclear'
      _ = (joined xs).classifyFully := hys.classifyFully_eq
      _ = (join xs).classify := (classifyWithin_join hclear).symm

/-- Two causes of one status, in the other order, one of them once more, and both in a group. -/
theorem classify_regrouped_of_two :
    let a := leaf (.condition .cancelled)
    let b := leaf (.system .interrupted "signal")
    (joined [a, b]).Clear maxSteps ∧ Regrouped [a, b] [joined [b, a], a] ∧
      (joined [joined [b, a], a]).Clear maxSteps ∧
      (join [joined [b, a], a]).classify = .temporaryError := by
  intro a b
  have ha : ∀ steps, a.Clear (steps + 1) := clear_leaf _
  have hb : ∀ steps, b.Clear (steps + 1) := clear_leaf _
  have hclear : (joined [a, b]).Clear maxSteps := clear_joined (by simp [ha, hb])
  have hgroup : (joined [b, a]).Clear 15 := clear_joined (by simp [ha, hb])
  have hgrouped : (joined [joined [b, a], a]).Clear maxSteps := clear_joined (by simp [ha, hgroup])
  have hregrouped : Regrouped [a, b] [joined [b, a], a] := by
    have hrepeated : Regrouped [a, b] [a, a, b] := .repeated List.mem_cons_self
    have hreordered : Regrouped [a, a, b] ([b, a] ++ [a]) :=
      .reordered (List.reverse_perm [b, a, a])
    exact (hrepeated.trans hreordered).trans (.grouped nofun)
  obtain ⟨-, -, hgroups, hdefinite, -⟩ := classify_regrouped [a, b] hclear
  refine ⟨hclear, hregrouped, hgrouped, (hgroups _ hregrouped hgrouped).trans ?_⟩
  exact (hdefinite .temporaryError nofun).2
    ⟨nofun, List.forall_mem_cons.2 ⟨rfl, List.forall_mem_singleton.2 rfl⟩⟩

end Failure

end Resumable
