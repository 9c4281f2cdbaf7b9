import Mathlib.Data.List.Nodup
import Resumable.Await.Operation
import Resumable.Proofs.Ids

/-!
# Attribution of results

Which result belongs in which slot depends only on the ids of the calls and on the results in the
order of their delivery: a slot has the first result for its id (`attributed`), and the ids without
one are pending (`awaited`). The tally of a batch under way is a function of what was delivered
before the batch and in it, `tallyAt`; recording one more result is one more result delivered
(`record_tallyAt`), so a batch of any order and with any repetition ends where its results say
(`foldl_record_tallyAt`).
-/

namespace Resumable

/-- The first of some results for an id. -/
def CallResult.firstFor? (id : UInt64) (results : List CallResult) : Option CallResult :=
  results.find? (·.correlationId == id)

open CallResult

namespace CallResult

@[simp] theorem firstFor?_nil (id : UInt64) : firstFor? id [] = none := rfl

theorem firstFor?_singleton (id : UInt64) (r : CallResult) :
    firstFor? id [r] = if r.correlationId = id then some r else none := by
  by_cases h : r.correlationId = id <;> simp [firstFor?, h]

theorem firstFor?_append (id : UInt64) (xs ys : List CallResult) :
    firstFor? id (xs ++ ys) = (firstFor? id xs).or (firstFor? id ys) :=
  List.find?_append

theorem correlationId_of_firstFor? {id : UInt64} {results : List CallResult} {r : CallResult}
    (h : firstFor? id results = some r) : r.correlationId = id := by
  have hr := List.find?_some h
  simpa using hr

theorem firstFor?_append_singleton_self {seen : List CallResult} {r : CallResult}
    (h : firstFor? r.correlationId seen = none) :
    firstFor? r.correlationId (seen ++ [r]) = some r := by
  rw [firstFor?_append, h, firstFor?_singleton, if_pos rfl]
  rfl

/-- A later result changes nothing for an id that it is not for, or that has one. -/
theorem firstFor?_append_singleton_of {id : UInt64} {seen : List CallResult} {r : CallResult}
    (h : firstFor? id seen = none → r.correlationId ≠ id) :
    firstFor? id (seen ++ [r]) = firstFor? id seen := by
  rw [firstFor?_append, firstFor?_singleton]
  cases hs : firstFor? id seen with
  | none => rw [if_neg (h hs)]; rfl
  | some first => rfl

end CallResult

namespace Operation

variable {drawn : List UInt64} {seen batch : List CallResult}

/-- The slots of calls under these ids after some results. -/
def attributed (drawn : List UInt64) (seen : List CallResult) : Slots :=
  drawn.map fun id => firstFor? id seen

/-- The ids that have no result yet, with the places of their calls. -/
def awaited (drawn : List UInt64) (seen : List CallResult) : List (UInt64 × Nat) :=
  drawn.zipIdx.filter fun entry => (firstFor? entry.1 seen).isNone

/-- The results that a batch brings to slots that were empty before it, in call order. -/
def recorded (drawn : List UInt64) (seen batch : List CallResult) : List CallResult :=
  drawn.filterMap fun id => if (firstFor? id seen).isNone then firstFor? id batch else none

/-- The tally of a batch under way. -/
def tallyAt (drawn : List UInt64) (seen batch : List CallResult) : Tally where
  pending := awaited drawn (seen ++ batch)
  slots := attributed drawn (seen ++ batch)
  succeeded := (recorded drawn seen batch).any fun r => !r.isFailure
  failed := (recorded drawn seen batch).any fun r => r.isFailure

@[simp] theorem length_attributed (drawn : List UInt64) (seen : List CallResult) :
    (attributed drawn seen).length = drawn.length :=
  List.length_map _

theorem some_mem_attributed {r : CallResult} :
    some r ∈ attributed drawn seen ↔ ∃ id ∈ drawn, firstFor? id seen = some r :=
  List.mem_map

theorem mem_recorded {r : CallResult} :
    r ∈ recorded drawn seen batch ↔
      ∃ id ∈ drawn, firstFor? id seen = none ∧ firstFor? id batch = some r := by
  simp [recorded, List.mem_filterMap]

@[simp] theorem recorded_nil (drawn : List UInt64) (seen : List CallResult) :
    recorded drawn seen [] = [] := by
  simp [recorded]

/-- A batch in two parts records what its first part does, and what its second does after it. -/
theorem mem_recorded_append {xs ys : List CallResult} {r : CallResult} :
    r ∈ recorded drawn seen (xs ++ ys) ↔
      r ∈ recorded drawn seen xs ∨ r ∈ recorded drawn (seen ++ xs) ys := by
  simp only [mem_recorded, firstFor?_append]
  constructor
  · rintro ⟨id, hid, hseen, hr⟩
    cases hxs : firstFor? id xs with
    | none =>
      rw [hxs, Option.none_or] at hr
      exact Or.inr ⟨id, hid, by rw [hseen, hxs]; rfl, hr⟩
    | some first =>
      rw [hxs, Option.some_or] at hr
      exact Or.inl ⟨id, hid, hseen, by rw [hxs, hr]⟩
  · rintro (⟨id, hid, hseen, hr⟩ | ⟨id, hid, hseen, hr⟩)
    · exact ⟨id, hid, hseen, by rw [hr]; rfl⟩
    · obtain ⟨hseen, hxs⟩ := Option.or_eq_none_iff.1 hseen
      exact ⟨id, hid, hseen, by rw [hxs]; exact hr⟩

theorem any_recorded_append (xs ys : List CallResult) (p : CallResult → Bool) :
    (recorded drawn seen (xs ++ ys)).any p =
      ((recorded drawn seen xs).any p || (recorded drawn (seen ++ xs) ys).any p) := by
  rw [Bool.eq_iff_iff]
  simp only [List.any_eq_true, Bool.or_eq_true, mem_recorded_append, or_and_right, exists_or]

/-- The results in slots after a batch were there before it or are recorded by it. -/
theorem some_mem_attributed_append {r : CallResult} :
    some r ∈ attributed drawn (seen ++ batch) ↔
      some r ∈ attributed drawn seen ∨ r ∈ recorded drawn seen batch := by
  simp only [some_mem_attributed, mem_recorded, firstFor?_append, ← exists_or, ← and_or_left]
  refine exists_congr fun id => and_congr_right fun _ => ?_
  cases firstFor? id seen <;> simp

/-- No id is pending once every slot is filled. -/
theorem isEmpty_awaited (drawn : List UInt64) (seen : List CallResult) :
    (awaited drawn seen).isEmpty = (attributed drawn seen).all (·.isSome) := by
  rw [Bool.eq_iff_iff, List.isEmpty_iff, awaited, List.filter_eq_nil_iff, List.all_eq_true]
  constructor
  · intro h slot hslot
    obtain ⟨id, hid, rfl⟩ := List.mem_map.1 hslot
    obtain ⟨index, hindex⟩ := List.getElem?_of_mem hid
    simpa [Option.isSome_iff_ne_none] using h (id, index) (List.mem_zipIdx_iff_getElem?.2 hindex)
  · intro h entry hentry
    have hslot := h _ (List.mem_map_of_mem (List.fst_mem_of_mem_zipIdx hentry))
    simpa [Option.isSome_iff_ne_none] using hslot

/-! ## Recording one result -/

theorem lookup_awaited_eq_some {id : UInt64} {index : Nat}
    (h : (awaited drawn seen).lookup id = some index) :
    drawn[index]? = some id ∧ firstFor? id seen = none := by
  obtain ⟨before, after, heq, -⟩ := List.lookup_eq_some_iff.1 h
  have hmem : (id, index) ∈ awaited drawn seen := by rw [heq]; simp
  rw [awaited, List.mem_filter, List.mem_zipIdx_iff_getElem?, Option.isNone_iff_eq_none] at hmem
  exact hmem

theorem firstFor?_ne_none_of_lookup_awaited {id : UInt64}
    (h : (awaited drawn seen).lookup id = none) (hid : id ∈ drawn) : firstFor? id seen ≠ none := by
  intro hnone
  obtain ⟨index, hindex⟩ := List.getElem?_of_mem hid
  have hmem : (id, index) ∈ awaited drawn seen := by
    rw [awaited, List.mem_filter, List.mem_zipIdx_iff_getElem?]
    exact ⟨hindex, by rw [hnone]; rfl⟩
  have hne := List.lookup_eq_none_iff.1 h _ hmem
  simp at hne

/-- A result whose id is not pending changes nothing. -/
theorem tallyAt_append_of_lookup_eq_none {r : CallResult}
    (h : (awaited drawn (seen ++ batch)).lookup r.correlationId = none) :
    tallyAt drawn seen (batch ++ [r]) = tallyAt drawn seen batch := by
  -- the id of `r` was not drawn or has its first result already, and no other id is touched by it
  have hfirst : ∀ id ∈ drawn,
      firstFor? id (seen ++ batch ++ [r]) = firstFor? id (seen ++ batch) := by
    intro id hid
    refine firstFor?_append_singleton_of fun hnone hr => ?_
    subst hr
    exact firstFor?_ne_none_of_lookup_awaited h hid hnone
  have hrecorded : recorded drawn (seen ++ batch) [r] = [] := by
    refine List.eq_nil_iff_forall_not_mem.2 fun x hx => ?_
    obtain ⟨id, hid, hnone, hx⟩ := mem_recorded.1 hx
    have hsame := hfirst id hid
    rw [firstFor?_append, hnone, hx] at hsame
    cases hsame
  have hattributed : attributed drawn (seen ++ (batch ++ [r])) = attributed drawn (seen ++ batch) :=
    List.map_congr_left fun id hid => by rw [← List.append_assoc]; exact hfirst id hid
  have hawaited : awaited drawn (seen ++ (batch ++ [r])) = awaited drawn (seen ++ batch) := by
    refine List.filter_congr fun entry hentry => ?_
    rw [← List.append_assoc, hfirst entry.1 (List.fst_mem_of_mem_zipIdx hentry)]
  simp [tallyAt, hattributed, hawaited, any_recorded_append, hrecorded]

/-- The first result for an id ends the wait for it. -/
theorem awaited_append_singleton {r : CallResult} (hnone : firstFor? r.correlationId seen = none) :
    awaited drawn (seen ++ [r]) = (awaited drawn seen).filter (·.1 != r.correlationId) := by
  rw [awaited, awaited, List.filter_filter]
  refine List.filter_congr fun entry _ => ?_
  by_cases hid : entry.1 = r.correlationId
  · simp [hid, firstFor?_append_singleton_self hnone]
  · rw [firstFor?_append_singleton_of fun _ hr => hid hr.symm]
    simp [hid]

/-- The first result for an id fills the slot of its call and no other: the ids are distinct. -/
theorem attributed_append_singleton (hdup : drawn.Nodup) {r : CallResult} {index : Nat}
    (hindex : drawn[index]? = some r.correlationId)
    (hnone : firstFor? r.correlationId seen = none) :
    attributed drawn (seen ++ [r]) = (attributed drawn seen).set index (some r) := by
  obtain ⟨hlt, -⟩ := List.getElem?_eq_some_iff.1 hindex
  refine List.ext_getElem? fun place => ?_
  rw [List.getElem?_set, length_attributed, attributed, attributed, List.getElem?_map,
    List.getElem?_map]
  by_cases hplace : index = place
  · subst hplace
    rw [if_pos rfl, if_pos hlt, hindex, Option.map_some, firstFor?_append_singleton_self hnone]
  · rw [if_neg hplace]
    cases hid : drawn[place]? with
    | none => rfl
    | some id =>
      have hne : r.correlationId ≠ id := by
        rintro rfl
        exact hplace ((List.getElem?_inj hlt hdup).1 (hindex.trans hid.symm))
      rw [Option.map_some, Option.map_some, firstFor?_append_singleton_of fun _ => hne]

theorem mem_recorded_singleton {r x : CallResult} (hid : r.correlationId ∈ drawn)
    (hnone : firstFor? r.correlationId seen = none) : x ∈ recorded drawn seen [r] ↔ x = r := by
  simp only [mem_recorded, firstFor?_singleton]
  constructor
  · rintro ⟨id, -, -, hx⟩
    split at hx
    · exact (Option.some.inj hx).symm
    · cases hx
  · rintro rfl
    exact ⟨_, hid, hnone, if_pos rfl⟩

/-- A result whose id is pending fills the slot of its call and ends the wait for it. -/
theorem tallyAt_append_of_lookup_eq_some (hdup : drawn.Nodup) {r : CallResult} {index : Nat}
    (h : (awaited drawn (seen ++ batch)).lookup r.correlationId = some index) :
    tallyAt drawn seen (batch ++ [r]) =
      { pending := (awaited drawn (seen ++ batch)).filter (·.1 != r.correlationId)
        slots := (attributed drawn (seen ++ batch)).set index (some r)
        succeeded := (tallyAt drawn seen batch).succeeded || !r.isFailure
        failed := (tallyAt drawn seen batch).failed || r.isFailure } := by
  obtain ⟨hindex, hnone⟩ := lookup_awaited_eq_some h
  have hany : ∀ p : CallResult → Bool, (recorded drawn (seen ++ batch) [r]).any p = p r := by
    intro p
    rw [Bool.eq_iff_iff]
    simp [List.any_eq_true, mem_recorded_singleton (List.mem_of_getElem? hindex) hnone]
  simp only [tallyAt, ← List.append_assoc, awaited_append_singleton hnone,
    attributed_append_singleton hdup hindex hnone, any_recorded_append, hany]

/-- Recording a result is one more result delivered. -/
theorem record_tallyAt (hdup : drawn.Nodup) (r : CallResult) :
    (tallyAt drawn seen batch).record r = tallyAt drawn seen (batch ++ [r]) := by
  -- all that recording asks is whether the id is pending
  unfold Tally.record
  cases h : (tallyAt drawn seen batch).pending.lookup r.correlationId with
  | none => exact (tallyAt_append_of_lookup_eq_none h).symm
  | some index => exact (tallyAt_append_of_lookup_eq_some hdup h).symm

/-- Recording results one after another is all of them delivered. -/
theorem foldl_record_tallyAt (hdup : drawn.Nodup) (results : List CallResult) :
    results.foldl Tally.record (tallyAt drawn seen batch) =
      tallyAt drawn seen (batch ++ results) := by
  induction results generalizing batch with
  | nil => rw [List.foldl_nil, List.append_nil]
  | cons r rest ih =>
    rw [List.foldl_cons, record_tallyAt hdup, ih, List.append_assoc, List.singleton_append]

end Operation

end Resumable
