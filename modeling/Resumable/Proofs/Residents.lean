import Mathlib.Data.List.Nodup
import Resumable.Proofs.Ids
import Resumable.Residents

/-!
# Tables of residents

What each operation does to the entries of a table, and what that means for finding them. A table
with room left gives a resident an id that is not in use (`register_fresh`): one of the next ids, one
more than there are entries, has to be free.
-/

namespace Resumable.Residents

variable {ρ : Type} {table : Residents ρ} {id other : UInt64} {resident r : ρ}
  {before after : List (UInt64 × ρ)}

/-- The ids in use. -/
def keys (table : Residents ρ) : List UInt64 := table.entries.map (·.1)

theorem contains_iff : table.contains id = true ↔ id ∈ table.keys := by
  simp [contains, keys]

/-! ## Finding -/

theorem find?_eq_none_iff : table.find? id = none ↔ id ∉ table.keys := by
  simp only [find?, keys, List.lookup_eq_none_iff, List.mem_map, bne_iff_ne, not_exists, not_and]
  exact forall₂_congr fun _ _ => ne_comm

theorem mem_of_find? (h : table.find? id = some r) : (id, r) ∈ table.entries := by
  obtain ⟨before, after, hentries, -⟩ := List.lookup_eq_some_iff.1 h
  simp [hentries]

/-- An id that stands in a table once is found with its resident. -/
theorem find?_of_entries (hentries : table.entries = before ++ (id, r) :: after)
    (hbefore : ∀ entry ∈ before, entry.1 ≠ id) : table.find? id = some r := by
  refine List.lookup_eq_some_iff.2 ⟨before, after, hentries, ?_⟩
  intro entry hentry
  exact bne_iff_ne.2 (hbefore entry hentry).symm

/-- Where no id is in use twice, every entry is found. -/
theorem find?_of_mem (hnodup : table.keys.Nodup) (h : (id, r) ∈ table.entries) :
    table.find? id = some r := by
  obtain ⟨before, after, hentries⟩ := List.append_of_mem h
  refine find?_of_entries hentries fun entry hentry hid => ?_
  rw [keys, hentries, List.map_append, List.nodup_append] at hnodup
  exact hnodup.2.2 entry.1 (List.mem_map_of_mem hentry) id (by simp) hid

theorem find_eq_ok_iff : table.find id = .ok r ↔ table.find? id = some r := by
  unfold find
  cases table.find? id <;> simp

theorem find_eq_error_iff {e : Failure.Nature} :
    table.find id = .error e ↔ table.find? id = none ∧ e = .noInstance id := by
  unfold find
  cases table.find? id <;> simp [eq_comm]

/-! ## Registering -/

/-- The number of ids that a table draws for a new resident. -/
def draws (table : Residents ρ) (ids : Ids) : Nat := ids.drawsFree table.contains table.size

theorem register_eq (table : Residents ρ) (resident : ρ) (ids : Ids) :
    table.register resident ids =
      (ids.nth (table.draws ids - 1),
        ⟨table.entries ++ [(ids.nth (table.draws ids - 1), resident)]⟩,
        ids.after (table.draws ids)) := by
  simp only [register, Ids.drawFree_eq, draws]

/-- Of as many ids in a row as there are entries and one more, one is not in use. -/
theorem exists_free (hsize : table.size < 2 ^ 64) (ids : Ids) :
    ∃ i ≤ table.size, ids.nth i ∉ table.keys := by
  by_contra hnone
  push Not at hnone
  -- otherwise the ids in use, which are no more than the entries, include one more than these
  have hdup := ids.nodup_drawMany (Nat.succ_le_of_lt hsize)
  have hsub : (ids.drawMany (table.size + 1)).1 ⊆ table.keys := by
    intro id hid
    rw [Ids.drawMany_eq, List.mem_map] at hid
    obtain ⟨i, hi, rfl⟩ := hid
    exact hnone i (Nat.le_of_lt_succ (List.mem_range.1 hi))
  have hlength := hdup.length_le_of_subset hsub
  rw [Ids.length_drawMany, keys, List.length_map] at hlength
  exact Nat.not_succ_le_self _ hlength

/-- A table with room left draws until an id is not in use, which it is at the latest when one more
is drawn than there are entries. -/
theorem register_seeks (hsize : table.size < 2 ^ 64) (resident : ρ) (ids : Ids) :
    ∃ count ≤ table.size + 1, ids.Seeks table.contains count
      ((table.register resident ids).1, (table.register resident ids).2.2) := by
  obtain ⟨i, hi, hfree⟩ := exists_free hsize ids
  rw [← contains_iff, Bool.not_eq_true] at hfree
  obtain ⟨count, hcount, hseeks⟩ := Ids.drawFree_seeks hi hfree
  exact ⟨count, Nat.le_trans hcount (Nat.succ_le_succ hi), hseeks⟩

/-- A table with room left enters a resident under an id that is not in use. -/
theorem register_fresh (hsize : table.size < 2 ^ 64) (resident : ρ) (ids : Ids) :
    (table.register resident ids).1 ∉ table.keys := by
  obtain ⟨count, -, hseeks⟩ := register_seeks hsize resident ids
  rw [← contains_iff, Bool.not_eq_true]
  exact hseeks.not_taken

/-! ## Replacing and erasing -/

theorem replace_entries (hentries : table.entries = before ++ (id, r) :: after)
    (hbefore : ∀ entry ∈ before, entry.1 ≠ id) (hafter : ∀ entry ∈ after, entry.1 ≠ id) :
    (table.replace id resident).entries = before ++ (id, resident) :: after := by
  have hkeep : ∀ entries : List (UInt64 × ρ), (∀ entry ∈ entries, entry.1 ≠ id) →
      entries.map (fun entry => if entry.1 == id then (id, resident) else entry) = entries := by
    intro entries hne
    refine (List.map_congr_left fun entry hentry => if_neg ?_).trans (List.map_id' entries)
    simpa using hne entry hentry
  rw [replace, hentries, List.map_append, List.map_cons, hkeep before hbefore, hkeep after hafter,
    if_pos (beq_self_eq_true id)]

/-- To put a resident back where it is changes nothing. -/
theorem replace_eq_self (hentries : table.entries = before ++ (id, r) :: after)
    (hbefore : ∀ entry ∈ before, entry.1 ≠ id) (hafter : ∀ entry ∈ after, entry.1 ≠ id) :
    table.replace id r = table :=
  congrArg Residents.mk ((replace_entries hentries hbefore hafter).trans hentries.symm)

theorem erase_entries (hentries : table.entries = before ++ (id, r) :: after)
    (hbefore : ∀ entry ∈ before, entry.1 ≠ id) (hafter : ∀ entry ∈ after, entry.1 ≠ id) :
    (table.erase id).entries = before ++ after := by
  have hkeep : ∀ entries : List (UInt64 × ρ), (∀ entry ∈ entries, entry.1 ≠ id) →
      entries.filter (·.1 != id) = entries := by
    intro entries hne
    refine List.filter_eq_self.2 fun entry hentry => ?_
    simpa using hne entry hentry
  simp [erase, hentries, hkeep before hbefore, hkeep after hafter]

/-! ## Finding after a change -/

/-- A resident is found under its id unless something else was there before, and nothing changes for
other ids. -/
theorem find?_register_eq (table : Residents ρ) (resident : ρ) (ids : Ids) (id : UInt64) :
    (table.register resident ids).2.1.find? id =
      (table.find? id).or (if id = (table.register resident ids).1 then some resident else none) := by
  show List.lookup id (table.entries ++ [((table.register resident ids).1, resident)]) = _
  rw [List.lookup_append, List.lookup_cons]
  split
  · rename_i hid
    rw [if_pos (beq_iff_eq.1 hid)]
    rfl
  · rename_i hid
    rw [if_neg (ne_of_beq_false hid)]
    rfl

theorem find?_register (h : table.find? id = some r) (resident : ρ) (ids : Ids) :
    (table.register resident ids).2.1.find? id = some r := by
  rw [find?_register_eq, h, Option.some_or]

/-- What is found after a registration was there before, or has just been entered. -/
theorem find?_register_cases {ids : Ids} (h : (table.register resident ids).2.1.find? id = some r) :
    table.find? id = some r ∨ r = resident := by
  rw [find?_register_eq, Option.or_eq_some_iff] at h
  rcases h with h | ⟨-, h⟩
  · exact .inl h
  · split at h
    · exact .inr (Option.some.inj h).symm
    · cases h

theorem find?_register_of_ne (resident : ρ) {ids : Ids}
    (h : other ≠ (table.register resident ids).1) :
    (table.register resident ids).2.1.find? other = table.find? other := by
  rw [find?_register_eq, if_neg h, Option.or_none]

/-- A table with room left has the resident that it has entered. -/
theorem find?_register_self (hsize : table.size < 2 ^ 64) (resident : ρ) (ids : Ids) :
    (table.register resident ids).2.1.find? (table.register resident ids).1 = some resident := by
  rw [find?_register_eq, find?_eq_none_iff.2 (register_fresh hsize resident ids), if_pos rfl,
    Option.none_or]

theorem find?_erase_self (table : Residents ρ) (id : UInt64) : (table.erase id).find? id = none := by
  rw [find?_eq_none_iff, keys, List.mem_map]
  rintro ⟨entry, hentry, rfl⟩
  simpa using (List.mem_filter.1 hentry).2

theorem find?_erase_of_ne (h : other ≠ id) : (table.erase id).find? other = table.find? other := by
  obtain ⟨entries⟩ := table
  show (entries.filter (·.1 != id)).lookup other = entries.lookup other
  induction entries with
  | nil => rfl
  | cons entry rest ih =>
    obtain ⟨key, r⟩ := entry
    rw [List.filter_cons]
    split
    · rw [List.lookup_cons, List.lookup_cons, ih]
    · rename_i hkey
      have hkey : other ≠ key := by
        have hid : key = id := by simpa using hkey
        rwa [hid]
      rw [ih, List.lookup_cons, beq_false_of_ne hkey]

theorem find?_replace_self (h : table.find? id = some r) (resident : ρ) :
    (table.replace id resident).find? id = some resident := by
  obtain ⟨entries⟩ := table
  change entries.lookup id = some r at h
  show (entries.map fun entry => if entry.1 == id then (id, resident) else entry).lookup id = _
  induction entries with
  | nil => cases h
  | cons entry rest ih =>
    obtain ⟨key, r'⟩ := entry
    rw [List.map_cons]
    split
    · rw [List.lookup_cons, beq_self_eq_true]
    · rename_i hkey
      have hne : (id == key) = false := beq_false_of_ne fun heq => hkey (by simp [heq])
      rw [List.lookup_cons, hne] at h ⊢
      exact ih h

theorem find?_replace_of_ne (h : other ≠ id) (resident : ρ) :
    (table.replace id resident).find? other = table.find? other := by
  obtain ⟨entries⟩ := table
  show (entries.map fun entry => if entry.1 == id then (id, resident) else entry).lookup other =
    entries.lookup other
  induction entries with
  | nil => rfl
  | cons entry rest ih =>
    obtain ⟨key, r⟩ := entry
    rw [List.map_cons]
    split
    · rename_i hkey
      have hid : key = id := by simpa using hkey
      rw [List.lookup_cons, List.lookup_cons, ih, hid, beq_false_of_ne h]
    · rw [List.lookup_cons, List.lookup_cons, ih]

end Resumable.Residents
