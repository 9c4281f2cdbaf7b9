import Mathlib.Data.List.Induction
import Mathlib.Data.List.Infix
import Resumable.Proofs.Residents

/-!
# Histories of a table

Users of a table enter residents, look for them, remove them and close the table, while others draw
from the same generator (`Registry.run`). What the table holds at any time is what its history says
(`Registry.Faithful`): a resident stands under an id if it was the last to be entered there, and the
id has not been deleted nor the table closed since (`Standing`). What each operation does then is
read off the history (`Registry.run_lawful`).
-/

namespace Resumable.Residents

/-- What the users of a table and of its generator do. -/
inductive Access (ρ : Type) where
  /-- An id is drawn for something else. -/
  | draw
  | register (resident : ρ)
  | find (id : UInt64)
  | delete (id : UInt64)
  | close

/-- What has been done, with what came of it. -/
inductive Event (ρ : Type) where
  | drawn (id : UInt64)
  | registered (resident : ρ) (id : UInt64)
  | found (id : UInt64) (answer : Except Failure.Nature ρ)
  | deleted (id : UInt64) (resident? : Option ρ)
  /-- The table was closed, and these residents were terminated. -/
  | closed (terminated : List ρ)

/-- A table with the generator that it shares. -/
structure Registry (ρ : Type) where
  table : Residents ρ
  ids : Ids

variable {ρ : Type}

namespace Registry

/-- An empty table with a generator whose first identifier is given. -/
def startingAt (first : UInt64) : Registry ρ := ⟨.empty, .startingAt first⟩

/-- Does what an access asks for. -/
def perform (s : Registry ρ) : Access ρ → Event ρ × Registry ρ
  | .draw => (.drawn s.ids.draw.1, { s with ids := s.ids.draw.2 })
  | .register resident =>
    let (id, table, ids) := s.table.register resident s.ids
    (.registered resident id, ⟨table, ids⟩)
  | .find id => (.found id (s.table.find id), s)
  | .delete id =>
    let (resident?, table) := s.table.delete id
    (.deleted id resident?, { s with table })
  | .close =>
    let (terminated, table) := s.table.close
    (.closed terminated, { s with table })

/-- Does what one access after the other asks for: what has been done, and the registry then. -/
def run (s : Registry ρ) (accesses : List (Access ρ)) : List (Event ρ) × Registry ρ :=
  accesses.foldl (fun (events, s) access =>
    (events ++ [(s.perform access).1], (s.perform access).2)) ([], s)

theorem run_append_singleton (s : Registry ρ) (accesses : List (Access ρ)) (access : Access ρ) :
    s.run (accesses ++ [access]) =
      ((s.run accesses).1 ++ [((s.run accesses).2.perform access).1],
        ((s.run accesses).2.perform access).2) := by
  rw [run, List.foldl_append]
  rfl

end Registry

/-! ## What stands -/

/-- Whether an event gives an id to a resident. -/
def Event.Registers (id : UInt64) : Event ρ → Prop
  | registered _ id' => id' = id
  | _ => False

/-- Whether an event puts an end to what stood under an id. -/
def Event.Touches (id : UInt64) : Event ρ → Prop
  | registered _ id' | deleted id' _ => id' = id
  | closed _ => True
  | drawn _ | found _ _ => False

/-- Whether a resident was the last to be given an id, which has not been deleted nor the table
closed since. -/
def Standing (events : List (Event ρ)) (id : UInt64) (resident : ρ) : Prop :=
  ∃ before after, events = before ++ .registered resident id :: after ∧
    ∀ event ∈ after, ¬event.Touches id

/-- Whether an id was deleted and has not been given again. -/
def Deleted (events : List (Event ρ)) (id : UInt64) : Prop :=
  ∃ before resident? after, events = before ++ .deleted id resident? :: after ∧
    ∀ event ∈ after, ¬event.Registers id

theorem standing_nil (id : UInt64) (resident : ρ) : ¬Standing [] id resident := by
  rintro ⟨before, after, h, -⟩
  simp at h

theorem standing_append_singleton {events : List (Event ρ)} {event : Event ρ} {id : UInt64}
    {resident : ρ} : Standing (events ++ [event]) id resident ↔
      event = .registered resident id ∨ ¬event.Touches id ∧ Standing events id resident := by
  constructor
  · rintro ⟨before, after, h, hafter⟩
    rcases List.eq_nil_or_concat after with rfl | ⟨rest, last, rfl⟩
    · exact .inl (List.append_inj_right' h rfl |> List.singleton_inj.1)
    · right
      rw [List.concat_eq_append] at h hafter
      rw [← List.cons_append, ← List.append_assoc] at h
      obtain ⟨rfl, hlast⟩ := List.append_inj' h rfl
      obtain rfl := List.singleton_inj.1 hlast
      refine ⟨hafter _ (by simp), before, rest, rfl, fun e he => hafter e (by simp [he])⟩
  · rintro (rfl | ⟨hevent, before, after, rfl, hafter⟩)
    · exact ⟨events, [], rfl, nofun⟩
    · refine ⟨before, after ++ [event], by simp, ?_⟩
      intro e he
      rcases List.mem_append.1 he with he | he
      · exact hafter e he
      · rwa [List.mem_singleton.1 he]

/-- What touches no id leaves standing what stood. -/
theorem standing_append_of_untouched {events : List (Event ρ)} {event : Event ρ} {id : UInt64}
    {resident : ρ} (h : ∀ id, ¬event.Touches id) :
    Standing (events ++ [event]) id resident ↔ Standing events id resident := by
  rw [standing_append_singleton, and_iff_right (h id), or_iff_right]
  rintro rfl
  exact h id rfl

/-- Nothing stands under a deleted id. -/
theorem Deleted.not_standing {events : List (Event ρ)} {id : UInt64} (h : Deleted events id)
    (resident : ρ) : ¬Standing events id resident := by
  obtain ⟨before, resident?, after, hevents, hafter⟩ := h
  rintro ⟨before', after', hevents', hafter'⟩
  -- the later of the deletion and the registration is behind the other
  rcases List.append_eq_append_iff.1 (hevents'.symm.trans hevents) with
    ⟨between, -, hrest⟩ | ⟨between, -, hrest⟩
  · cases between with
    | nil => cases hrest
    | cons event between =>
      obtain ⟨-, rfl⟩ := List.cons.inj hrest
      exact hafter' (.deleted id resident?) (by simp) rfl
  · cases between with
    | nil => cases hrest
    | cons event between =>
      obtain ⟨-, rfl⟩ := List.cons.inj hrest
      exact hafter (.registered resident id) (by simp) rfl

/-! ## Tables and their histories -/

namespace Registry

/-- Whether a table holds what its history says, under each id once. -/
structure Faithful (s : Registry ρ) (events : List (Event ρ)) : Prop where
  nodup : s.table.keys.Nodup
  find?_iff : ∀ id resident, s.table.find? id = some resident ↔ Standing events id resident

variable {s : Registry ρ} {events : List (Event ρ)}

theorem faithful_startingAt (first : UInt64) : (startingAt first : Registry ρ).Faithful [] where
  nodup := List.nodup_nil
  find?_iff id resident := iff_of_false nofun (standing_nil id resident)

theorem Faithful.register (h : s.Faithful events) (hroom : s.table.size < 2 ^ 64) (resident : ρ) :
    (s.perform (.register resident)).2.Faithful
      (events ++ [(s.perform (.register resident)).1]) := by
  have hfresh := register_fresh hroom resident s.ids
  refine ⟨?_, fun id r => ?_⟩
  · show ((s.table.entries ++ [((s.table.register resident s.ids).1, resident)]).map (·.1)).Nodup
    rw [List.map_append, List.nodup_append]
    refine ⟨h.nodup, List.nodup_singleton _, ?_⟩
    -- the ids that are in use stay apart, because the new one is none of them
    rintro id hid other hother rfl
    obtain rfl := List.mem_singleton.1 hother
    exact hfresh hid
  · rw [standing_append_singleton, ← h.find?_iff]
    show (s.table.register resident s.ids).2.1.find? id = some r ↔
      Event.registered resident (s.table.register resident s.ids).1 = .registered r id ∨
        ¬(s.table.register resident s.ids).1 = id ∧ _
    by_cases hid : id = (s.table.register resident s.ids).1
    · subst hid
      rw [find?_register_self hroom]
      simp
    · rw [find?_register_of_ne resident hid]
      simp [Ne.symm hid]

theorem Faithful.delete (h : s.Faithful events) (id : UInt64) :
    (s.perform (.delete id)).2.Faithful (events ++ [(s.perform (.delete id)).1]) := by
  refine ⟨h.nodup.sublist (List.filter_sublist.map _), fun other r => ?_⟩
  rw [standing_append_singleton, ← h.find?_iff]
  show (s.table.erase id).find? other = some r ↔
    Event.deleted id (s.table.find? id) = .registered r other ∨ ¬id = other ∧ _
  by_cases hid : other = id
  · subst hid
    simp [find?_erase_self]
  · simp [find?_erase_of_ne hid, Ne.symm hid]

theorem faithful_close (s : Registry ρ) (events : List (Event ρ)) :
    (s.perform .close).2.Faithful (events ++ [(s.perform .close).1]) := by
  refine ⟨List.nodup_nil, fun id r => iff_of_false nofun ?_⟩
  rw [standing_append_singleton]
  rintro (hregistered | ⟨htouches, -⟩)
  · cases hregistered
  · exact htouches trivial

theorem Faithful.append_of_untouched (h : s.Faithful events) {event : Event ρ}
    (hevent : ∀ id, ¬event.Touches id) {ids : Ids} :
    ({ s with ids } : Registry ρ).Faithful (events ++ [event]) where
  nodup := h.nodup
  find?_iff id r := (h.find?_iff id r).trans (standing_append_of_untouched hevent).symm

/-- What is done to a table is what its history then says. -/
theorem Faithful.perform (h : s.Faithful events) (hroom : s.table.size < 2 ^ 64)
    (access : Access ρ) :
    (s.perform access).2.Faithful (events ++ [(s.perform access).1]) := by
  cases access with
  | draw =>
    refine h.append_of_untouched ?_
    exact fun _ => not_false
  | register resident => exact h.register hroom resident
  | find id =>
    refine h.append_of_untouched ?_
    exact fun _ => not_false
  | delete id => exact h.delete id
  | close => exact faithful_close s events

/-- A table holds what its history says after any run in which it has room left. -/
theorem faithful_run (first : UInt64) (accesses : List (Access ρ))
    (hroom : ∀ before, before <+: accesses →
      ((startingAt first : Registry ρ).run before).2.table.size < 2 ^ 64) :
    ((startingAt first : Registry ρ).run accesses).2.Faithful
      ((startingAt first).run accesses).1 := by
  -- on the accesses from the last one: there is room before it, since that is a prefix of the run
  induction accesses using List.reverseRec with
  | nil => exact faithful_startingAt first
  | append_singleton accesses access ih =>
    have hprefix : accesses <+: accesses ++ [access] := List.prefix_append accesses [access]
    rw [run_append_singleton]
    exact (ih fun before hbefore => hroom before (hbefore.trans hprefix)).perform
      (hroom accesses hprefix) access

/-! ## What the operations do -/

theorem Faithful.find_eq_ok_iff (h : s.Faithful events) (id : UInt64) (r : ρ) :
    s.table.find id = .ok r ↔ Standing events id r :=
  Residents.find_eq_ok_iff.trans (h.find?_iff id r)

theorem Faithful.find?_eq_none_iff (h : s.Faithful events) (id : UInt64) :
    s.table.find? id = none ↔ ∀ r, ¬Standing events id r := by
  simp only [← h.find?_iff, Option.eq_none_iff_forall_ne_some, ne_eq]

theorem Faithful.mem_keys_iff (h : s.Faithful events) (id : UInt64) :
    id ∈ s.table.keys ↔ ∃ r, Standing events id r := by
  rw [← not_iff_not, ← Residents.find?_eq_none_iff, h.find?_eq_none_iff, not_exists]

/-- The residents that a closing table terminates are those that stand, each under its id. -/
theorem Faithful.forall₂_close (h : s.Faithful events) :
    List.Forall₂ (Standing events) s.table.keys s.table.close.1 := by
  rw [keys, Residents.close, List.forall₂_map_left_iff, List.forall₂_map_right_iff,
    List.forall₂_same]
  intro entry hentry
  exact (h.find?_iff _ _).1 (find?_of_mem h.nodup hentry)

/-- What each operation does after any run of a table that has had room left. A registration goes on
drawing until an id is not in use, within one draw more than there are entries, and changes nothing
under other ids. An id is found with the resident that stands under it, and is not found where none
does. A deletion returns that resident, and none if the id was deleted already. Closing terminates
the residents that stand, one for each of their ids, and leaves nothing behind. -/
theorem run_lawful (first : UInt64) (accesses : List (Access ρ))
    (hroom : ∀ before, before <+: accesses →
      ((startingAt first : Registry ρ).run before).2.table.size < 2 ^ 64) :
    let (events, s) := (startingAt first : Registry ρ).run accesses
    (∀ resident,
      let (id, table, ids) := s.table.register resident s.ids
      (∃ count ≤ s.table.size + 1, s.ids.Seeks s.table.contains count (id, ids)) ∧
        s.table.contains id = false ∧ table.find id = .ok resident ∧
        ∀ other, other ≠ id → table.find other = s.table.find other) ∧
    (∀ id, (∀ r, s.table.find id = .ok r ↔ Standing events id r) ∧
      ∀ e, s.table.find id = .error e ↔ e = .noInstance id ∧ ∀ r, ¬Standing events id r) ∧
    (∀ id, (∀ r, (s.table.delete id).1 = some r ↔ Standing events id r) ∧
      (Deleted events id → (s.table.delete id).1 = none)) ∧
    s.table.close.2 = .empty ∧ ∃ ids : List UInt64, ids.Nodup ∧
      (∀ id, id ∈ ids ↔ ∃ r, Standing events id r) ∧
      List.Forall₂ (Standing events) ids s.table.close.1 ∧
      ∀ id, Deleted events id → id ∉ ids := by
  have h := faithful_run first accesses hroom
  have hsize := hroom accesses List.prefix_rfl
  generalize hrun : (startingAt first : Registry ρ).run accesses = out at h hsize
  obtain ⟨events, s⟩ := out
  refine ⟨fun resident => ⟨register_seeks hsize resident s.ids, ?_, ?_, ?_⟩, ?_, ?_, rfl,
    s.table.keys, h.nodup, h.mem_keys_iff, h.forall₂_close, ?_⟩
  · rw [← Bool.not_eq_true, contains_iff]
    exact register_fresh hsize resident s.ids
  · exact Residents.find_eq_ok_iff.2 (find?_register_self hsize resident s.ids)
  · intro other hother
    have hfind? := find?_register_of_ne resident hother
    show (s.table.register resident s.ids).2.1.find other = s.table.find other
    simp only [find, hfind?]
  · intro id
    refine ⟨h.find_eq_ok_iff id, fun e => ?_⟩
    rw [find_eq_error_iff, h.find?_eq_none_iff, and_comm]
  · exact fun id => ⟨h.find?_iff id, fun hid => (h.find?_eq_none_iff id).2 hid.not_standing⟩
  · intro id hid hmem
    obtain ⟨r, hr⟩ := (h.mem_keys_iff id).1 hmem
    exact hid.not_standing r hr

/-- Around the end of the range: the second resident is given the id 1, behind a draw of another. -/
theorem run_lawful_around_end :
    let accesses : List (Access String) :=
      [.register "first", .draw, .register "second", .delete 0xFFFFFFFFFFFFFFFF]
    let (events, s) := (startingAt 0xFFFFFFFFFFFFFFFF).run accesses
    (∀ before, before <+: accesses →
      ((startingAt 0xFFFFFFFFFFFFFFFF : Registry String).run before).2.table.size < 2 ^ 64) ∧
      Standing events 1 "second" ∧ (∀ r, ¬Standing events 0xFFFFFFFFFFFFFFFF r) ∧
      ∃ count ≤ 2, s.ids.Seeks s.table.contains count (2, .startingAt 3) := by
  intro accesses
  have hroom : ∀ before, before <+: accesses →
      ((startingAt 0xFFFFFFFFFFFFFFFF : Registry String).run before).2.table.size < 2 ^ 64 := by
    simp only [← List.mem_inits]
    decide
  obtain ⟨hregister, hfind, -⟩ := run_lawful 0xFFFFFFFFFFFFFFFF accesses hroom
  exact ⟨hroom, ((hfind 1).1 "second").1 rfl,
    (((hfind 0xFFFFFFFFFFFFFFFF).2 (.noInstance 0xFFFFFFFFFFFFFFFF)).1 rfl).2,
    (hregister "third").1⟩

end Registry

end Resumable.Residents
