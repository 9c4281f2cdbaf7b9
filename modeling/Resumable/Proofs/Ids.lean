import Mathlib.Algebra.Group.Nat.Defs
import Mathlib.Data.List.Nodup
import Resumable.Ids

/-!
# Drawn identifiers

A generator gives consecutive identifiers: `drawMany_eq` names each of them by its place, `nth`, and
the generator afterwards. The range wraps around, but 2^64 draws in a row are pairwise different
(`nodup_drawMany`), and the draws of two users of one generator are those of one (`drawMany_add`).
A draw that passes over taken identifiers is a run of plain draws too (`drawFree_eq`), and it ends
at the first free one if there is one within reach (`drawFree_seeks`).
-/

namespace Resumable.Ids

/-- The identifier that is drawn after `i` others. -/
def nth (ids : Ids) (i : Nat) : UInt64 := ids.upcoming + UInt64.ofNat i

/-- The generator after so many draws. -/
def after (ids : Ids) (count : Nat) : Ids := ⟨ids.nth count⟩

@[simp] theorem nth_zero (ids : Ids) : ids.nth 0 = ids.upcoming := UInt64.add_zero _

@[simp] theorem after_zero (ids : Ids) : ids.after 0 = ids := by simp [after]

@[simp] theorem nth_after (ids : Ids) (m i : Nat) : (ids.after m).nth i = ids.nth (m + i) := by
  simp [nth, after, UInt64.add_assoc]

@[simp] theorem after_after (ids : Ids) (m n : Nat) :
    (ids.after m).after n = ids.after (m + n) := by
  show (⟨(ids.after m).nth n⟩ : Ids) = _
  rw [nth_after]
  rfl

theorem draw_eq (ids : Ids) : ids.draw = (ids.nth 0, ids.after 1) := by
  simp [draw, after, nth]

/-- Draws in a row are the first identifiers by their places. -/
theorem drawMany_eq (count : Nat) (ids : Ids) :
    ids.drawMany count = ((List.range count).map ids.nth, ids.after count) := by
  induction count generalizing ids with
  | zero => simp [drawMany]
  | succ count ih =>
    simp only [drawMany, draw_eq, ih, after_after, List.range_succ_eq_map, List.map_cons,
      List.map_map, Nat.add_comm 1 count]
    congr 3
    funext i
    simp [Nat.add_comm 1 i]

theorem drawMany_add (m n : Nat) (ids : Ids) :
    (ids.drawMany (m + n)).1 = (ids.drawMany m).1 ++ ((ids.after m).drawMany n).1 := by
  simp only [drawMany_eq, List.range_add, List.map_append, List.map_map]
  congr 2
  funext i
  simp

theorem drawMany_subset {m n : Nat} (h : m ≤ n) (ids : Ids) :
    (ids.drawMany m).1 ⊆ (ids.drawMany n).1 := by
  obtain ⟨k, rfl⟩ := Nat.exists_eq_add_of_le h
  rw [drawMany_add]
  exact List.subset_append_left _ _

@[simp] theorem length_drawMany (count : Nat) (ids : Ids) :
    (ids.drawMany count).1.length = count := by
  simp [drawMany_eq]

theorem getElem?_drawMany {count i : Nat} (ids : Ids) (hi : i < count) :
    (ids.drawMany count).1[i]? = some (ids.nth i) := by
  simp [drawMany_eq, hi]

/-- Places less than 2^64 apart have different identifiers, also where the range wraps around. -/
theorem nth_inj {i j : Nat} (ids : Ids) (hi : i < 2 ^ 64) (hj : j < 2 ^ 64)
    (h : ids.nth i = ids.nth j) : i = j := by
  -- where the generator stands cancels, and a place below 2^64 is determined by its word
  have hofNat : UInt64.ofNat i = UInt64.ofNat j := (UInt64.add_right_inj ids.upcoming).1 h
  have htoNat := congrArg UInt64.toNat hofNat
  rwa [UInt64.toNat_ofNat_of_lt' hi, UInt64.toNat_ofNat_of_lt' hj] at htoNat

/-- Up to 2^64 draws in a row never repeat an identifier. -/
theorem nodup_drawMany {count : Nat} (ids : Ids) (hcount : count ≤ 2 ^ 64) :
    (ids.drawMany count).1.Nodup := by
  rw [drawMany_eq]
  refine List.Nodup.map_on ?_ List.nodup_range
  intro i hi j hj h
  rw [List.mem_range] at hi hj
  exact ids.nth_inj (Nat.lt_of_lt_of_le hi hcount) (Nat.lt_of_lt_of_le hj hcount) h

/-! ## Draws that pass over taken identifiers -/

/-- The number of identifiers that `drawFree` draws. -/
def drawsFree (taken : UInt64 → Bool) : (retries : Nat) → Ids → Nat
  | 0, _ => 1
  | retries + 1, ids =>
    if taken ids.draw.1 then drawsFree taken retries ids.draw.2 + 1 else 1

theorem drawsFree_pos (taken : UInt64 → Bool) (retries : Nat) (ids : Ids) :
    0 < drawsFree taken retries ids := by
  cases retries with
  | zero => exact Nat.one_pos
  | succ retries =>
    unfold drawsFree
    split
    · exact Nat.succ_pos _
    · exact Nat.one_pos

/-- Passing over taken identifiers gives the last one drawn. -/
theorem drawFree_eq (taken : UInt64 → Bool) (retries : Nat) (ids : Ids) :
    drawFree taken retries ids =
      (ids.nth (drawsFree taken retries ids - 1), ids.after (drawsFree taken retries ids)) := by
  induction retries generalizing ids with
  | zero => simp [drawFree, drawsFree, draw_eq]
  | succ retries ih =>
    unfold drawFree drawsFree
    split
    · -- the retry draws at least once, so that one more draw before it shifts the last place
      have hpos := drawsFree_pos taken retries ids.draw.2
      rw [ih, draw_eq, nth_after, after_after]
      rw [draw_eq] at hpos
      congr 2 <;> omega
    · simp [draw_eq]

/-- `Seeks taken ids count result` says that drawing one identifier after the other until one is not
taken comes to an end: after `count` draws, with that identifier and the generator behind it. -/
inductive Seeks (taken : UInt64 → Bool) : Ids → Nat → UInt64 × Ids → Prop
  | free {ids : Ids} : taken ids.draw.1 = false → Seeks taken ids 1 ids.draw
  | again {ids : Ids} {count : Nat} {result : UInt64 × Ids} :
      taken ids.draw.1 = true → Seeks taken ids.draw.2 count result →
      Seeks taken ids (count + 1) result

theorem Seeks.not_taken {taken : UInt64 → Bool} {ids : Ids} {count : Nat} {result : UInt64 × Ids}
    (h : Seeks taken ids count result) : taken result.1 = false := by
  induction h with
  | free hfree => exact hfree
  | again _ _ ih => exact ih

/-- Where there is a free identifier within reach, the bound on the draws is not felt: drawing goes
on until one is free. -/
theorem drawFree_seeks {taken : UInt64 → Bool} {retries i : Nat} {ids : Ids} (hi : i ≤ retries)
    (hfree : taken (ids.nth i) = false) :
    ∃ count ≤ i + 1, Seeks taken ids count (drawFree taken retries ids) := by
  induction retries generalizing ids i with
  | zero =>
    obtain rfl := Nat.le_zero.1 hi
    exact ⟨1, Nat.le_refl 1, .free (by rwa [draw_eq])⟩
  | succ retries ih =>
    unfold drawFree
    split
    · rename_i htaken
      cases i with
      | zero =>
        rw [draw_eq, hfree] at htaken
        cases htaken
      | succ i =>
        have hfree' : taken (ids.draw.2.nth i) = false := by
          simpa [draw_eq, Nat.add_comm 1 i] using hfree
        obtain ⟨count, hcount, hseeks⟩ := ih (Nat.le_of_succ_le_succ hi) hfree'
        exact ⟨count + 1, Nat.succ_le_succ hcount, .again htaken hseeks⟩
    · rename_i htaken
      exact ⟨1, Nat.le_add_left 1 i, .free (by simpa using htaken)⟩

end Resumable.Ids
