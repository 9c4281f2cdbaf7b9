import Mathlib.Data.List.Perm.Subperm
import Resumable.Tree.Keyed

/-!
# Values under keys as lists

The fields of a map are in the order of their keys (`Keyed.pairwise_toList`), and put in one by one
they give the map again (`Keyed.ofList_toList`). Of a list of fields a map keeps some, each as often
as it was given at most (`Keyed.subperm_ofList`).
-/

namespace Resumable.Keyed

open scoped List

variable {α : Type} {after : Option String} {key : String} {value : α}

theorem lt_of_mem_toList {fields : Keyed α after} {field : String × α}
    (h : field ∈ fields.toList) : ∀ before ∈ after, before < field.1 := by
  induction fields with
  | nil => cases h
  | cons key value lt rest ih =>
    rcases List.mem_cons.1 h with rfl | h
    · exact lt
    · intro before hbefore
      exact String.lt_trans (lt before hbefore) (ih h key rfl)

/-- The fields stand in the order of their keys. -/
theorem pairwise_toList (fields : Keyed α after) :
    fields.toList.Pairwise fun a b => a.1 < b.1 := by
  induction fields with
  | nil => exact .nil
  | cons key value lt rest ih =>
    exact .cons (fun field hfield => lt_of_mem_toList hfield key rfl) ih

theorem toList_injective {fields others : Keyed α after} (h : fields.toList = others.toList) :
    fields = others := by
  induction fields with
  | nil =>
    cases others with
    | nil => rfl
    | cons => cases h
  | cons key value lt rest ih =>
    cases others with
    | nil => cases h
    | cons key' value' lt' rest' =>
      obtain ⟨hfield, hrest⟩ := List.cons.inj h
      cases hfield
      rw [ih hrest]

/-- A field whose key comes after all others goes to the end. -/
theorem toList_insert_of_lt {lt : ∀ before ∈ after, before < key} {fields : Keyed α after}
    (h : ∀ field ∈ fields.toList, field.1 < key) :
    (fields.insert key value lt).toList = fields.toList ++ [(key, value)] := by
  induction fields with
  | nil => rfl
  | cons k v ltk rest ih =>
    obtain ⟨hlt, hrest⟩ := List.forall_mem_cons.1 h
    have hne : ¬key = k := fun heq => String.lt_irrefl _ (heq ▸ hlt)
    rw [insert, dif_neg (String.lt_asymm hlt), dif_neg hne, toList, ih hrest]
    rfl

theorem toList_foldl_add {before : Keyed α none} {fields : List (String × α)}
    (h : (before.toList ++ fields).Pairwise fun a b => a.1 < b.1) :
    (fields.foldl add before).toList = before.toList ++ fields := by
  induction fields generalizing before with
  | nil => exact (List.append_nil _).symm
  | cons field rest ih =>
    -- the next field has the last of the keys so far
    have hlast : (before.add field).toList = before.toList ++ [field] := by
      apply toList_insert_of_lt
      intro other hother
      exact (List.pairwise_append.1 h).2.2 other hother field List.mem_cons_self
    rw [List.append_cons, ← hlast] at h
    rw [List.foldl_cons, ih h, hlast, ← List.append_cons]

/-- The fields of a map, put in one by one, give the map. -/
theorem ofList_toList (fields : Keyed α none) : ofList fields.toList = fields :=
  toList_injective (toList_foldl_add (pairwise_toList fields : (toList nil ++ _).Pairwise _))

/-- A field is put in, and at most takes the place of another. -/
theorem subperm_insert {lt : ∀ before ∈ after, before < key} (fields : Keyed α after) :
    (fields.insert key value lt).toList <+~ (key, value) :: fields.toList := by
  induction fields with
  | nil => exact List.Subperm.refl _
  | cons k v ltk rest ih =>
    rw [insert]
    split
    · exact List.Subperm.refl _
    · split
      · rename_i heq
        subst heq
        exact ((List.sublist_cons_self _ _).cons_cons _).subperm
      · -- behind the first field, which the new one would have to pass
        exact ((List.subperm_cons (k, v)).2 ih).trans (List.Perm.swap _ _ _).subperm

theorem subperm_foldl_add (before : Keyed α none) (fields : List (String × α)) :
    (fields.foldl add before).toList <+~ before.toList ++ fields := by
  induction fields generalizing before with
  | nil => exact (List.append_nil _).symm ▸ List.Subperm.refl _
  | cons field rest ih =>
    refine (ih _).trans (((List.subperm_append_right rest).2 (subperm_insert before)).trans ?_)
    exact List.perm_middle.symm.subperm

/-- A map keeps some of the fields that it is built of. -/
theorem subperm_ofList (fields : List (String × α)) : (ofList fields).toList <+~ fields :=
  subperm_foldl_add nil fields

end Resumable.Keyed
