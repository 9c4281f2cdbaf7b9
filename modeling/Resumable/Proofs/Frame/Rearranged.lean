import Mathlib.Data.List.Forall2
import Mathlib.Data.List.Pairwise
import Mathlib.Data.List.Perm.Basic
import Mathlib.Logic.Function.Conjugate
import Resumable.Proofs.Frame.Records

/-!
# Rearranged records

A record may be written with its fields in another order, and with fields that it does not know
(`Frame.Rearranged`). It is read the same: reading a known field changes the record in a way that
does not depend on the fields before it, and such changes commute, as each is about a part of the
record of its own (`Frame.Perform.foldMap_eq`).
-/

namespace Resumable.Frame

open Wire

/-! ## Rearranged maps -/

/-- The fields that a record knows, each with a relation between items that say the same. -/
abbrev Known := String → Option (Item → Item → Prop)

/-- Fields of one known name whose items say the same. -/
def Alike (known : Known) (field other : String × Item) : Prop :=
  field.1 = other.1 ∧ ∃ alike, known field.1 = some alike ∧ alike field.2 other.2

/-- Maps of a record that say the same: the known fields of the one are in the other in any order,
among any fields of names that the record does not know. -/
def Rearranged (known : Known) (item other : Item) : Prop :=
  ∃ fields kept added rearranged, item = .map fields ∧ other = .map rearranged ∧
    List.Forall₂ (Alike known) fields kept ∧ (∀ field ∈ added, known field.1 = none) ∧
    rearranged.Perm (kept ++ added)

/-- Lists whose items say the same, one by one. -/
def Listed (alike : Item → Item → Prop) (item other : Item) : Prop :=
  ∃ items others, item = .list items ∧ other = .list others ∧ List.Forall₂ alike items others

/-- A record of fields that it knows, each with the item it had. -/
theorem Rearranged.same {known : Known} {fields : Fields}
    (h : ∀ field ∈ fields, ∃ alike, known field.1 = some alike ∧ alike field.2 field.2) :
    Rearranged known (.map fields) (.map fields) := by
  refine ⟨fields, fields, [], fields, rfl, rfl, ?_, List.forall_mem_nil _, ?_⟩
  · exact List.forall₂_same.2 fun field hfield => ⟨rfl, h field hfield⟩
  · rw [List.append_nil]

theorem Listed.same {alike : Item → Item → Prop} {items : List Item}
    (h : ∀ item ∈ items, alike item item) : Listed alike (.list items) (.list items) :=
  ⟨items, items, rfl, rfl, List.forall₂_same.2 h⟩

/-- The fields of a record in the opposite order, behind one that it does not know. -/
theorem Rearranged.backwards {known : Known} {fields rest : Fields} {field : String × Item}
    (hfield : known field.1 = none) (hrest : List.Forall₂ (Alike known) fields rest.reverse) :
    Rearranged known (.map fields) (.map (field :: rest)) := by
  refine ⟨fields, rest.reverse, [field], _, rfl, rfl, hrest, List.forall_mem_singleton.2 hfield, ?_⟩
  exact ((List.reverse_perm rest).symm.cons field).trans (List.perm_append_singleton _ _).symm

/-! ## Fields that act on a record -/

/-- Whatever item can be written is passed over. -/
theorem skipping_toBytes {σ : Type} {item : Item} (hw : item.Writable) (s : σ) :
    skipping s item.toBytes = .ok s := by
  have hskip : Cursor.skip.on item.toBytes = (.ok (), []) :=
    Cursor.skip_eq_ok_iff.2 ⟨item.toBytes, hw.delimited, (List.append_nil _).symm⟩
  exact bind_eq_ok_iff.2 ⟨(), reader_of_on hskip, rfl⟩

variable {σ : Type} {known : Known} {step : σ → String → Bytes → Except CodecError σ}

/-- What acts make of a record, one after the other. -/
def enact (acts : List (σ → σ)) (start : σ) : σ := acts.foldl (fun s act => act s) start

/-- What reading a field makes of any record, if its item can be written. -/
def Acts (step : σ → String → Bytes → Except CodecError σ) (field : String × Item) (act : σ → σ) :
    Prop :=
  field.2.Writable → ∀ s, step s field.1 field.2.toBytes = .ok (act s)

/-- What reading fields makes of any record, and any fields in their place that say the same. -/
def Perform (known : Known) (step : σ → String → Bytes → Except CodecError σ) (fields : Fields)
    (acts : List (σ → σ)) : Prop :=
  ∀ kept, List.Forall₂ (Alike known) fields kept → List.Forall₂ (Acts step) kept acts

namespace Perform

theorem nil : Perform known step [] [] := by
  intro kept hkept
  cases hkept
  exact .nil

theorem cons {name : String} {item : Item} {alike : Item → Item → Prop} {act : σ → σ}
    {rest : Fields} {acts : List (σ → σ)} (hknown : known name = some alike)
    (head : ∀ other, alike item other → other.Writable →
      ∀ s, step s name other.toBytes = .ok (act s))
    (tail : Perform known step rest acts) :
    Perform known step ((name, item) :: rest) (act :: acts) := by
  intro kept hkept
  obtain ⟨⟨name', other⟩, kept, ⟨hname, alike', hknown', halike⟩, hrest, rfl⟩ :=
    List.forall₂_cons_left_iff.1 hkept
  obtain rfl : name = name' := hname
  -- a known name allows one relation between items only
  obtain rfl : alike = alike' := Option.some.inj (hknown.symm.trans hknown')
  exact .cons (head other halike) (tail kept hrest)

theorem append {fields rest : Fields} {acts acts' : List (σ → σ)}
    (h : Perform known step fields acts) (h' : Perform known step rest acts') :
    Perform known step (fields ++ rest) (acts ++ acts') := by
  intro kept hkept
  -- the kept fields are split where the fields are
  have htake := List.forall₂_take fields.length hkept
  have hdrop := List.forall₂_drop fields.length hkept
  rw [List.take_left] at htake
  rw [List.drop_left] at hdrop
  rw [← List.take_append_drop fields.length kept]
  exact List.rel_append (h _ htake) (h' _ hdrop)

/-- A field whose item is as it was. -/
theorem same {name : String} {item : Item} {act : σ → σ} {rest : Fields} {acts : List (σ → σ)}
    (hknown : known name = some Eq)
    (head : item.Writable → ∀ s, step s name item.toBytes = .ok (act s))
    (tail : Perform known step rest acts) :
    Perform known step ((name, item) :: rest) (act :: acts) := by
  refine cons hknown ?_ tail
  rintro _ rfl
  exact head

/-- An optional field, which acts if it is there. -/
theorem optional {α : Type} {value : Option α} {name : String} {toItem : α → Item}
    {alike : Item → Item → Prop} (set : α → σ → σ) (hknown : known name = some alike)
    (h : ∀ a other, alike (toItem a) other → other.Writable →
      ∀ s, step s name other.toBytes = .ok (set a s)) :
    Perform known step (value.map fun a => (name, toItem a)).toList (value.map set).toList := by
  cases value with
  | none => exact nil
  | some a => exact cons hknown (h a) nil

/-- An optional field whose item may be lacking acts where it has one. -/
theorem optional_of_eq_ok {α : Type} {value : Option α} {name : String}
    {toItem : α → Except CodecError Item} {fields : Fields} {alike : Item → Item → Prop}
    (set : α → σ → σ) (hfields : Fields.optional name value toItem = .ok fields)
    (hknown : known name = some alike)
    (h : ∀ a item other, toItem a = .ok item → alike item other → other.Writable →
      ∀ s, step s name other.toBytes = .ok (set a s)) :
    Perform known step fields (value.map set).toList := by
  cases value with
  | none =>
    cases hfields
    exact nil
  | some a =>
    obtain ⟨item, hitem, hfields⟩ := bind_eq_ok_iff.1 hfields
    cases hfields
    exact cons hknown (fun other => h a item other hitem) nil

end Perform

/-- A fold over fields that act on any record applies the acts one after the other. -/
theorem folds_of_acts {fields : Fields} {acts : List (σ → σ)}
    (h : List.Forall₂ (Acts step) fields acts) (start : σ) :
    Folds step start fields (enact acts start) := by
  induction h generalizing start with
  | nil => exact .nil
  | cons head _ ih => exact .cons (fun hw => head hw start) (ih _)

theorem commute_iff {act act' : σ → σ} :
    Function.Commute act act' ↔ ∀ s, act (act' s) = act' (act s) := Iff.rfl

/-- Acts that commute come to the same in any order. -/
theorem enact_of_perm {acts acts' : List (σ → σ)} (hcommute : acts.Pairwise Function.Commute)
    (hperm : acts.Perm acts') (start : σ) : enact acts' start = enact acts start := by
  -- pairwise in one order is pairwise in any, as commuting is symmetric
  have hsymm : Std.Symm (Function.Commute : (σ → σ) → (σ → σ) → Prop) := ⟨fun _ _ h => h.symm⟩
  have hall := hcommute.forall_of_forall fun act _ => Function.Commute.refl act
  refine (hperm.foldl_eq' ?_ start).symm
  intro act hact act' hact' s
  exact hall hact' hact s

theorem enact_append (acts acts' : List (σ → σ)) (start : σ) :
    enact (acts ++ acts') start = enact acts' (enact acts start) := List.foldl_append

/-- Whether the fields that a record does not know are passed over. -/
def SkipsUnknown (known : Known) (step : σ → String → Bytes → Except CodecError σ) : Prop :=
  ∀ name, known name = none → ∀ s bs, step s name bs = skipping s bs

/-- Fields that are passed over leave any record as it is. -/
theorem SkipsUnknown.acts {added : Fields} (h : SkipsUnknown known step)
    (hadded : ∀ field ∈ added, known field.1 = none) :
    List.Forall₂ (Acts step) added (added.map fun _ => id) := by
  refine List.forall₂_map_right_iff.2 (List.forall₂_same.2 ?_)
  intro field hfield hw s
  rw [h field.1 (hadded field hfield)]
  exact skipping_toBytes hw s

theorem enact_id (added : Fields) (s : σ) : enact (added.map fun _ => id) s = s := by
  induction added with
  | nil => rfl
  | cons _ _ ih => exact ih

/-- A rearranged record is read as its fields act in the order in which they were before. -/
theorem Perform.foldMap_eq {fields : Fields} {other : Item} {start finish : σ}
    (acts : List (σ → σ)) (h : Perform known step fields acts)
    (hcommute : acts.Pairwise Function.Commute) (hskips : SkipsUnknown known step)
    (hfinish : enact acts start = finish)
    (hrearranged : Rearranged known (.map fields) other) (hw : other.Writable) :
    foldMap start step other.toBytes = .ok finish := by
  obtain ⟨_, kept, added, rearranged, hitem, rfl, hkept, hadded, hperm⟩ := hrearranged
  obtain rfl := Item.map.inj hitem
  -- the acts of the kept fields, then as many that do nothing, in the order of the fields
  obtain ⟨acts', hacts', hperm'⟩ :=
    List.perm_comp_forall₂ hperm (List.rel_append (h kept hkept) (hskips.acts hadded))
  have hall : (acts ++ added.map fun _ => id).Pairwise Function.Commute := by
    refine List.pairwise_append.2 ⟨hcommute, ?_, ?_⟩
    · exact List.pairwise_map.2 (List.pairwise_of_forall fun _ _ => Function.Commute.refl id)
    · intro act _ act' hact'
      obtain ⟨_, -, rfl⟩ := List.mem_map.1 hact'
      exact Function.Commute.id_right
  calc foldMap start step (Item.map rearranged).toBytes
      = .ok (enact acts' start) := (folds_of_acts hacts' start).foldMap_eq hw
    _ = .ok (enact (acts ++ added.map fun _ => id) start) := by
        rw [enact_of_perm hall hperm'.symm]
    _ = .ok finish := by rw [enact_append, hfinish, enact_id]

/-- A list of records is read as it was if each of them is, from any item that says the same. -/
theorem readList_listed {α : Type} {read : Reader α} {toItem : α → Except CodecError Item}
    {alike : Item → Item → Prop} {as : List α} {items : List Item} {other : Item}
    (hitems : as.mapM toItem = .ok items)
    (hread : ∀ a item other, toItem a = .ok item → alike item other → other.Writable →
      read other.toBytes = .ok a)
    (hlisted : Listed alike (.list items) other) (hw : other.Writable) :
    readList read other.toBytes = .ok as := by
  obtain ⟨_, others, hitem, rfl, halike⟩ := hlisted
  obtain rfl := Item.list.inj hitem
  refine readList_toBytes hw ?_
  have hothers := (Item.writable_list.1 hw).2
  clear hw hitem
  -- on the items in pairs, along with what they were written from
  induction halike generalizing as with
  | nil =>
    cases as with
    | nil => rfl
    | cons a as =>
      obtain ⟨item, items, h, -, -⟩ := mapM_cons_eq_ok_iff.1 hitems
      cases h
  | cons head _ ih =>
    cases as with
    | nil => cases hitems
    | cons a as =>
      obtain ⟨item, items, h, hitem, hitems⟩ := mapM_cons_eq_ok_iff.1 hitems
      cases h
      obtain ⟨hother, hothers⟩ := List.forall_mem_cons.1 hothers
      exact mapM_cons_eq_ok_iff.2 ⟨a, as, rfl, hread a _ _ hitem head hother, ih hitems hothers⟩

end Resumable.Frame
