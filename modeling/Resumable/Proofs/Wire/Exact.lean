import Resumable.Proofs.Wire.Writable

/-!
# Reads that take one item

A read is exact if it succeeds only where a whole item stands, takes this item, and answers the same
whatever stands behind it (`Read.Exact`). No item starts another one (`Delimited.append_inj`), so
that what an exact read takes is settled by the bytes that it takes.
-/

namespace Resumable.Wire

/-- Bytes start with one item at most. -/
theorem Delimited.append_inj {item other rest rest' : Bytes} (h : Delimited item)
    (hother : Delimited other) (heq : item ++ rest = other ++ rest') :
    item = other ∧ rest = rest' := by
  have hskip : Cursor.skip.on (item ++ rest) = (.ok (), rest) :=
    Cursor.skip_eq_ok_iff.2 ⟨item, h, rfl⟩
  have hskip' : Cursor.skip.on (item ++ rest) = (.ok (), rest') :=
    Cursor.skip_eq_ok_iff.2 ⟨other, hother, heq⟩
  rw [hskip] at hskip'
  obtain rfl := (Prod.mk.inj hskip').2
  exact ⟨List.append_cancel_right heq, rfl⟩

/-- An item that is a prefix of another one is the other one. -/
theorem Delimited.eq_of_prefix {item other : Bytes} (h : Delimited item)
    (hother : Delimited other) (hstart : item <+: other) : item = other := by
  obtain ⟨rest, rfl⟩ := hstart
  exact (h.append_inj hother (List.append_nil _).symm).1

theorem Tag.code_inj {tag other : Tag} (h : tag.code = other.code) : tag = other := by
  have hcode := Tag.ofCode?_code tag
  rw [h, Tag.ofCode?_code] at hcode
  exact (Option.some.inj hcode).symm

/-- A tag with a length and a body is taken apart in one way. -/
theorem Item.framed_inj {tag other : Tag} {body body' : Bytes}
    (h : Item.framed tag body = Item.framed other body') : tag = other ∧ body = body' := by
  obtain ⟨hcode, hbody⟩ := List.cons.inj h
  exact ⟨Tag.code_inj hcode, (List.append_inj hbody (by simp [lengthBytes])).2⟩

/-- A variant is taken apart in one way, if its name has a length. -/
theorem Item.variantBytes_inj {name name' : String} {value value' : Bytes}
    (hfits : (Cursor.namedBody name value).length ≤ maxLength)
    (hfits' : (Cursor.namedBody name' value').length ≤ maxLength)
    (h : Item.variantBytes name value = Item.variantBytes name' value') :
    name = name' ∧ value = value' := by
  have hread := Cursor.variant_eq_ok_iff.2 ⟨hfits, (List.append_nil _).symm⟩
  rw [h, Cursor.variant_eq_ok_iff.2 ⟨hfits', (List.append_nil _).symm⟩] at hread
  obtain ⟨hname, -⟩ := Prod.mk.inj hread
  obtain ⟨rfl, rfl⟩ := Prod.mk.inj (Except.ok.inj hname)
  exact ⟨rfl, rfl⟩

namespace Read

/-- Whether a read takes one item, whatever stands behind it. -/
def Exact {α : Type} (op : Read α) : Prop :=
  ∀ bs rest a, op.on bs = (.ok a, rest) →
    ∃ item, Delimited item ∧ bs = item ++ rest ∧ ∀ behind, op.on (item ++ behind) = (.ok a, behind)

/-- A read is exact if it reads what can be written as the item of its answer. -/
theorem Exact.of_item {α : Type} {op : Read α} (item : α → Item)
    (h : ∀ {bs rest a}, op.on bs = (.ok a, rest) ↔
      (item a).Writable ∧ bs = (item a).toBytes ++ rest) : op.Exact := by
  intro bs rest a hread
  obtain ⟨hw, rfl⟩ := h.1 hread
  exact ⟨_, hw.delimited, rfl, fun behind => h.2 ⟨hw, rfl⟩⟩

theorem Exact.of_fixed {α : Type} {op : Read α} (item : α → Item) (hw : ∀ a, (item a).Writable)
    (h : ∀ {bs rest a}, op.on bs = (.ok a, rest) ↔ bs = (item a).toBytes ++ rest) : op.Exact :=
  .of_item item fun {_ _ a} => h.trans (and_iff_right (hw a)).symm

end Read

namespace Cursor

open Read

theorem exact_null : null.Exact :=
  .of_fixed (fun _ => .null) (fun _ => Item.writable_of_fixed rfl trivial rfl) null_eq_ok_iff

theorem exact_bool : bool.Exact :=
  .of_fixed .bool (fun _ => Item.writable_of_fixed rfl trivial rfl) bool_eq_ok_iff

theorem exact_u64 : u64.Exact :=
  .of_fixed .u64 (fun _ => Item.writable_of_fixed rfl trivial rfl) u64_eq_ok_iff

theorem exact_s64 : s64.Exact :=
  .of_fixed .s64 (fun _ => Item.writable_of_fixed rfl trivial rfl) s64_eq_ok_iff

theorem exact_f64 : f64.Exact :=
  .of_fixed .f64 (fun _ => Item.writable_of_fixed rfl trivial rfl) f64_eq_ok_iff

theorem exact_timestamp : timestamp.Exact :=
  .of_item (fun parts => .timestamp parts.1 parts.2) fun {_ _ _} =>
    timestamp_eq_ok_iff.trans (and_congr_left' Item.writable_timestamp.symm)

theorem exact_duration : duration.Exact :=
  .of_item (fun parts => .duration parts.1 parts.2) fun {_ _ _} =>
    duration_eq_ok_iff.trans (and_congr_left' Item.writable_duration.symm)

theorem exact_string : string.Exact :=
  .of_item .string fun {_ _ _} => string_eq_ok_iff.trans (and_congr_left' Item.writable_string.symm)

theorem exact_bytes : bytes.Exact :=
  .of_item .bytes fun {_ _ _} => bytes_eq_ok_iff.trans (and_congr_left' Item.writable_bytes.symm)

theorem exact_skip : skip.Exact := by
  intro bs rest u h
  obtain ⟨item, hitem, rfl⟩ := skip_eq_ok_iff.1 h
  exact ⟨item, hitem, rfl, fun behind => skip_eq_ok_iff.2 ⟨item, hitem, rfl⟩⟩

end Cursor

end Resumable.Wire
