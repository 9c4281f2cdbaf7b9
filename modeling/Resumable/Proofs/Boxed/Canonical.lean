import Mathlib.Data.List.Flatten
import Resumable.Proofs.Boxed.RoundTrip

/-!
# Decoded values are canonical

Payloads are read leniently: the fields of a map may come in any order and repeat, an integer may be
of either word, and bytes behind the item of a field are passed over. Whatever is read can be boxed
all the same, with as many levels as were allowed, and in no more bytes than were read
(`Tree.fits_of_read`). Outside trees nothing is lenient, and the item of a value stands in the bytes
it was read from (`Value.toItem?_of_read`). So a decoded value is boxed in one form, which decodes to
it again (`Boxed.canonical_of_decode`).
-/

namespace Resumable

open Number Wire

theorem CodecError.reading_eq_ok_iff {α : Type} {op : Read α} {bs rest : Bytes} {a : α} :
    CodecError.reading op bs = .ok (a, rest) ↔ op.on bs = (.ok a, rest) := by
  constructor
  · intro h
    rw [CodecError.reading] at h
    split at h
    · rename_i a' rest' hop
      cases h
      exact hop
    · cases h
  · exact CodecError.reading_of_on

theorem CodecError.unlessFailed_eq_ok_iff {α : Type} {failure : Option Wire.Error} {a b : α} :
    CodecError.unlessFailed failure a = .ok b ↔ failure = none ∧ a = b := by
  cases failure with
  | some e => exact ⟨nofun, nofun⟩
  | none => exact pure_eq_ok_iff.trans (and_iff_right rfl).symm

/-- Answers whose written forms are no longer than those of their members are no longer together. -/
theorem length_flatMap_le_of_mapM {ε α β : Type} {f : α → Except ε β} {xs : List α} {ys : List β}
    {v : α → Bytes} {w : β → Bytes} (h : xs.mapM f = .ok ys)
    (hle : ∀ x y, f x = .ok y → (w y).length ≤ (v x).length) :
    (ys.flatMap w).length ≤ (xs.flatMap v).length := by
  induction xs generalizing ys with
  | nil =>
    obtain rfl := pure_eq_ok_iff.1 h
    exact Nat.le_refl _
  | cons x xs ih =>
    obtain ⟨y, rest, rfl, hy, hrest⟩ := mapM_cons_eq_ok_iff.1 h
    rw [List.flatMap_cons, List.flatMap_cons, List.length_append, List.length_append]
    exact Nat.add_le_add (hle x y hy) (ih hrest)

/-- Some of the members of a list are written in no more bytes than all of them. -/
theorem length_flatMap_le_of_subperm {α : Type} {xs ys : List α} (h : List.Subperm xs ys)
    (w : α → Bytes) : (xs.flatMap w).length ≤ (ys.flatMap w).length := by
  obtain ⟨xs', hperm, hsublist⟩ := h
  rw [← (hperm.flatMap_right w).length_eq]
  exact (hsublist.flatMap w).length_le

/-! ## Trees that were read -/

namespace Tree

theorem Integer.writable_toItem (n : Integer) : n.toItem.Writable := by
  rcases n.toItem_cases with ⟨m, hm, -⟩ | ⟨m, hm, -⟩
  · rw [hm]
    exact Item.writable_of_fixed rfl trivial rfl
  · rw [hm]
    exact Item.writable_of_fixed rfl trivial rfl

/-- Words are of one length, signed or not. -/
theorem Integer.length_toBytes_toItem (n : Integer) : n.toItem.toBytes.length = 9 := by
  rcases n.toItem_cases with ⟨m, hm, -⟩ | ⟨m, hm, -⟩
  · rw [hm, Item.toBytes, List.length_cons, Bytes.length_littleEndian]
  · rw [hm, Item.toBytes, List.length_cons, Bytes.length_littleEndian]

/-- Whether a tree has an item of so many levels that can be written in so many bytes. -/
def Fits (levels size : Nat) (t : Tree) : Prop :=
  ∃ item, t.toItem levels = .ok item ∧ item.Writable ∧ item.toBytes.length ≤ size

/-- The written form of a tree of so many levels at most, if it has one. -/
def writtenForm (levels : Nat) (t : Tree) : Bytes :=
  match t.toItem levels with
  | .ok item => item.toBytes
  | .error _ => []

/-- The written form of a field, as an entry of a map. -/
def fieldForm (levels : Nat) (field : String × Tree) : Bytes :=
  Item.variantBytes field.1 (writtenForm levels field.2)

section Read

variable {levels size : Nat} {t : Tree} {item : Item} {bs rest : Bytes}

theorem writtenForm_of_toItem (h : t.toItem levels = .ok item) :
    writtenForm levels t = item.toBytes := by
  rw [writtenForm, h]

theorem Fits.of_toItem (h : t.Fits levels size) (hitem : t.toItem levels = .ok item) :
    item.Writable ∧ item.toBytes.length ≤ size := by
  obtain ⟨item', hitem', hfits⟩ := h
  rw [hitem'] at hitem
  cases hitem
  exact hfits

theorem Fits.length_writtenForm (h : t.Fits levels size) :
    (writtenForm levels t).length ≤ size := by
  obtain ⟨item, hitem, -, hle⟩ := h
  rwa [writtenForm_of_toItem hitem]

theorem Fits.mono {size' : Nat} (h : t.Fits levels size) (hle : size ≤ size') :
    t.Fits levels size' := by
  obtain ⟨item, hitem, hwritable, hsize⟩ := h
  exact ⟨item, hitem, hwritable, Nat.le_trans hsize hle⟩

/-- A tree whose item stands at the front of some bytes fits them. -/
theorem fits_of_front (hitem : t.toItem levels = .ok item) (hwritable : item.Writable)
    (hbs : bs = item.toBytes ++ rest) : t.Fits levels bs.length := by
  refine ⟨item, hitem, hwritable, ?_⟩
  rw [hbs, List.length_append]
  exact Nat.le_add_right _ _

/-- Trees that fit one by one fit together as a list. -/
theorem Fits.list {items : List Tree} (hitems : ∀ t ∈ items, ∃ size, t.Fits levels size)
    (hsize : (items.flatMap (writtenForm levels)).length ≤ size) (hle : size ≤ maxLength) :
    (Tree.list items).Fits (levels + 1) (size + 5) := by
  -- every tree has an item of one level less, so the list has one
  obtain ⟨inner, hinner⟩ : ∃ inner, items.mapM (toItem levels) = .ok inner := by
    refine exists_mapM_eq_ok_iff.2 fun t ht => ?_
    obtain ⟨size, item, hitem, -⟩ := hitems t ht
    exact ⟨item, hitem⟩
  have hlength : (Item.listBytes inner).length ≤ size := calc
    (Item.listBytes inner).length = (inner.flatMap Item.toBytes).length := by
      rw [Item.listBytes_eq_flatten, List.flatMap_def]
    _ ≤ (items.flatMap (writtenForm levels)).length :=
      length_flatMap_le_of_mapM hinner fun _ _ h => Nat.le_of_eq (by rw [writtenForm_of_toItem h])
    _ ≤ size := hsize
  refine ⟨.list inner, bind_eq_ok_iff.2 ⟨inner, hinner, rfl⟩, ?_, ?_⟩
  · refine Item.writable_list.2 ⟨Nat.le_trans hlength hle, fun item hitem => ?_⟩
    obtain ⟨t, ht, hto⟩ := exists_member_of_mapM hinner item hitem
    obtain ⟨size, h⟩ := hitems t ht
    exact (h.of_toItem hto).1
  · rw [Item.toBytes, Item.length_framed]
    omega

/-- Fields whose trees and names fit one by one fit together as a map. -/
theorem Fits.map {fields : Keyed Tree none}
    (hfields : ∀ field ∈ fields.toList, ∃ size, field.2.Fits levels size ∧
      (Bytes.ofText field.1).length + 5 + size ≤ maxLength)
    (hsize : (fields.toList.flatMap (fieldForm levels)).length ≤ size) (hle : size ≤ maxLength) :
    (Tree.map fields).Fits (levels + 1) (size + 5) := by
  obtain ⟨inner, hinner⟩ : ∃ inner, fields.toList.mapM (fun field => do
      return (field.1, ← toItem levels field.2)) = .ok inner := by
    refine exists_mapM_eq_ok_iff.2 fun field hfield => ?_
    obtain ⟨size, ⟨item, hitem, -⟩, -⟩ := hfields field hfield
    exact ⟨_, bind_eq_ok_iff.2 ⟨item, hitem, rfl⟩⟩
  have hlength : (Item.entriesBytes inner).length ≤ size := calc
    (Item.entriesBytes inner).length =
        (inner.flatMap fun e => Item.variantBytes e.1 e.2.toBytes).length := by
      rw [Item.entriesBytes_eq_flatMap]
    _ ≤ (fields.toList.flatMap (fieldForm levels)).length := by
      refine length_flatMap_le_of_mapM hinner fun field entry h => ?_
      obtain ⟨item, hitem, h⟩ := bind_eq_ok_iff.1 h
      cases h
      exact Nat.le_of_eq (by rw [fieldForm, writtenForm_of_toItem hitem])
    _ ≤ size := hsize
  refine ⟨.map inner, bind_eq_ok_iff.2 ⟨inner, hinner, rfl⟩, ?_, ?_⟩
  · refine Item.writable_map.2 ⟨Nat.le_trans hlength hle, fun entry hentry => ?_⟩
    obtain ⟨field, hfield, h⟩ := exists_member_of_mapM hinner entry hentry
    obtain ⟨item, hitem, h⟩ := bind_eq_ok_iff.1 h
    cases h
    obtain ⟨size, hfit, hname⟩ := hfields field hfield
    obtain ⟨hwritable, hitemle⟩ := hfit.of_toItem hitem
    refine Item.writable_variant.2 ⟨?_, hwritable⟩
    rw [Cursor.length_namedBody]
    dsimp only
    omega
  · rw [Item.toBytes, Item.length_framed]
    omega

/-- Trees that are read from the windows of a list body fit the body as a list. -/
theorem fits_list {windows : List Bytes} {items : List Tree}
    (hread : windows.mapM (fun window => do return (← read levels window).1) = .ok items)
    (hfits : ∀ {bs t rest}, read levels bs = .ok (t, rest) → t.Fits levels bs.length)
    (hle : windows.flatten.length ≤ maxLength) :
    (list items).Fits (levels + 1) (windows.flatten.length + 5) := by
  have hwindow : ∀ (window : Bytes) (t : Tree),
      (do return (← read levels window).1 : Except CodecError Tree) = .ok t →
        t.Fits levels window.length := by
    intro window t h
    obtain ⟨⟨t', rest⟩, hread, h⟩ := bind_eq_ok_iff.1 h
    cases h
    exact hfits hread
  refine Fits.list (fun t ht => ?_) ?_ hle
  · obtain ⟨window, -, h⟩ := exists_member_of_mapM hread t ht
    exact ⟨_, hwindow window t h⟩
  · calc
      (items.flatMap (writtenForm levels)).length ≤ (windows.flatMap id).length :=
        length_flatMap_le_of_mapM hread fun window t h => (hwindow window t h).length_writtenForm
      _ = windows.flatten.length := by rw [List.flatMap_id]

/-- Fields that are read from the entries of a map body fit the body as a map, which keeps one of
those with one key. -/
theorem fits_map {windows : List (String × Bytes)} {fields : List (String × Tree)}
    (hread : windows.mapM (fun entry => do return (entry.1, (← read levels entry.2).1)) =
      .ok fields)
    (hfits : ∀ {bs t rest}, read levels bs = .ok (t, rest) → t.Fits levels bs.length)
    (hwindows : ∀ e ∈ windows, (Cursor.namedBody e.1 e.2).length ≤ maxLength)
    (hle : (windows.flatMap fun e => Item.variantBytes e.1 e.2).length ≤ maxLength) :
    (ofFields fields).Fits (levels + 1)
      ((windows.flatMap fun e => Item.variantBytes e.1 e.2).length + 5) := by
  have hwindow : ∀ (e : String × Bytes) (field : String × Tree),
      (do return (e.1, (← read levels e.2).1) : Except CodecError (String × Tree)) = .ok field →
        field.1 = e.1 ∧ field.2.Fits levels e.2.length := by
    intro e field h
    obtain ⟨⟨t', rest⟩, hread, h⟩ := bind_eq_ok_iff.1 h
    cases h
    exact ⟨rfl, hfits hread⟩
  have hkept := Keyed.subperm_ofList fields
  refine Fits.map (fun field hfield => ?_) ?_ hle
  · -- a field that is kept was read from an entry, whose length fitted its four bytes
    obtain ⟨e, he, h⟩ := exists_member_of_mapM hread field (hkept.subset hfield)
    obtain ⟨hname, hfit⟩ := hwindow e field h
    refine ⟨_, hfit, ?_⟩
    rw [hname, ← Cursor.length_namedBody]
    exact hwindows e he
  · refine Nat.le_trans (length_flatMap_le_of_subperm hkept _) ?_
    refine length_flatMap_le_of_mapM hread fun e field h => ?_
    obtain ⟨hname, hfit⟩ := hwindow e field h
    have hvalue := hfit.length_writtenForm
    rw [fieldForm, Cursor.length_variantBytes, Cursor.length_variantBytes, hname]
    omega

/-- A tree that is read fits the bytes it was read from, with as many levels. -/
theorem fits_of_read (h : read levels bs = .ok (t, rest)) : t.Fits levels bs.length := by
  induction levels generalizing bs t rest with
  | zero => cases h
  | succ levels ih =>
    rw [read] at h
    obtain ⟨tag, -, h⟩ := bind_eq_ok_iff.1 h
    cases tag with
    | null =>
      obtain ⟨⟨u, rest'⟩, hread, h⟩ := bind_eq_ok_iff.1 h
      cases h
      exact fits_of_front rfl (Item.writable_of_fixed rfl trivial rfl)
        (Cursor.null_eq_ok_iff.1 (CodecError.reading_eq_ok_iff.1 hread))
    | boolTrue | boolFalse =>
      obtain ⟨⟨b, rest'⟩, hread, h⟩ := bind_eq_ok_iff.1 h
      cases h
      exact fits_of_front rfl (Item.writable_of_fixed rfl trivial rfl)
        (Cursor.bool_eq_ok_iff.1 (CodecError.reading_eq_ok_iff.1 hread))
    | s64 =>
      obtain ⟨⟨n, rest'⟩, hread, h⟩ := bind_eq_ok_iff.1 h
      cases h
      have hbs := Cursor.s64_eq_ok_iff.1 (CodecError.reading_eq_ok_iff.1 hread)
      -- the integer may be written as the other word, which is as long
      refine ⟨_, rfl, Integer.writable_toItem _, ?_⟩
      rw [Integer.length_toBytes_toItem, hbs, List.length_append, Item.toBytes, List.length_cons,
        Bytes.length_littleEndian]
      omega
    | u64 =>
      obtain ⟨⟨n, rest'⟩, hread, h⟩ := bind_eq_ok_iff.1 h
      cases h
      have hbs := Cursor.u64_eq_ok_iff.1 (CodecError.reading_eq_ok_iff.1 hread)
      refine ⟨_, rfl, Integer.writable_toItem _, ?_⟩
      rw [Integer.length_toBytes_toItem, hbs, List.length_append, Item.toBytes, List.length_cons,
        Bytes.length_littleEndian]
      omega
    | f64 =>
      obtain ⟨⟨bits, rest'⟩, hread, h⟩ := bind_eq_ok_iff.1 h
      dsimp only at h
      split at h
      · rename_i hfinite
        cases h
        exact fits_of_front rfl (Item.writable_of_fixed rfl trivial rfl)
          (Cursor.f64_eq_ok_iff.1 (CodecError.reading_eq_ok_iff.1 hread))
      · cases h
    | string =>
      obtain ⟨⟨s, rest'⟩, hread, h⟩ := bind_eq_ok_iff.1 h
      cases h
      obtain ⟨hle, hbs⟩ := Cursor.string_eq_ok_iff.1 (CodecError.reading_eq_ok_iff.1 hread)
      exact fits_of_front rfl (Item.writable_string.2 hle) hbs
    | list =>
      obtain ⟨⟨body, rest'⟩, hread, h⟩ := bind_eq_ok_iff.1 h
      obtain ⟨hle, hbs⟩ := Cursor.body_eq_ok_iff.1 (CodecError.reading_eq_ok_iff.1 hread)
      dsimp only at h
      cases hwindows : Cursor.items body with
      | mk windows failure =>
        rw [hwindows] at h
        obtain ⟨items, hitems, h⟩ := bind_eq_ok_iff.1 h
        obtain ⟨rfl, heq⟩ := CodecError.unlessFailed_eq_ok_iff.1 h
        cases heq
        -- the windows of the items make up the whole body
        obtain ⟨-, rfl⟩ := Cursor.items_eq_iff.1 hwindows
        refine (fits_list hitems ih hle).mono ?_
        rw [hbs, List.length_append, Item.length_framed]
        exact Nat.le_add_right _ _
    | map =>
      obtain ⟨⟨body, rest'⟩, hread, h⟩ := bind_eq_ok_iff.1 h
      obtain ⟨hle, hbs⟩ := Cursor.body_eq_ok_iff.1 (CodecError.reading_eq_ok_iff.1 hread)
      dsimp only at h
      cases hwindows : Cursor.entries body with
      | mk windows failure =>
        rw [hwindows] at h
        obtain ⟨fields, hfields, h⟩ := bind_eq_ok_iff.1 h
        obtain ⟨rfl, heq⟩ := CodecError.unlessFailed_eq_ok_iff.1 h
        cases heq
        obtain ⟨hentries, rfl⟩ := Cursor.entries_eq_iff.1 hwindows
        refine (fits_map hfields ih hentries hle).mono ?_
        rw [hbs, List.length_append, Item.length_framed]
        exact Nat.le_add_right _ _
    -- no tree is read from any other item
    | timestamp | duration | optionNone | bytes | optionSome | variant => cases h

end Read

end Tree

/-! ## Values that were read -/

/-- The seconds and nanoseconds that were read are the parts of the instant. -/
theorem Instant.parts_of_ofParts {secs : Int64} {nanos : UInt32} {t : Instant}
    (hnanos : nanos.toNat < nanosPerSecond) (h : Instant.ofParts secs nanos = .ok t) :
    t.secs = secs ∧ t.nanos = nanos := by
  rw [Instant.ofParts_parts ⟨secs, nanos, hnanos⟩] at h
  cases h
  exact ⟨rfl, rfl⟩

/-- The seconds and nanoseconds that were read are those of the span, which is not long. -/
theorem Span.parts_of_ofParts? {secs : Int64} {nanos : Int32} {d : Span}
    (h : Span.ofParts? secs nanos = some d) :
    ¬d.IsLong ∧ d.secs.toInt64 = secs ∧ d.nanos.toInt32 = nanos := by
  rw [Span.ofParts?] at h
  split at h
  · rename_i hparts
    obtain ⟨hsecs, hnanos, hnanoslt⟩ := hparts
    have hupper := secs.toInt_lt
    have hsecsNat : d.secs.toNat = secs.toInt.toNat := by
      cases h
      exact UInt64.toNat_ofNat_of_lt' (by simp only [UInt64.size]; omega)
    have hnanosNat : d.nanos.toNat = nanos.toInt.toNat := by
      cases h
      exact UInt32.toNat_ofNat_of_lt' (by simp only [UInt32.size]; omega)
    have hlong : ¬d.IsLong := by
      rw [Span.IsLong, hsecsNat]
      omega
    refine ⟨hlong, Int64.toInt_inj.1 ?_, Int32.toInt_inj.1 ?_⟩
    · rw [Span.toInt_secs hlong, hsecsNat, Int.toNat_of_nonneg hsecs]
    · rw [Span.toInt_nanos, hnanosNat, Int.toNat_of_nonneg hnanos]
  · cases h

namespace Value

variable {v : Value} {shape : Shape} {bs rest : Bytes}

theorem shape_of_read (h : read shape bs = .ok (v, rest)) : v.shape = shape := by
  cases shape with
  | timestamp =>
    obtain ⟨parts, -, h⟩ := bind_eq_ok_iff.1 h
    obtain ⟨t, -, h⟩ := bind_eq_ok_iff.1 h
    cases h
    rfl
  | duration =>
    obtain ⟨parts, -, h⟩ := bind_eq_ok_iff.1 h
    dsimp only at h
    split at h
    · cases h
      rfl
    · cases h
  | empty =>
    cases h
    rfl
  | _ =>
    obtain ⟨found, -, h⟩ := bind_eq_ok_iff.1 h
    cases h
    rfl

/-- A value that is read has an item, unless it is the first instant. The item can be written in the
bytes that were read; outside trees it stands in them. -/
theorem toItem?_of_read (hempty : shape ≠ .empty) (hfirst : ∀ t, v = .timestamp t → ¬t.IsFirst)
    (h : read shape bs = .ok (v, rest)) :
    ∃ item, v.toItem? = .ok (some item) ∧ item.Writable ∧
      item.toBytes.length ≤ bs.length ∧ (shape ≠ .tree → bs = item.toBytes ++ rest) := by
  have hfront : ∀ item : Item, v.toItem? = .ok (some item) → item.Writable →
      bs = item.toBytes ++ rest → ∃ item, v.toItem? = .ok (some item) ∧ item.Writable ∧
        item.toBytes.length ≤ bs.length ∧ (shape ≠ .tree → bs = item.toBytes ++ rest) := by
    intro item hitem hwritable hbs
    refine ⟨item, hitem, hwritable, ?_, fun _ => hbs⟩
    rw [hbs, List.length_append]
    exact Nat.le_add_right _ _
  cases shape with
  | empty => exact absurd rfl hempty
  | bool =>
    obtain ⟨⟨b, rest'⟩, hread, h⟩ := bind_eq_ok_iff.1 h
    cases h
    exact hfront _ rfl (Item.writable_of_fixed rfl trivial rfl)
      (Cursor.bool_eq_ok_iff.1 (CodecError.reading_eq_ok_iff.1 hread))
  | int =>
    obtain ⟨⟨n, rest'⟩, hread, h⟩ := bind_eq_ok_iff.1 h
    cases h
    exact hfront _ rfl (Item.writable_of_fixed rfl trivial rfl)
      (Cursor.s64_eq_ok_iff.1 (CodecError.reading_eq_ok_iff.1 hread))
  | uint =>
    obtain ⟨⟨n, rest'⟩, hread, h⟩ := bind_eq_ok_iff.1 h
    cases h
    exact hfront _ rfl (Item.writable_of_fixed rfl trivial rfl)
      (Cursor.u64_eq_ok_iff.1 (CodecError.reading_eq_ok_iff.1 hread))
  | double =>
    obtain ⟨⟨bits, rest'⟩, hread, h⟩ := bind_eq_ok_iff.1 h
    cases h
    exact hfront _ rfl (Item.writable_of_fixed rfl trivial rfl)
      (Cursor.f64_eq_ok_iff.1 (CodecError.reading_eq_ok_iff.1 hread))
  | string =>
    obtain ⟨⟨s, rest'⟩, hread, h⟩ := bind_eq_ok_iff.1 h
    cases h
    obtain ⟨hle, hbs⟩ := Cursor.string_eq_ok_iff.1 (CodecError.reading_eq_ok_iff.1 hread)
    exact hfront _ rfl (Item.writable_string.2 hle) hbs
  | bytes =>
    obtain ⟨⟨data, rest'⟩, hread, h⟩ := bind_eq_ok_iff.1 h
    cases h
    obtain ⟨hle, hbs⟩ := Cursor.bytes_eq_ok_iff.1 (CodecError.reading_eq_ok_iff.1 hread)
    exact hfront _ rfl (Item.writable_bytes.2 hle) hbs
  | timestamp =>
    obtain ⟨⟨⟨secs, nanos⟩, rest'⟩, hread, h⟩ := bind_eq_ok_iff.1 h
    obtain ⟨t, ht, h⟩ := bind_eq_ok_iff.1 h
    cases h
    obtain ⟨hnanos, hbs⟩ := Cursor.timestamp_eq_ok_iff.1 (CodecError.reading_eq_ok_iff.1 hread)
    obtain ⟨rfl, rfl⟩ := Instant.parts_of_ofParts hnanos ht
    have hitem := Instant.toItem_eq_ok_iff.2 ⟨hfirst t rfl, rfl⟩
    exact hfront _ (bind_eq_ok_iff.2 ⟨_, hitem, rfl⟩) (Item.writable_timestamp.2 hnanos) hbs
  | duration =>
    obtain ⟨⟨⟨secs, nanos⟩, rest'⟩, hread, h⟩ := bind_eq_ok_iff.1 h
    dsimp only at h
    cases hd : Span.ofParts? secs nanos with
    | none =>
      rw [hd] at h
      cases h
    | some d =>
      rw [hd] at h
      cases h
      obtain ⟨hnanos, hbs⟩ := Cursor.duration_eq_ok_iff.1 (CodecError.reading_eq_ok_iff.1 hread)
      obtain ⟨hlong, rfl, rfl⟩ := Span.parts_of_ofParts? hd
      have hitem := Span.toItem_eq_ok_iff.2 ⟨hlong, rfl⟩
      exact hfront _ (bind_eq_ok_iff.2 ⟨_, hitem, rfl⟩) (Item.writable_duration.2 hnanos) hbs
  | tree =>
    obtain ⟨⟨t, rest'⟩, hread, h⟩ := bind_eq_ok_iff.1 h
    cases h
    obtain ⟨item, hitem, hwritable, hle⟩ := Tree.fits_of_read hread
    exact ⟨item, bind_eq_ok_iff.2 ⟨item, hitem, rfl⟩, hwritable, hle, fun hne => absurd rfl hne⟩

end Value

namespace Boxed

variable {boxed : Boxed} {v : Value}

/-- A payload is decoded by reading it to its end; null has none to read. -/
theorem decode_eq_ok_iff :
    boxed.decode = .ok v ↔ (boxed.shape = .empty ∧ v = .null) ∨
      (boxed.shape ≠ .empty ∧ Value.read boxed.shape boxed.payload = .ok (v, [])) := by
  rw [Boxed.decode]
  split
  · rename_i hempty
    constructor
    · intro h
      exact .inl ⟨hempty, (pure_eq_ok_iff.1 h).symm⟩
    · rintro (⟨-, rfl⟩ | ⟨hne, -⟩)
      · rfl
      · exact absurd hempty hne
  · rename_i hne
    rw [bind_eq_ok_iff]
    constructor
    · rintro ⟨⟨v', rest⟩, hread, h⟩
      cases rest with
      | nil =>
        cases h
        exact .inr ⟨hne, hread⟩
      | cons b rest => cases h
    · rintro (⟨hempty, -⟩ | ⟨-, hread⟩)
      · exact absurd hempty hne
      · exact ⟨(v, []), hread, rfl⟩

theorem shape_of_decode (h : boxed.decode = .ok v) : boxed.shape = v.shape := by
  rcases decode_eq_ok_iff.1 h with ⟨hempty, rfl⟩ | ⟨-, hread⟩
  · exact hempty
  · exact (Value.shape_of_read hread).symm

/-- A decoded value, unless it is the first instant, is boxed under the shape it was decoded from, in
no more bytes, and decodes to itself. Outside null and trees, its boxed form is the one that was
decoded. -/
theorem encode_of_decode (h : boxed.decode = .ok v) (hfirst : ∀ t, v = .timestamp t → ¬t.IsFirst) :
    ∃ again, v.encode = .ok again ∧ again.shape = boxed.shape ∧ again.decode = .ok v ∧
      again.payload.length ≤ boxed.payload.length ∧
      (boxed.shape ≠ .empty → boxed.shape ≠ .tree → again = boxed) := by
  have hshape := shape_of_decode h
  rcases decode_eq_ok_iff.1 h with ⟨hempty, rfl⟩ | ⟨hempty, hread⟩
  · exact ⟨.null, rfl, hempty.symm, rfl, Nat.zero_le _, fun hne => absurd hempty hne⟩
  · obtain ⟨item, hitem, hwritable, hle, hbytes⟩ := Value.toItem?_of_read hempty hfirst hread
    refine ⟨_, Value.encode_of_toItem? hitem hwritable, hshape.symm,
      Value.decode_of_toItem? hitem hwritable, hle, fun _ htree => ?_⟩
    rw [← hshape, ← List.append_nil item.toBytes, ← hbytes htree]

/-- A decoded value, unless it is the first instant, is boxed under the shape it was decoded from and
decodes to itself. Its boxed form is the one that was decoded, except that null has no payload and
that a tree may take fewer bytes; boxing the tree once more gives these bytes again. -/
theorem canonical_of_decode (h : boxed.decode = .ok v)
    (hfirst : ∀ t, v = .timestamp t → ¬t.IsFirst) :
    ∃ again, v.encode = .ok again ∧ again.shape = boxed.shape ∧ again.decode = .ok v ∧
      (boxed.shape ≠ .empty → boxed.shape ≠ .tree → again = boxed) ∧
      (boxed.shape = .tree → again.payload.length ≤ boxed.payload.length ∧
        again.decode >>= Value.encode = .ok again) := by
  obtain ⟨again, hencode, hshape, hdecode, hle, hsame⟩ := encode_of_decode h hfirst
  exact ⟨again, hencode, hshape, hdecode, hsame,
    fun _ => ⟨hle, bind_eq_ok_iff.2 ⟨v, hdecode, hencode⟩⟩⟩

/-- A map whose fields are out of order, with one key twice, a byte behind an item, and unsigned
words. -/
def lenientMap : Boxed where
  shape := .tree
  payload := Item.framed .map (Item.variantBytes "b" (Item.u64 5).toBytes ++
    Item.variantBytes "a" (Item.null.toBytes ++ [0xff]) ++ Item.variantBytes "b" (Item.u64 7).toBytes)

/-- A map that is read leniently is boxed in fewer bytes, and then always in these. -/
theorem canonical_of_decode_lenientMap :
    let v : Value := .tree (.ofFields [("a", .null), ("b", .int (.ofUInt64 7))])
    lenientMap.decode = .ok v ∧ (∀ t, v = .timestamp t → ¬t.IsFirst) ∧
      ∃ again, v.encode = .ok again ∧ again.shape = .tree ∧ again.decode = .ok v ∧
        again.payload.length ≤ lenientMap.payload.length ∧
        again.decode >>= Value.encode = .ok again := by
  intro v
  have hdecode : lenientMap.decode = .ok v := by rfl
  have hfirst : ∀ t, v = .timestamp t → ¬t.IsFirst := by
    intro t (ht : Value.tree _ = _)
    cases ht
  obtain ⟨again, hencode, hshape, hback, -, htree⟩ := canonical_of_decode hdecode hfirst
  exact ⟨hdecode, hfirst, again, hencode, hshape, hback, htree rfl⟩

end Boxed

end Resumable
