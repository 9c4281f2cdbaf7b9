import Resumable.Proofs.Wire.Cursor

/-!
# Items that can be written

An item can be written when its times are valid and every length in its written form fits the four
bytes it has (`Item.Writable`). Both are conditions on the item itself and on all that is written
inside it, `Item.nested`; `Item.Every` distributes over the constructors. The written form of such
an item is what `Cursor.skip` passes over (`Item.Writable.delimited`).
-/

namespace Resumable.Wire

namespace Item

mutual

/-- An item and all items that are written inside it, the names of variants among them. -/
def nested : Item → List Item
  | list items => list items :: nestedList items
  | map entries => map entries :: nestedEntries entries
  | optionSome item => optionSome item :: item.nested
  | variant name item => variant name item :: string name :: item.nested
  | leaf => [leaf]

/-- All items that are written in a row of items. -/
def nestedList : List Item → List Item
  | [] => []
  | item :: rest => item.nested ++ nestedList rest

/-- All items that are written in a row of named items, each of them a variant. -/
def nestedEntries : List (String × Item) → List Item
  | [] => []
  | (name, item) :: rest => variant name item :: string name :: item.nested ++ nestedEntries rest

end

/-- Whether the nanoseconds of a time are in the range of their kind. -/
def TimeValid : Item → Prop
  | timestamp _ nanos => nanos.toNat < nanosPerSecond
  | duration secs nanos => SpanNanosOk secs.toInt nanos.toInt
  | _ => True

/-- The bytes that an item's length counts, if it carries one. -/
def body? : Item → Option Bytes
  | string s => some (Bytes.ofText s)
  | bytes data => some data
  | list items => some (listBytes items)
  | map entries => some (entriesBytes entries)
  | optionSome item => some item.toBytes
  | variant name item => some (Cursor.namedBody name item.toBytes)
  | _ => none

/-- Whether an item's own length, if it carries one, fits its four bytes. -/
def LengthFits (item : Item) : Prop := ∀ body ∈ item.body?, body.length ≤ maxLength

/-- Whether a condition holds of an item and of all that is written inside it. -/
def Every (p : Item → Prop) (item : Item) : Prop := ∀ x ∈ item.nested, p x

/-- Whether every time in an item is valid. -/
def Valid (item : Item) : Prop := item.Every TimeValid

/-- Whether every length in the written form of an item fits its four bytes. -/
def LengthsFit (item : Item) : Prop := item.Every LengthFits

/-- Whether an item can be written. -/
def Writable (item : Item) : Prop := item.Valid ∧ item.LengthsFit

instance : DecidablePred TimeValid
  | timestamp _ nanos => inferInstanceAs (Decidable (nanos.toNat < nanosPerSecond))
  | duration secs nanos => inferInstanceAs (Decidable (SpanNanosOk secs.toInt nanos.toInt))
  | null | bool _ | u64 _ | s64 _ | f64 _ | optionNone | string _ | bytes _ | list _ | map _
  | optionSome _ | variant _ _ => isTrue trivial

instance : DecidablePred LengthFits := fun item =>
  inferInstanceAs (Decidable (∀ body ∈ item.body?, body.length ≤ maxLength))

instance : DecidablePred LengthsFit := fun item =>
  inferInstanceAs (Decidable (∀ x ∈ item.nested, LengthFits x))

instance : DecidablePred Writable := fun item =>
  inferInstanceAs (Decidable ((∀ x ∈ item.nested, TimeValid x) ∧ ∀ x ∈ item.nested, LengthFits x))

/-! ## A condition on everything in an item -/

section Every

variable {p : Item → Prop}

theorem forall_nestedList {items : List Item} :
    (∀ x ∈ nestedList items, p x) ↔ ∀ item ∈ items, item.Every p := by
  induction items with
  | nil => simp [nestedList]
  | cons item rest ih =>
    rw [nestedList, List.forall_mem_append, ih, List.forall_mem_cons]
    rfl

theorem forall_nestedEntries {entries : List (String × Item)} :
    (∀ x ∈ nestedEntries entries, p x) ↔ ∀ e ∈ entries, (variant e.1 e.2).Every p := by
  induction entries with
  | nil => simp [nestedEntries]
  | cons entry rest ih =>
    obtain ⟨name, item⟩ := entry
    have hhead : (variant name item).Every p =
        ∀ x ∈ variant name item :: string name :: item.nested, p x := by
      rw [Every, nested]
    rw [nestedEntries, List.forall_mem_append, ih, ← hhead]
    constructor
    · rintro ⟨hfirst, hrest⟩
      exact List.forall_mem_cons.2 ⟨hfirst, hrest⟩
    · intro h
      exact List.forall_mem_cons.1 h

theorem every_list {items : List Item} :
    (list items).Every p ↔ p (list items) ∧ ∀ item ∈ items, item.Every p := by
  rw [Every, nested, List.forall_mem_cons, forall_nestedList]

theorem every_map {entries : List (String × Item)} :
    (map entries).Every p ↔ p (map entries) ∧ ∀ e ∈ entries, (variant e.1 e.2).Every p := by
  rw [Every, nested, List.forall_mem_cons, forall_nestedEntries]

theorem every_optionSome {item : Item} :
    (optionSome item).Every p ↔ p (optionSome item) ∧ item.Every p := by
  rw [Every, nested, List.forall_mem_cons]
  rfl

theorem every_variant {name : String} {item : Item} :
    (variant name item).Every p ↔ p (variant name item) ∧ p (string name) ∧ item.Every p := by
  rw [Every, nested, List.forall_mem_cons, List.forall_mem_cons]
  rfl

theorem every_self {item : Item} (h : item.Every p) : p item := by
  apply h
  cases item with
  | _ => simp [nested]

end Every

section Valid

variable {items : List Item} {entries : List (String × Item)} {name : String} {item : Item}

@[simp] theorem valid_list : (list items).Valid ↔ ∀ item ∈ items, item.Valid := by
  rw [Valid, every_list]
  exact and_iff_right trivial

@[simp] theorem valid_variant : (variant name item).Valid ↔ item.Valid := by
  rw [Valid, every_variant]
  exact ⟨fun h => h.2.2, fun h => ⟨trivial, trivial, h⟩⟩

@[simp] theorem valid_map : (map entries).Valid ↔ ∀ e ∈ entries, e.2.Valid := by
  rw [Valid, every_map, and_iff_right (show TimeValid (map entries) from trivial)]
  exact forall₂_congr fun _ _ => valid_variant

@[simp] theorem valid_u64 (n : UInt64) : (u64 n).Valid := List.forall_mem_singleton.2 trivial

@[simp] theorem valid_string (s : String) : (string s).Valid := List.forall_mem_singleton.2 trivial

@[simp] theorem valid_bytes (data : Bytes) : (bytes data).Valid :=
  List.forall_mem_singleton.2 trivial

end Valid

/-- An item in which nothing is nested can be written iff its own time and length allow it. -/
theorem writable_leaf {item : Item} (hleaf : item.nested = [item]) :
    item.Writable ↔ item.TimeValid ∧ item.LengthFits := by
  rw [Writable, Valid, LengthsFit, Every, Every, hleaf, List.forall_mem_singleton,
    List.forall_mem_singleton]

/-- An item of fixed width can be written if it is no time out of range. -/
theorem writable_of_fixed {item : Item} (hleaf : item.nested = [item]) (htime : item.TimeValid)
    (hbody : item.body? = none) : item.Writable := by
  refine (writable_leaf hleaf).2 ⟨htime, ?_⟩
  rw [LengthFits, hbody]
  intro body h
  cases h

theorem writable_string {s : String} :
    (string s).Writable ↔ (Bytes.ofText s).length ≤ maxLength := by
  rw [writable_leaf rfl]
  simp [TimeValid, LengthFits, body?]

theorem writable_bytes {data : Bytes} : (bytes data).Writable ↔ data.length ≤ maxLength := by
  rw [writable_leaf rfl]
  simp [TimeValid, LengthFits, body?]

theorem writable_timestamp {secs : Int64} {nanos : UInt32} :
    (timestamp secs nanos).Writable ↔ nanos.toNat < nanosPerSecond := by
  rw [writable_leaf rfl]
  simp [TimeValid, LengthFits, body?]

theorem writable_duration {secs : Int64} {nanos : Int32} :
    (duration secs nanos).Writable ↔ SpanNanosOk secs.toInt nanos.toInt := by
  rw [writable_leaf rfl]
  simp [TimeValid, LengthFits, body?]

theorem writable_list {items : List Item} :
    (list items).Writable ↔
      (listBytes items).length ≤ maxLength ∧ ∀ item ∈ items, item.Writable := by
  simp only [Writable, Valid, LengthsFit, every_list, TimeValid, LengthFits, body?,
    Option.mem_some_iff, forall_eq', true_and, imp_and, forall_and]
  exact and_left_comm

theorem writable_map {entries : List (String × Item)} :
    (map entries).Writable ↔
      (entriesBytes entries).length ≤ maxLength ∧ ∀ e ∈ entries, (variant e.1 e.2).Writable := by
  simp only [Writable, Valid, LengthsFit, every_map, TimeValid, LengthFits, body?,
    Option.mem_some_iff, forall_eq', true_and, imp_and, forall_and]
  exact and_left_comm

theorem writable_optionSome {item : Item} :
    (optionSome item).Writable ↔ item.toBytes.length ≤ maxLength ∧ item.Writable := by
  simp only [Writable, Valid, LengthsFit, every_optionSome, TimeValid, LengthFits, body?,
    Option.mem_some_iff, forall_eq', true_and]
  exact and_left_comm

/-- The name is part of the body that the variant's own length counts. -/
theorem writable_variant {name : String} {item : Item} :
    (variant name item).Writable ↔
      (Cursor.namedBody name item.toBytes).length ≤ maxLength ∧ item.Writable := by
  have hname : (Cursor.namedBody name item.toBytes).length ≤ maxLength →
      (Bytes.ofText name).length ≤ maxLength := by
    intro hle
    rw [Cursor.length_namedBody] at hle
    omega
  simp only [Writable, Valid, LengthsFit, every_variant, TimeValid, LengthFits, body?,
    Option.mem_some_iff, forall_eq', true_and]
  constructor
  · rintro ⟨hvalid, hle, -, hfit⟩
    exact ⟨hle, hvalid, hfit⟩
  · rintro ⟨hle, hvalid, hfit⟩
    exact ⟨hvalid, hle, hname hle, hfit⟩

/-! ## Written forms -/

/-- The tag at the front of an item. -/
def tag : Item → Tag
  | null => .null
  | bool b => if b then .boolTrue else .boolFalse
  | u64 _ => .u64
  | s64 _ => .s64
  | f64 _ => .f64
  | timestamp _ _ => .timestamp
  | duration _ _ => .duration
  | optionNone => .optionNone
  | string _ => .string
  | bytes _ => .bytes
  | list _ => .list
  | map _ => .map
  | optionSome _ => .optionSome
  | variant _ _ => .variant

theorem toBytes_eq_framed {item : Item} {body : Bytes} (h : item.body? = some body) :
    item.toBytes = framed item.tag body ∧ item.tag.width? = none := by
  cases item with
  | string | bytes | list | map | optionSome | variant =>
    obtain rfl := Option.some.inj h
    exact ⟨by rw [toBytes]; rfl, rfl⟩
  | _ => cases h

theorem toBytes_eq_cons (item : Item) : ∃ behind, item.toBytes = item.tag.code :: behind := by
  cases item with
  | _ => exact ⟨_, by rw [toBytes]; rfl⟩

/-- The written form of an item is one item for whoever passes over it. -/
theorem Writable.delimited {item : Item} (h : item.Writable) : Delimited item.toBytes := by
  cases hbody : item.body? with
  | some body =>
    obtain ⟨hbytes, hwidth⟩ := toBytes_eq_framed hbody
    rw [hbytes]
    exact .framed hwidth (every_self h.2 body hbody)
  | none =>
    cases item with
    | null | optionNone => exact .fixed rfl
    | bool b => cases b with | _ => exact .fixed rfl
    | u64 n | s64 n | f64 n => exact .fixed (by rw [Bytes.length_littleEndian]; rfl)
    | timestamp secs nanos | duration secs nanos =>
      exact .fixed (by
        rw [List.length_append, Bytes.length_littleEndian, Bytes.length_littleEndian]; rfl)
    | _ => cases hbody

theorem listBytes_eq_flatten (items : List Item) :
    listBytes items = (items.map toBytes).flatten := by
  induction items with
  | nil => rfl
  | cons item rest ih => rw [listBytes, ih, List.map_cons, List.flatten_cons]

theorem listBytes_append (xs ys : List Item) :
    listBytes (xs ++ ys) = listBytes xs ++ listBytes ys := by
  simp [listBytes_eq_flatten]

theorem listBytes_singleton (item : Item) : listBytes [item] = item.toBytes := by
  rw [listBytes, listBytes, List.append_nil]

theorem entriesBytes_eq_listBytes (entries : List (String × Item)) :
    entriesBytes entries = listBytes (entries.map fun e => variant e.1 e.2) := by
  induction entries with
  | nil => rfl
  | cons entry rest ih =>
    obtain ⟨name, item⟩ := entry
    rw [entriesBytes, ih, List.map_cons, listBytes, toBytes]

theorem entriesBytes_eq_flatMap (entries : List (String × Item)) :
    entriesBytes entries = entries.flatMap fun e => variantBytes e.1 e.2.toBytes := by
  induction entries with
  | nil => rfl
  | cons entry rest ih =>
    obtain ⟨name, item⟩ := entry
    rw [entriesBytes, ih, List.flatMap_cons]

/-- The windows of a list body are its items, if these can be written. -/
theorem items_listBytes {items : List Item} (h : ∀ item ∈ items, item.Writable) :
    Cursor.items (listBytes items) = (items.map toBytes, none) := by
  refine Cursor.items_eq_iff.2 ⟨?_, listBytes_eq_flatten items⟩
  rw [List.forall_mem_map]
  intro item hitem
  exact (h item hitem).delimited

/-- The windows of a map body are its entries, if these can be written. -/
theorem entries_entriesBytes {entries : List (String × Item)}
    (h : ∀ e ∈ entries, (variant e.1 e.2).Writable) :
    Cursor.entries (entriesBytes entries) =
      (entries.map fun e => (e.1, e.2.toBytes), none) := by
  refine Cursor.entries_eq_iff.2 ⟨?_, ?_⟩
  · rw [List.forall_mem_map]
    intro e he
    exact (writable_variant.1 (h e he)).1
  · rw [entriesBytes_eq_flatMap, List.flatMap_map]

end Item

/-- An item ends where it says: of two that start at one place neither goes on after the other. -/
theorem Delimited.eq_nil_of_append {item rest : Bytes} (h : Delimited item)
    (hmore : Delimited (item ++ rest)) : rest = [] := by
  have hshort : Cursor.skip.on (item ++ rest) = (.ok (), rest) :=
    Cursor.skip_eq_ok_iff.2 ⟨item, h, rfl⟩
  have hlong : Cursor.skip.on (item ++ rest) = (.ok (), []) :=
    Cursor.skip_eq_ok_iff.2 ⟨item ++ rest, hmore, (List.append_nil _).symm⟩
  rw [hshort] at hlong
  exact (Prod.mk.inj hlong).2

end Resumable.Wire
