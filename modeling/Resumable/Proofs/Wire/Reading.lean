import Resumable.Proofs.Wire.Writable

/-!
# Reading items back

`Item.read` looks at the tag in front and reads an item with the operation of that tag, and what is
nested in it from its body; the body of an option or of a variant must hold nothing but its item. It
accepts exactly the written forms of the items that can be written (`Item.read_eq_ok_iff`), so that
no two byte strings read as one item and no two items are written alike.
-/

namespace Resumable.Wire

namespace Cursor

variable {bs rest : Bytes}

/-- The body of a container is shorter than the container. -/
theorem length_body_lt {tag : Tag} {inner : Bytes} (h : (body tag).on bs = (.ok inner, rest)) :
    inner.length < bs.length := by
  obtain ⟨-, rfl⟩ := body_eq_ok_iff.1 h
  rw [List.length_append, Item.length_framed]
  omega

theorem length_option_lt {inner : Bytes} (h : option.on bs = (.ok (some inner), rest)) :
    inner.length < bs.length := by
  obtain ⟨-, rfl⟩ := option_eq_some_iff.1 h
  rw [List.length_append, Item.length_framed]
  omega

theorem length_variant_lt {name : String} {value : Bytes}
    (h : variant.on bs = (.ok (name, value), rest)) : value.length < bs.length := by
  obtain ⟨-, rfl⟩ := variant_eq_ok_iff.1 h
  rw [List.length_append, length_variantBytes]
  omega

theorem length_nextItem {window : Bytes} (h : nextItem.on bs = (.ok (some window), rest)) :
    window.length ≤ bs.length ∧ rest.length < bs.length := by
  obtain ⟨hwindow, rfl⟩ := nextItem_eq_some_iff.1 h
  have hpos := List.length_pos_iff.2 hwindow.ne_nil
  rw [List.length_append]
  omega

theorem length_nextEntry_lt {name : String} {value : Bytes}
    (h : nextEntry.on bs = (.ok (some (name, value)), rest)) :
    value.length < bs.length ∧ rest.length < bs.length := by
  obtain ⟨-, rfl⟩ := nextEntry_eq_some_iff.1 h
  rw [List.length_append, length_variantBytes]
  omega

end Cursor

namespace Item

/-- Reads an item that nothing is nested in, from what its operation reads. -/
def readLeaf {α : Type} (op : Read α) (item : α → Item) (bs : Bytes) :
    Except Error (Item × Bytes) :=
  match op.on bs with
  | (.ok a, rest) => .ok (item a, rest)
  | (.error e, _) => .error e

/-- The item of a body that holds one, when nothing is left behind it. -/
def only (scope : Scope) : Item × Bytes → Except Error Item
  | (item, []) => .ok item
  | (_, _ :: _) => .error (.tooManyItems scope)

mutual

/-- Reads the item in front with everything nested in it. -/
def read (bs : Bytes) : Except Error (Item × Bytes) := do
  match ← Cursor.peek.eval bs with
  | .null => readLeaf Cursor.null (fun _ => null) bs
  | .boolTrue | .boolFalse => readLeaf Cursor.bool bool bs
  | .u64 => readLeaf Cursor.u64 u64 bs
  | .s64 => readLeaf Cursor.s64 s64 bs
  | .f64 => readLeaf Cursor.f64 f64 bs
  | .timestamp => readLeaf Cursor.timestamp (fun t => timestamp t.1 t.2) bs
  | .duration => readLeaf Cursor.duration (fun t => duration t.1 t.2) bs
  | .string => readLeaf Cursor.string string bs
  | .bytes => readLeaf Cursor.bytes bytes bs
  | .list =>
    match _ : Cursor.list.on bs with
    | (.ok body, rest) => return (list (← readItems body), rest)
    | (.error e, _) => throw e
  | .map =>
    match _ : Cursor.map.on bs with
    | (.ok body, rest) => return (map (← readEntries body), rest)
    | (.error e, _) => throw e
  | .optionNone | .optionSome =>
    match _ : Cursor.option.on bs with
    | (.ok none, rest) => return (optionNone, rest)
    | (.ok (some body), rest) => return (optionSome (← only .option (← read body)), rest)
    | (.error e, _) => throw e
  | .variant =>
    match _ : Cursor.variant.on bs with
    | (.ok (name, value), rest) =>
      return (variant name (← only .variant (← read value)), rest)
    | (.error e, _) => throw e
termination_by (bs.length, 0)
decreasing_by
  · exact .left _ _ (Cursor.length_body_lt ‹_›)
  · exact .left _ _ (Cursor.length_body_lt ‹_›)
  · exact .left _ _ (Cursor.length_option_lt ‹_›)
  · exact .left _ _ (Cursor.length_variant_lt ‹_›)

/-- Reads the items of a list body, each from its own window. -/
def readItems (body : Bytes) : Except Error (List Item) :=
  match _ : Cursor.nextItem.on body with
  | (.ok none, _) => .ok []
  | (.ok (some window), rest) => do
    let (item, _) ← read window
    return item :: (← readItems rest)
  | (.error e, _) => .error e
termination_by (body.length, 1)
decreasing_by
  · exact Prod.Lex.right' _ (Cursor.length_nextItem ‹_›).1 Nat.zero_lt_one
  · exact .left _ _ (Cursor.length_nextItem ‹_›).2

/-- Reads the entries of a map body. -/
def readEntries (body : Bytes) : Except Error (List (String × Item)) :=
  match _ : Cursor.nextEntry.on body with
  | (.ok none, _) => .ok []
  | (.ok (some (name, value)), rest) => do
    let item ← only .variant (← read value)
    return (name, item) :: (← readEntries rest)
  | (.error e, _) => .error e
termination_by (body.length, 1)
decreasing_by
  · exact .left _ _ (Cursor.length_nextEntry_lt ‹_›).1
  · exact .left _ _ (Cursor.length_nextEntry_lt ‹_›).2

end

variable {bs rest : Bytes} {item : Item}

theorem readLeaf_eq_ok_iff {α : Type} {op : Read α} {f : α → Item} :
    readLeaf op f bs = .ok (item, rest) ↔ ∃ a, op.on bs = (.ok a, rest) ∧ f a = item := by
  unfold readLeaf
  rcases op.on bs with ⟨e | a, behind⟩
  · simp
  · constructor
    · intro h
      obtain ⟨rfl, rfl⟩ := Prod.mk.inj (Except.ok.inj h)
      exact ⟨a, rfl, rfl⟩
    · rintro ⟨a', ha, rfl⟩
      cases ha
      rfl

theorem only_eq_ok_iff {scope : Scope} {found : Item × Bytes} :
    only scope found = .ok item ↔ found = (item, []) := by
  obtain ⟨item', behind⟩ := found
  cases behind with
  | nil => simp [only]
  | cons b behind => simp [only]

/-! ## What is read was written so -/

/-- Whether whatever is read at the front of some bytes stands there in its written form. -/
def ReadsWritten (bs : Bytes) : Prop :=
  ∀ item rest, read bs = .ok (item, rest) → item.Writable ∧ bs = item.toBytes ++ rest

/-- Items that are read from a list body are the body, if this holds of each window of it. -/
theorem of_readItems_eq_ok {body : Bytes} {items : List Item}
    (hread : ∀ window : Bytes, window.length ≤ body.length → ReadsWritten window)
    (h : readItems body = .ok items) :
    (∀ item ∈ items, item.Writable) ∧ body = listBytes items := by
  induction hlen : body.length using Nat.strongRecOn generalizing body items with
  | ind n ih =>
    subst hlen
    rw [readItems] at h
    split at h
    · rename_i behind hnext
      cases h
      exact ⟨nofun, (Cursor.nextItem_eq_none_iff.1 hnext).1⟩
    · rename_i window behind hnext
      obtain ⟨⟨item, left⟩, hitem, h⟩ := bind_eq_ok_iff.1 h
      obtain ⟨more, hmore, h⟩ := bind_eq_ok_iff.1 h
      cases h
      obtain ⟨hle, hlt⟩ := Cursor.length_nextItem hnext
      have hshorter : ∀ window : Bytes, window.length ≤ behind.length → ReadsWritten window :=
        fun window hwindow => hread window (Nat.le_of_lt (Nat.lt_of_le_of_lt hwindow hlt))
      obtain ⟨hwritable, rfl⟩ := hread window hle item left hitem
      obtain ⟨hrest, rfl⟩ := ih behind.length hlt hshorter hmore rfl
      obtain ⟨hwindow, rfl⟩ := Cursor.nextItem_eq_some_iff.1 hnext
      -- the window was cut where the item ends
      obtain rfl := hwritable.delimited.eq_nil_of_append hwindow
      rw [List.append_nil]
      exact ⟨List.forall_mem_cons.2 ⟨hwritable, hrest⟩, rfl⟩
    · cases h

/-- Entries that are read from a map body are the body, if this holds of each value in it. -/
theorem of_readEntries_eq_ok {body : Bytes} {entries : List (String × Item)}
    (hread : ∀ value : Bytes, value.length < body.length → ReadsWritten value)
    (h : readEntries body = .ok entries) :
    (∀ e ∈ entries, (variant e.1 e.2).Writable) ∧ body = entriesBytes entries := by
  induction hlen : body.length using Nat.strongRecOn generalizing body entries with
  | ind n ih =>
    subst hlen
    rw [readEntries] at h
    split at h
    · rename_i behind hnext
      cases h
      exact ⟨nofun, (Cursor.nextEntry_eq_none_iff.1 hnext).1⟩
    · rename_i name value behind hnext
      obtain ⟨found, hfound, h⟩ := bind_eq_ok_iff.1 h
      obtain ⟨item, hitem, h⟩ := bind_eq_ok_iff.1 h
      obtain ⟨more, hmore, h⟩ := bind_eq_ok_iff.1 h
      cases h
      obtain rfl := only_eq_ok_iff.1 hitem
      obtain ⟨hvalue, hlt⟩ := Cursor.length_nextEntry_lt hnext
      have hshorter : ∀ value : Bytes, value.length < behind.length → ReadsWritten value :=
        fun value hlt' => hread value (Nat.lt_trans hlt' hlt)
      obtain ⟨hwritable, rfl⟩ := hread value hvalue item [] hfound
      obtain ⟨hrest, rfl⟩ := ih behind.length hlt hshorter hmore rfl
      obtain ⟨hle, rfl⟩ := Cursor.nextEntry_eq_some_iff.1 hnext
      rw [List.append_nil] at hle ⊢
      exact ⟨List.forall_mem_cons.2 ⟨writable_variant.2 ⟨hle, hwritable⟩, hrest⟩, rfl⟩
    · cases h

/-- What is read can be written and was written so. -/
theorem readsWritten (bs : Bytes) : ReadsWritten bs := by
  induction hlen : bs.length using Nat.strongRecOn generalizing bs with
  | ind n ih =>
    subst hlen
    -- what is nested in an item is read from a body that is shorter
    have hshorter : ∀ inner : Bytes, inner.length < bs.length → ReadsWritten inner :=
      fun inner hlt => ih inner.length hlt inner rfl
    intro item rest h
    rw [read] at h
    obtain ⟨tag, -, h⟩ := bind_eq_ok_iff.1 h
    cases tag with
    | null =>
      obtain ⟨a, ha, rfl⟩ := readLeaf_eq_ok_iff.1 h
      exact ⟨(writable_leaf rfl).2 ⟨trivial, nofun⟩, Cursor.null_eq_ok_iff.1 ha⟩
    | boolTrue | boolFalse =>
      obtain ⟨b, hb, rfl⟩ := readLeaf_eq_ok_iff.1 h
      exact ⟨(writable_leaf rfl).2 ⟨trivial, nofun⟩, Cursor.bool_eq_ok_iff.1 hb⟩
    | u64 =>
      obtain ⟨n, hn, rfl⟩ := readLeaf_eq_ok_iff.1 h
      exact ⟨(writable_leaf rfl).2 ⟨trivial, nofun⟩, Cursor.u64_eq_ok_iff.1 hn⟩
    | s64 =>
      obtain ⟨n, hn, rfl⟩ := readLeaf_eq_ok_iff.1 h
      exact ⟨(writable_leaf rfl).2 ⟨trivial, nofun⟩, Cursor.s64_eq_ok_iff.1 hn⟩
    | f64 =>
      obtain ⟨n, hn, rfl⟩ := readLeaf_eq_ok_iff.1 h
      exact ⟨(writable_leaf rfl).2 ⟨trivial, nofun⟩, Cursor.f64_eq_ok_iff.1 hn⟩
    | timestamp =>
      obtain ⟨⟨secs, nanos⟩, ht, rfl⟩ := readLeaf_eq_ok_iff.1 h
      obtain ⟨hnanos, rfl⟩ := Cursor.timestamp_eq_ok_iff.1 ht
      exact ⟨writable_timestamp.2 hnanos, rfl⟩
    | duration =>
      obtain ⟨⟨secs, nanos⟩, ht, rfl⟩ := readLeaf_eq_ok_iff.1 h
      obtain ⟨hnanos, rfl⟩ := Cursor.duration_eq_ok_iff.1 ht
      exact ⟨writable_duration.2 hnanos, rfl⟩
    | string =>
      obtain ⟨s, hs, rfl⟩ := readLeaf_eq_ok_iff.1 h
      obtain ⟨hle, rfl⟩ := Cursor.string_eq_ok_iff.1 hs
      exact ⟨writable_string.2 hle, rfl⟩
    | bytes =>
      obtain ⟨data, hdata, rfl⟩ := readLeaf_eq_ok_iff.1 h
      obtain ⟨hle, rfl⟩ := Cursor.bytes_eq_ok_iff.1 hdata
      exact ⟨writable_bytes.2 hle, rfl⟩
    | list =>
      dsimp only at h
      split at h
      · rename_i body behind hlist
        obtain ⟨items, hitems, h⟩ := bind_eq_ok_iff.1 h
        cases h
        have hlt := Cursor.length_body_lt hlist
        obtain ⟨hwritable, rfl⟩ :=
          of_readItems_eq_ok (fun window hle => hshorter window (Nat.lt_of_le_of_lt hle hlt)) hitems
        obtain ⟨hle, rfl⟩ := Cursor.body_eq_ok_iff.1 hlist
        exact ⟨writable_list.2 ⟨hle, hwritable⟩, rfl⟩
      · cases h
    | map =>
      dsimp only at h
      split at h
      · rename_i body behind hmap
        obtain ⟨entries, hentries, h⟩ := bind_eq_ok_iff.1 h
        cases h
        have hlt := Cursor.length_body_lt hmap
        obtain ⟨hwritable, rfl⟩ :=
          of_readEntries_eq_ok (fun value hlt' => hshorter value (Nat.lt_trans hlt' hlt)) hentries
        obtain ⟨hle, rfl⟩ := Cursor.body_eq_ok_iff.1 hmap
        exact ⟨writable_map.2 ⟨hle, hwritable⟩, rfl⟩
      · cases h
    | optionNone | optionSome =>
      dsimp only at h
      split at h
      · rename_i behind hoption
        cases h
        exact ⟨(writable_leaf rfl).2 ⟨trivial, nofun⟩, Cursor.option_eq_none_iff.1 hoption⟩
      · rename_i body behind hoption
        obtain ⟨found, hfound, h⟩ := bind_eq_ok_iff.1 h
        obtain ⟨inner, hinner, h⟩ := bind_eq_ok_iff.1 h
        cases h
        obtain rfl := only_eq_ok_iff.1 hinner
        obtain ⟨hwritable, rfl⟩ := hshorter body (Cursor.length_option_lt hoption) _ _ hfound
        obtain ⟨hle, rfl⟩ := Cursor.option_eq_some_iff.1 hoption
        rw [List.append_nil] at hle ⊢
        exact ⟨writable_optionSome.2 ⟨hle, hwritable⟩, rfl⟩
      · cases h
    | variant =>
      dsimp only at h
      split at h
      · rename_i name value behind hvariant
        obtain ⟨found, hfound, h⟩ := bind_eq_ok_iff.1 h
        obtain ⟨inner, hinner, h⟩ := bind_eq_ok_iff.1 h
        cases h
        obtain rfl := only_eq_ok_iff.1 hinner
        obtain ⟨hwritable, rfl⟩ := hshorter value (Cursor.length_variant_lt hvariant) _ _ hfound
        obtain ⟨hle, rfl⟩ := Cursor.variant_eq_ok_iff.1 hvariant
        rw [List.append_nil] at hle ⊢
        exact ⟨writable_variant.2 ⟨hle, hwritable⟩, rfl⟩
      · cases h

/-! ## What was written is read so -/

theorem peek_toBytes (item : Item) (rest : Bytes) :
    Cursor.peek.eval (item.toBytes ++ rest) = .ok item.tag := by
  obtain ⟨behind, hbytes⟩ := toBytes_eq_cons item
  rw [hbytes, List.cons_append, Read.eval, Cursor.peek_cons]

theorem read_list {body : Bytes} (hle : body.length ≤ maxLength) :
    read (framed .list body ++ rest) = do return (list (← readItems body), rest) := by
  have hlist : Cursor.list.on (framed .list body ++ rest) = (.ok body, rest) :=
    Cursor.body_eq_ok_iff.2 ⟨hle, rfl⟩
  rw [read, framed_append, Read.eval, Cursor.peek_cons, ← framed_append]
  dsimp only [bind, Except.bind]
  split
  · rename_i found behind h
    rw [hlist] at h
    cases h
    rfl
  · rename_i e behind h
    rw [hlist] at h
    cases h

theorem read_map {body : Bytes} (hle : body.length ≤ maxLength) :
    read (framed .map body ++ rest) = do return (map (← readEntries body), rest) := by
  have hmap : Cursor.map.on (framed .map body ++ rest) = (.ok body, rest) :=
    Cursor.body_eq_ok_iff.2 ⟨hle, rfl⟩
  rw [read, framed_append, Read.eval, Cursor.peek_cons, ← framed_append]
  dsimp only [bind, Except.bind]
  split
  · rename_i found behind h
    rw [hmap] at h
    cases h
    rfl
  · rename_i e behind h
    rw [hmap] at h
    cases h

theorem read_optionSome {body : Bytes} (hle : body.length ≤ maxLength) :
    read (framed .optionSome body ++ rest) = do
      return (optionSome (← only .option (← read body)), rest) := by
  have hoption : Cursor.option.on (framed .optionSome body ++ rest) = (.ok (some body), rest) :=
    Cursor.option_eq_some_iff.2 ⟨hle, rfl⟩
  rw [read, framed_append, Read.eval, Cursor.peek_cons, ← framed_append]
  dsimp only [bind, Except.bind]
  split
  · rename_i behind h
    rw [hoption] at h
    cases h
  · rename_i found behind h
    rw [hoption] at h
    cases h
    rfl
  · rename_i e behind h
    rw [hoption] at h
    cases h

theorem read_variant {name : String} {value : Bytes}
    (hle : (Cursor.namedBody name value).length ≤ maxLength) :
    read (variantBytes name value ++ rest) = do
      return (variant name (← only .variant (← read value)), rest) := by
  have hvariant : Cursor.variant.on (variantBytes name value ++ rest) = (.ok (name, value), rest) :=
    Cursor.variant_eq_ok_iff.2 ⟨hle, rfl⟩
  rw [read, variantBytes, framed_append, Read.eval, Cursor.peek_cons, ← framed_append,
    ← variantBytes]
  dsimp only [bind, Except.bind]
  split
  · rename_i found behind behind' h
    rw [hvariant] at h
    cases h
    rfl
  · rename_i e behind h
    rw [hvariant] at h
    cases h

theorem readItems_nil : readItems [] = .ok [] := by
  rw [readItems]
  split
  · rfl
  · rename_i window behind h
    obtain ⟨hwindow, hnil⟩ := Cursor.nextItem_eq_some_iff.1 h
    exact absurd (List.append_eq_nil_iff.1 hnil.symm).1 hwindow.ne_nil
  · rename_i e behind h
    rw [Cursor.nextItem_eq_none_iff.2 ⟨rfl, rfl⟩] at h
    cases h

theorem readItems_append {window : Bytes} (hwindow : Delimited window) :
    readItems (window ++ rest) = do
      let (item, _) ← read window
      return item :: (← readItems rest) := by
  have hnext : Cursor.nextItem.on (window ++ rest) = (.ok (some window), rest) :=
    Cursor.nextItem_eq_some_iff.2 ⟨hwindow, rfl⟩
  rw [readItems]
  split
  · rename_i behind h
    rw [hnext] at h
    cases h
  · rename_i found behind h
    rw [hnext] at h
    cases h
    rfl
  · rename_i e behind h
    rw [hnext] at h
    cases h

theorem readEntries_nil : readEntries [] = .ok [] := by
  rw [readEntries]
  split
  · rfl
  · rename_i name value behind h
    obtain ⟨-, hnil⟩ := Cursor.nextEntry_eq_some_iff.1 h
    cases hnil
  · rename_i e behind h
    rw [Cursor.nextEntry_eq_none_iff.2 ⟨rfl, rfl⟩] at h
    cases h

theorem readEntries_append {name : String} {value : Bytes}
    (hle : (Cursor.namedBody name value).length ≤ maxLength) :
    readEntries (variantBytes name value ++ rest) = do
      let item ← only .variant (← read value)
      return (name, item) :: (← readEntries rest) := by
  have hnext : Cursor.nextEntry.on (variantBytes name value ++ rest) =
      (.ok (some (name, value)), rest) :=
    Cursor.nextEntry_eq_some_iff.2 ⟨hle, rfl⟩
  rw [readEntries]
  split
  · rename_i behind h
    rw [hnext] at h
    cases h
  · rename_i name' value' behind h
    rw [hnext] at h
    cases h
    rfl
  · rename_i e behind h
    rw [hnext] at h
    cases h

theorem read_optionNone : read (optionNone.toBytes ++ rest) = .ok (optionNone, rest) := by
  have hoption : Cursor.option.on (optionNone.toBytes ++ rest) = (.ok none, rest) :=
    Cursor.option_eq_none_iff.2 rfl
  rw [read, peek_toBytes]
  dsimp only [tag, bind, Except.bind]
  split
  · rename_i behind h
    rw [hoption] at h
    cases h
    rfl
  · rename_i body behind h
    rw [hoption] at h
    cases h
  · rename_i e behind h
    rw [hoption] at h
    cases h

/-- An item in which nothing is nested is read with the operation of its tag. -/
theorem read_leaf {α : Type} {op : Read α} {f : α → Item} {a : α}
    (hdispatch : ∀ bs, Cursor.peek.eval bs = .ok (f a).tag → read bs = readLeaf op f bs)
    (hop : op.on ((f a).toBytes ++ rest) = (.ok a, rest)) :
    read ((f a).toBytes ++ rest) = .ok (f a, rest) := by
  rw [hdispatch _ (peek_toBytes _ _)]
  exact readLeaf_eq_ok_iff.2 ⟨a, hop, rfl⟩

mutual

theorem read_toBytes_append : (item : Item) → (rest : Bytes) → item.Writable →
    read (item.toBytes ++ rest) = .ok (item, rest)
  | null, _, _ =>
    read_leaf (f := fun _ => null) (a := ()) (fun bs hpeek => by rw [read, hpeek]; rfl)
      (Cursor.null_eq_ok_iff.2 rfl)
  | bool false, _, _ =>
    read_leaf (f := bool) (a := false) (fun bs hpeek => by rw [read, hpeek]; rfl)
      (Cursor.bool_eq_ok_iff.2 rfl)
  | bool true, _, _ =>
    read_leaf (f := bool) (a := true) (fun bs hpeek => by rw [read, hpeek]; rfl)
      (Cursor.bool_eq_ok_iff.2 rfl)
  | u64 n, _, _ =>
    read_leaf (f := u64) (a := n) (fun bs hpeek => by rw [read, hpeek]; rfl)
      (Cursor.u64_eq_ok_iff.2 rfl)
  | s64 n, _, _ =>
    read_leaf (f := s64) (a := n) (fun bs hpeek => by rw [read, hpeek]; rfl)
      (Cursor.s64_eq_ok_iff.2 rfl)
  | f64 bits, _, _ =>
    read_leaf (f := f64) (a := bits) (fun bs hpeek => by rw [read, hpeek]; rfl)
      (Cursor.f64_eq_ok_iff.2 rfl)
  | timestamp secs nanos, _, h =>
    read_leaf (f := fun t => timestamp t.1 t.2) (a := (secs, nanos))
      (fun bs hpeek => by rw [read, hpeek]; rfl)
      (Cursor.timestamp_eq_ok_iff.2 ⟨writable_timestamp.1 h, rfl⟩)
  | duration secs nanos, _, h =>
    read_leaf (f := fun t => duration t.1 t.2) (a := (secs, nanos))
      (fun bs hpeek => by rw [read, hpeek]; rfl)
      (Cursor.duration_eq_ok_iff.2 ⟨writable_duration.1 h, rfl⟩)
  | optionNone, _, _ => read_optionNone
  | string s, _, h =>
    read_leaf (f := string) (a := s) (fun bs hpeek => by rw [read, hpeek]; rfl)
      (Cursor.string_eq_ok_iff.2 ⟨writable_string.1 h, rfl⟩)
  | bytes data, _, h =>
    read_leaf (f := bytes) (a := data) (fun bs hpeek => by rw [read, hpeek]; rfl)
      (Cursor.bytes_eq_ok_iff.2 ⟨writable_bytes.1 h, rfl⟩)
  | list items, rest, h => by
    obtain ⟨hle, hitems⟩ := writable_list.1 h
    rw [toBytes, read_list hle, readItems_listBytes items hitems]
    rfl
  | map entries, rest, h => by
    obtain ⟨hle, hentries⟩ := writable_map.1 h
    rw [toBytes, read_map hle, readEntries_entriesBytes entries hentries]
    rfl
  | optionSome item, rest, h => by
    obtain ⟨hle, hitem⟩ := writable_optionSome.1 h
    have hinner := read_toBytes_append item [] hitem
    rw [List.append_nil] at hinner
    rw [toBytes, read_optionSome hle, hinner]
    rfl
  | variant name item, rest, h => by
    obtain ⟨hle, hitem⟩ := writable_variant.1 h
    have hinner := read_toBytes_append item [] hitem
    rw [List.append_nil] at hinner
    rw [toBytes, read_variant hle, hinner]
    rfl

theorem readItems_listBytes : (items : List Item) → (∀ item ∈ items, item.Writable) →
    readItems (listBytes items) = .ok items
  | [], _ => by rw [listBytes, readItems_nil]
  | item :: rest, h => by
    obtain ⟨hitem, hrest⟩ := List.forall_mem_cons.1 h
    have hwindow := read_toBytes_append item [] hitem
    rw [List.append_nil] at hwindow
    rw [listBytes, readItems_append hitem.delimited, hwindow, readItems_listBytes rest hrest]
    rfl

theorem readEntries_entriesBytes : (entries : List (String × Item)) →
    (∀ e ∈ entries, (variant e.1 e.2).Writable) →
    readEntries (entriesBytes entries) = .ok entries
  | [], _ => by rw [entriesBytes, readEntries_nil]
  | (name, item) :: rest, h => by
    obtain ⟨hentry, hrest⟩ := List.forall_mem_cons.1 h
    obtain ⟨hle, hitem⟩ := writable_variant.1 hentry
    have hvalue := read_toBytes_append item [] hitem
    rw [List.append_nil] at hvalue
    rw [entriesBytes, readEntries_append hle, hvalue, readEntries_entriesBytes rest hrest]
    rfl

end

/-- An item can be read at the front of some bytes iff it can be written and stands there in its
written form. -/
theorem read_eq_ok_iff :
    read bs = .ok (item, rest) ↔ item.Writable ∧ bs = item.toBytes ++ rest := by
  constructor
  · intro h
    exact readsWritten bs item rest h
  · rintro ⟨hitem, rfl⟩
    exact read_toBytes_append item rest hitem

/-- Reads items until no byte is left. -/
def readAll (bs : Bytes) : Except Error (List Item) :=
  if bs = [] then .ok []
  else
    match _ : read bs with
    | .ok (item, rest) => do return item :: (← readAll rest)
    | .error e => .error e
termination_by bs.length
decreasing_by
  obtain ⟨hitem, rfl⟩ := read_eq_ok_iff.1 ‹_›
  have hpos := List.length_pos_iff.2 hitem.delimited.ne_nil
  rw [List.length_append]
  omega

/-- Bytes are read to their end iff they are the written forms of items that can be written. -/
theorem readAll_eq_ok_iff {items : List Item} :
    readAll bs = .ok items ↔ (∀ item ∈ items, item.Writable) ∧ bs = listBytes items := by
  constructor
  · intro h
    induction hlen : bs.length using Nat.strongRecOn generalizing bs items with
    | ind n ih =>
      subst hlen
      rw [readAll] at h
      split at h
      · rename_i hnil
        cases h
        exact ⟨nofun, hnil⟩
      · split at h
        · rename_i item rest hread
          obtain ⟨more, hmore, h⟩ := bind_eq_ok_iff.1 h
          cases h
          obtain ⟨hitem, rfl⟩ := read_eq_ok_iff.1 hread
          have hpos := List.length_pos_iff.2 hitem.delimited.ne_nil
          have hlt : rest.length < (item.toBytes ++ rest).length := by
            rw [List.length_append]
            omega
          obtain ⟨hwritable, rfl⟩ := ih rest.length hlt hmore rfl
          exact ⟨List.forall_mem_cons.2 ⟨hitem, hwritable⟩, rfl⟩
        · cases h
  · rintro ⟨h, rfl⟩
    induction items with
    | nil => rw [listBytes, readAll, if_pos rfl]
    | cons item items ih =>
      obtain ⟨hitem, hitems⟩ := List.forall_mem_cons.1 h
      have hread := read_eq_ok_iff.2 ⟨hitem, (rfl : item.toBytes ++ listBytes items = _)⟩
      have hne : item.toBytes ++ listBytes items ≠ [] :=
        List.append_ne_nil_of_left_ne_nil hitem.delimited.ne_nil _
      rw [listBytes, readAll, if_neg hne]
      split
      · rename_i item' rest h
        rw [hread] at h
        cases h
        rw [ih hitems]
        rfl
      · rename_i e h
        rw [hread] at h
        cases h

end Item

end Resumable.Wire
