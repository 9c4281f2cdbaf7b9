import Resumable.Proofs.Wire.Draft
import Resumable.Proofs.Wire.Reading

/-!
# Writing items and reading them back

Writing an item adds it to what the writer holds, exactly when it can be written and may come next
(`Item.writesSelf`). With what reading accepts this makes writing and reading inverse to each other
(`Item.encode_inverse_readAll`): every row of items that can be written is written and read back,
and bytes that are read are the ones that writing gives.
-/

namespace Resumable.Wire

open Write

namespace Item

variable {w' : Writer} {u : Unit}

/-- A container in which any items may follow one another. -/
structure Row (within : List Item → Draft) : Prop where
  allows : ∀ items tag, (within items).Allows tag
  add : ∀ items item, (within items).add item = within (items ++ [item])

theorem row_root : Row .root :=
  ⟨fun _ _ => trivial, fun _ _ => rfl⟩

theorem row_list (d : Draft) : Row fun items => d.inside (.list items) :=
  ⟨fun _ _ => trivial, fun _ _ => rfl⟩

/-- Whether writing an item adds it to every draft that allows it, if it can be written at all. -/
def WritesSelf (item : Item) : Prop :=
  ∀ (d : Draft) (w' : Writer) (u : Unit), item.write.on d.toWriter = (.ok u, w') ↔
    d.Allows item.tag ∧ item.Writable ∧ w' = (d.add item).toWriter

/-- An item without nested ones is written where its tag may come. -/
theorem writesSelf_scalar {item : Item} {data : Bytes}
    (hwrite : item.write = Writer.scalar item.tag data)
    (hbytes : item.toBytes = item.tag.code :: data) (hwritable : item.Writable) :
    item.WritesSelf := by
  intro d w' u
  rw [hwrite, Writer.scalar_eq_ok_iff, Draft.allow_eq_ok_iff, ← hbytes]
  constructor
  · rintro ⟨hallows, rfl⟩
    exact ⟨hallows, hwritable, (Draft.toWriter_add hallows).symm⟩
  · rintro ⟨hallows, -, rfl⟩
    exact ⟨hallows, Draft.toWriter_add hallows⟩

theorem writesSelf_blob {item : Item} {data : Bytes}
    (hwrite : item.write = Writer.blob item.tag data) (hbytes : item.toBytes = framed item.tag data)
    (hwritable : item.Writable ↔ data.length ≤ maxLength) : item.WritesSelf := by
  intro d w' u
  rw [hwrite, Writer.blob_eq_ok_iff, Draft.allow_eq_ok_iff, ← hbytes, hwritable]
  constructor
  · rintro ⟨hle, hallows, rfl⟩
    exact ⟨hallows, hle, (Draft.toWriter_add hallows).symm⟩
  · rintro ⟨hallows, hle, rfl⟩
    exact ⟨hle, hallows, Draft.toWriter_add hallows⟩

/-- A time is checked before it is written. -/
theorem writesSelf_time {item : Item} {data : Bytes} {c : Prop} [Decidable c] {e : Error}
    (hwrite : item.write = do
      if c then throw e
      Writer.scalar item.tag data)
    (hbytes : item.toBytes = item.tag.code :: data) (hwritable : item.Writable ↔ ¬c) :
    item.WritesSelf := by
  intro d w' u
  rw [hwrite, on_guard_eq_ok_iff, Writer.scalar_eq_ok_iff, Draft.allow_eq_ok_iff, ← hbytes,
    hwritable]
  constructor
  · rintro ⟨hc, hallows, rfl⟩
    exact ⟨hallows, hc, (Draft.toWriter_add hallows).symm⟩
  · rintro ⟨hallows, hc, rfl⟩
    exact ⟨hc, hallows, Draft.toWriter_add hallows⟩

/-- A container is written by opening it, writing what stands in it, and closing it. -/
theorem writesSelf_container {item : Item} (opened filled : Part) {inner : Write Unit}
    (hwrite : item.write = do
      Writer.openScope opened.tag opened.scope
      inner
      Writer.closeScope opened.scope)
    (hopened : opened.body = [] ∧ opened.contents = [])
    (hfilled : filled.closed? = some item ∧ filled.tag = opened.tag ∧ filled.scope = opened.scope)
    (hinner : ∀ (d : Draft) (w' : Writer) (u : Unit),
      inner.on (d.inside opened).toWriter = (.ok u, w') ↔
        (∀ x ∈ filled.contents, x.Writable) ∧ w' = (d.inside filled).toWriter) :
    item.WritesSelf := by
  intro d w' u
  obtain ⟨hclosed, htag, hscope⟩ := hfilled
  obtain ⟨-, hitemTag⟩ := Part.toBytes_of_closed? hclosed
  rw [hwrite, on_bind_eq_ok_iff, Part.writable_iff_of_closed? hclosed, hitemTag, htag]
  constructor
  · rintro ⟨v, w₁, hopen, hrest⟩
    obtain ⟨hallows, rfl⟩ := (Draft.openScope_eq_ok_iff hopened.1 hopened.2).1 hopen
    -- what is written inside fills the container, which is then the one that is closed
    obtain ⟨v, w₂, hin, hclose⟩ := on_bind_eq_ok_iff.1 hrest
    obtain ⟨hwritable, rfl⟩ := (hinner d w₂ v).1 hin
    obtain ⟨-, hle, item', hitem', rfl⟩ :=
      (Draft.closeScope_inside_eq_ok_iff (htag ▸ hallows)).1 hclose
    rw [hclosed] at hitem'
    obtain rfl := Option.some.inj hitem'
    exact ⟨hallows, ⟨hle, hwritable⟩, rfl⟩
  · rintro ⟨hallows, ⟨hle, hwritable⟩, rfl⟩
    refine ⟨(), _, (Draft.openScope_eq_ok_iff hopened.1 hopened.2).2 ⟨hallows, rfl⟩, ?_⟩
    refine on_bind_eq_ok_iff.2 ⟨(), _, (hinner d _ ()).2 ⟨hwritable, rfl⟩, ?_⟩
    exact (Draft.closeScope_inside_eq_ok_iff (htag ▸ hallows)).2
      ⟨hscope, hle, item, hclosed, rfl⟩

theorem writesSelf_variant (name : String) {item : Item} (hitem : item.WritesSelf) :
    (variant name item).WritesSelf := by
  intro d w' u
  have hadd : ∀ outer : Draft, (outer.inside (.variant name none)).add item =
      outer.inside (.variant name (some item)) := fun _ => rfl
  have hwritable := Part.writable_iff_of_closed?
    (rfl : (Part.variant name (some item)).closed? = some _)
  rw [write, on_bind_eq_ok_iff, hwritable, Part.contents, Option.toList_some,
    List.forall_mem_singleton]
  constructor
  · rintro ⟨v, w₁, hopen, hrest⟩
    obtain ⟨-, hallows, rfl⟩ := Draft.variantBegin_eq_ok_iff.1 hopen
    obtain ⟨v, w₂, hin, hclose⟩ := on_bind_eq_ok_iff.1 hrest
    obtain ⟨-, hinner, rfl⟩ := (hitem _ w₂ v).1 hin
    rw [hadd] at hclose
    obtain ⟨-, hle, found, hfound, rfl⟩ := (Draft.closeScope_inside_eq_ok_iff hallows).1 hclose
    obtain rfl := Option.some.inj hfound
    exact ⟨hallows, ⟨hle, hinner⟩, rfl⟩
  · rintro ⟨hallows, ⟨hle, hinner⟩, rfl⟩
    have hname : (Bytes.ofText name).length ≤ maxLength := by
      have hbody : (framed .string (Bytes.ofText name) ++ listBytes [item]).length =
          (framed .string (Bytes.ofText name)).length + (listBytes [item]).length :=
        List.length_append
      rw [length_framed] at hbody
      exact Nat.le_trans (by omega) (hbody ▸ hle)
    refine ⟨(), _, Draft.variantBegin_eq_ok_iff.2 ⟨hname, hallows, rfl⟩, ?_⟩
    refine on_bind_eq_ok_iff.2 ⟨(), _, (hitem _ _ ()).2 ⟨rfl, hinner, rfl⟩, ?_⟩
    rw [hadd]
    exact (Draft.closeScope_inside_eq_ok_iff hallows).2 ⟨rfl, hle, _, rfl, rfl⟩

/-- A named item in a map is written as a variant. -/
theorem writeEntries_cons (name : String) (item : Item) (rest : List (String × Item)) :
    writeEntries ((name, item) :: rest) =
      (variant name item).write >>= fun _ => writeEntries rest := by
  rw [writeEntries, write]
  simp only [bind_assoc]

mutual

theorem writesSelf : (item : Item) → item.WritesSelf
  | null => writesSelf_scalar rfl rfl ((writable_leaf rfl).2 ⟨trivial, nofun⟩)
  | bool b => writesSelf_scalar rfl (by cases b with | _ => rfl)
      ((writable_leaf rfl).2 ⟨trivial, nofun⟩)
  | u64 _ => writesSelf_scalar rfl rfl ((writable_leaf rfl).2 ⟨trivial, nofun⟩)
  | s64 _ => writesSelf_scalar rfl rfl ((writable_leaf rfl).2 ⟨trivial, nofun⟩)
  | f64 _ => writesSelf_scalar rfl rfl ((writable_leaf rfl).2 ⟨trivial, nofun⟩)
  | timestamp _ _ => writesSelf_time rfl rfl (writable_timestamp.trans Nat.not_le.symm)
  | duration _ _ => writesSelf_time rfl rfl (writable_duration.trans Decidable.not_not.symm)
  | optionNone => writesSelf_scalar rfl rfl ((writable_leaf rfl).2 ⟨trivial, nofun⟩)
  | string _ => writesSelf_blob rfl rfl writable_string
  | bytes _ => writesSelf_blob rfl rfl writable_bytes
  | list items =>
    writesSelf_container (.list []) (.list items) rfl ⟨rfl, rfl⟩
      ⟨rfl, rfl, rfl⟩ (fun d => writeList_eq_ok_iff items (row_list d) [])
  | map entries =>
    writesSelf_container (.map []) (.map entries) rfl ⟨rfl, rfl⟩
      ⟨rfl, rfl, rfl⟩ (fun d w' u => by
        rw [Part.contents, List.forall_mem_map]
        exact writeEntries_eq_ok_iff entries d [] w' u)
  | optionSome item =>
    writesSelf_container (.option none) (.option (some item)) rfl ⟨rfl, rfl⟩
      ⟨rfl, rfl, rfl⟩ (fun d w' u => by
        rw [writesSelf item, Part.contents, Option.toList_some, List.forall_mem_singleton]
        exact and_iff_right rfl)
  | variant name item => writesSelf_variant name (writesSelf item)

theorem writeList_eq_ok_iff : (items : List Item) → {within : List Item → Draft} → Row within →
    (before : List Item) → (w' : Writer) → (u : Unit) →
    ((writeList items).on (within before).toWriter = (.ok u, w') ↔
      (∀ item ∈ items, item.Writable) ∧ w' = (within (before ++ items)).toWriter)
  | [], within, _, before, w', u => by
    rw [writeList, on_pure_eq_ok_iff, List.append_nil]
    constructor
    · rintro ⟨-, rfl⟩
      exact ⟨nofun, rfl⟩
    · rintro ⟨-, rfl⟩
      exact ⟨rfl, rfl⟩
  | item :: rest, within, hrow, before, w', u => by
    rw [writeList, on_bind_eq_ok_iff, List.forall_mem_cons]
    have happend : before ++ [item] ++ rest = before ++ item :: rest := List.append_cons .. |>.symm
    have hrest := writeList_eq_ok_iff rest hrow (before ++ [item]) w' u
    rw [happend] at hrest
    constructor
    · rintro ⟨v, mid, hwrite, hmore⟩
      obtain ⟨-, hitem, rfl⟩ := (writesSelf item _ _ _).1 hwrite
      rw [hrow.add] at hmore
      obtain ⟨hwritable, rfl⟩ := hrest.1 hmore
      exact ⟨⟨hitem, hwritable⟩, rfl⟩
    · rintro ⟨⟨hitem, hwritable⟩, rfl⟩
      refine ⟨(), _, (writesSelf item _ _ ()).2 ⟨hrow.allows _ _, hitem, rfl⟩, ?_⟩
      rw [hrow.add]
      exact hrest.2 ⟨hwritable, rfl⟩

theorem writeEntries_eq_ok_iff : (entries : List (String × Item)) → (d : Draft) →
    (before : List (String × Item)) → (w' : Writer) → (u : Unit) →
    ((writeEntries entries).on (d.inside (.map before)).toWriter = (.ok u, w') ↔
      (∀ e ∈ entries, (variant e.1 e.2).Writable) ∧
        w' = (d.inside (.map (before ++ entries))).toWriter)
  | [], d, before, w', u => by
    rw [writeEntries, on_pure_eq_ok_iff, List.append_nil]
    constructor
    · rintro ⟨-, rfl⟩
      exact ⟨nofun, rfl⟩
    · rintro ⟨-, rfl⟩
      exact ⟨rfl, rfl⟩
  | (name, item) :: rest, d, before, w', u => by
    have hentry := writesSelf_variant name (writesSelf item)
    have hadd : (d.inside (.map before)).add (variant name item) =
        d.inside (.map (before ++ [(name, item)])) := rfl
    have happend : before ++ [(name, item)] ++ rest = before ++ (name, item) :: rest :=
      List.append_cons .. |>.symm
    have hrest := writeEntries_eq_ok_iff rest d (before ++ [(name, item)]) w' u
    rw [happend] at hrest
    rw [writeEntries_cons, on_bind_eq_ok_iff, List.forall_mem_cons]
    constructor
    · rintro ⟨v, mid, hwrite, hmore⟩
      obtain ⟨-, hitem, rfl⟩ := (hentry _ _ _).1 hwrite
      rw [hadd] at hmore
      obtain ⟨hwritable, rfl⟩ := hrest.1 hmore
      exact ⟨⟨hitem, hwritable⟩, rfl⟩
    · rintro ⟨⟨hitem, hwritable⟩, rfl⟩
      refine ⟨(), _, (hentry _ _ ()).2 ⟨rfl, hitem, rfl⟩, ?_⟩
      rw [hadd]
      exact hrest.2 ⟨hwritable, rfl⟩

end

/-- The items that can be written are written as they are said to be, and no others are. -/
theorem encode_eq_ok_iff {items : List Item} {bs : Bytes} :
    encode items = .ok bs ↔ (∀ item ∈ items, item.Writable) ∧ bs = listBytes items := by
  have hempty : Writer.empty = (Draft.root []).toWriter := rfl
  have hwrite := writeList_eq_ok_iff items row_root []
  rw [encode, hempty]
  constructor
  · intro h
    split at h
    · rename_i w hw
      obtain ⟨hwritable, rfl⟩ := (hwrite w ()).1 hw
      exact ⟨hwritable, (Except.ok.inj h).symm⟩
    · cases h
  · rintro ⟨hwritable, rfl⟩
    rw [(hwrite _ ()).2 ⟨hwritable, rfl⟩]
    rfl

theorem encode_singleton {item : Item} (h : item.Writable) : encode [item] = .ok item.toBytes := by
  rw [encode_eq_ok_iff, listBytes_singleton]
  exact ⟨List.forall_mem_singleton.2 h, rfl⟩

/-- Writing and reading are inverse to each other. Items are written exactly when they can be, and
bytes come from writing a row of items exactly when reading them to their end gives that row. -/
theorem encode_inverse_readAll (items : List Item) :
    ((∃ bs, encode items = .ok bs) ↔ ∀ item ∈ items, item.Writable) ∧
      ∀ bs, encode items = .ok bs ↔ readAll bs = .ok items := by
  refine ⟨?_, fun bs => encode_eq_ok_iff.trans readAll_eq_ok_iff.symm⟩
  constructor
  · rintro ⟨bs, h⟩
    exact (encode_eq_ok_iff.1 h).1
  · intro h
    exact ⟨listBytes items, encode_eq_ok_iff.2 ⟨h, rfl⟩⟩

end Item

end Resumable.Wire
