import Resumable.Proofs.Wire.Writable

/-!
# What a writer holds

A `Draft` is a row of finished items with the containers that are open inside one another, and
`Draft.toWriter` is the writer that holds it. On such a writer each operation is an operation on the
draft: an item is added, a container is opened, or the innermost one is closed and added as an item
to what is around it. The lemmas `_eq_ok_iff` say when an operation succeeds and what it leaves.
-/

namespace Resumable.Wire

namespace Write

variable {α β : Type} {w w' : Writer}

theorem on_bind_eq_ok_iff {x : Write α} {f : α → Write β} {b : β} :
    (x >>= f).on w = (.ok b, w') ↔ ∃ a mid, x.on w = (.ok a, mid) ∧ (f a).on mid = (.ok b, w') :=
  stateful_bind_eq_ok_iff

theorem on_bind_eq_error_iff {x : Write α} {f : α → Write β} {e : Error} :
    (x >>= f).on w = (.error e, w') ↔
      x.on w = (.error e, w') ∨ ∃ a mid, x.on w = (.ok a, mid) ∧ (f a).on mid = (.error e, w') :=
  stateful_bind_eq_error_iff

theorem on_pure_eq_ok_iff {a b : α} :
    (pure a : Write α).on w = (.ok b, w') ↔ a = b ∧ w = w' :=
  stateful_pure_eq_ok_iff

/-- An operation behind a check of its arguments. -/
theorem on_guard_eq_ok_iff {c : Prop} [Decidable c] {e : Error} {k : Unit → Write α}
    {x : Write α} {b : α} :
    (if c then throw e >>= k else x).on w = (.ok b, w') ↔ ¬c ∧ x.on w = (.ok b, w') :=
  stateful_guard_eq_ok_iff

theorem on_step_eq_ok_iff {f : Writer → Except Error Writer} {u : Unit} :
    (Write.step f).on w = (.ok u, w') ↔ f w = .ok w' := by
  rw [Write.on, Write.step]
  rcases f w with e | found
  · simp
  · simp

end Write

open Write

namespace Writer

variable {w w' : Writer} {u : Unit} {tag : Tag}

theorem scalar_eq_ok_iff {data : Bytes} :
    (scalar tag data).on w = (.ok u, w') ↔
      w.top.allow tag = .ok () ∧ w' = w.append (tag.code :: data) := by
  rw [scalar, on_step_eq_ok_iff, bind_eq_ok_iff]
  constructor
  · rintro ⟨u, hallow, h⟩
    exact ⟨hallow, (pure_eq_ok_iff.1 h).symm⟩
  · rintro ⟨hallow, rfl⟩
    exact ⟨(), hallow, rfl⟩

theorem blob_eq_ok_iff {data : Bytes} :
    (blob tag data).on w = (.ok u, w') ↔
      data.length ≤ maxLength ∧ w.top.allow tag = .ok () ∧
        w' = w.append (Item.framed tag data) := by
  rw [blob, on_step_eq_ok_iff, guard_eq_ok_iff, bind_eq_ok_iff]
  constructor
  · rintro ⟨hle, u, hallow, h⟩
    exact ⟨Nat.le_of_not_lt hle, hallow, (pure_eq_ok_iff.1 h).symm⟩
  · rintro ⟨hle, hallow, rfl⟩
    exact ⟨Nat.not_lt_of_le hle, (), hallow, rfl⟩

/-- The writer with a scope opened in it. -/
def opened (w : Writer) (tag : Tag) (scope : Scope) : Writer :=
  let bytes := w.bytes ++ tag.code :: lengthBytes 0
  ⟨bytes, ⟨bytes.length, scope, 0⟩, w.stack⟩

theorem openScope_eq_ok_iff {scope : Scope} :
    (openScope tag scope).on w = (.ok u, w') ↔
      w.top.allow tag = .ok () ∧ w' = w.opened tag scope := by
  rw [openScope, on_step_eq_ok_iff, bind_eq_ok_iff]
  constructor
  · rintro ⟨u, hallow, h⟩
    exact ⟨hallow, (pure_eq_ok_iff.1 h).symm⟩
  · rintro ⟨hallow, rfl⟩
    exact ⟨(), hallow, rfl⟩

theorem closeScope_eq_ok_iff {expected : Scope} :
    (closeScope expected).on w = (.ok u, w') ↔
      ∃ parent rest, w.below = parent :: rest ∧ w.top.scope = expected ∧
        ¬((w.top.scope = .option ∨ w.top.scope = .variant) ∧ w.top.count = 0) ∧
        w.bytes.length - w.top.start ≤ maxLength ∧
        w' = ⟨patched w.bytes w.top.start, parent.counted, rest⟩ := by
  rw [closeScope, on_step_eq_ok_iff]
  rcases hbelow : w.below with _ | ⟨parent, rest⟩
  · constructor
    · intro h
      cases h
    · rintro ⟨parent, rest, h, -⟩
      cases h
  · dsimp only
    rw [guard_eq_ok_iff, guard_eq_ok_iff, guard_eq_ok_iff]
    constructor
    · rintro ⟨hscope, hholds, hle, h⟩
      exact ⟨parent, rest, rfl, Decidable.not_not.1 hscope, hholds, Nat.le_of_not_lt hle,
        (pure_eq_ok_iff.1 h).symm⟩
    · rintro ⟨parent', rest', hcons, hscope, hholds, hle, rfl⟩
      obtain ⟨rfl, rfl⟩ := List.cons.inj hcons
      exact ⟨Decidable.not_not.2 hscope, hholds, Nat.not_lt_of_le hle, rfl⟩

end Writer

/-- A container that is open, with the items that stand in it. -/
inductive Part where
  | list (items : List Item)
  | map (entries : List (String × Item))
  | option (item? : Option Item)
  | variant (name : String) (item? : Option Item)

namespace Part

/-- The tag of the container. -/
def tag : Part → Tag
  | list _ => .list
  | map _ => .map
  | option _ => .optionSome
  | variant _ _ => .variant

/-- The kind of its scope. -/
def scope : Part → Scope
  | list _ => .list
  | map _ => .map
  | option _ => .option
  | variant _ _ => .variant

/-- What stands in its body before the items. -/
def head : Part → Bytes
  | variant name _ => Item.framed .string (Bytes.ofText name)
  | list _ | map _ | option _ => []

/-- The items that stand in it. -/
def contents : Part → List Item
  | list items => items
  | map entries => entries.map fun e => .variant e.1 e.2
  | option item? | variant _ item? => item?.toList

/-- Its body so far. -/
def body (part : Part) : Bytes := part.head ++ Item.listBytes part.contents

/-- Whether an item with this tag may come next. -/
def Allows : Part → Tag → Prop
  | list _, _ => True
  | map _, tag => tag = .variant
  | option item?, _ | variant _ item?, _ => item? = none

/-- The container with one more item, which it allows. -/
def add : Part → Item → Part
  | list items, item => list (items ++ [item])
  | map entries, .variant name item => map (entries ++ [(name, item)])
  | map entries, _ => map entries
  | option _, item => option (some item)
  | variant name _, item => variant name (some item)

/-- The finished item, if the container may be closed. -/
def closed? : Part → Option Item
  | list items => some (.list items)
  | map entries => some (.map entries)
  | option item? => item?.map .optionSome
  | variant name item? => item?.map (.variant name)

variable {part : Part} {item : Item} {tag : Tag}

theorem contents_add (h : part.Allows item.tag) :
    (part.add item).contents = part.contents ++ [item] := by
  cases part with
  | list items => rfl
  | map entries =>
    -- only a variant has the tag of one
    cases item with
    | variant name item => exact List.map_append
    | bool b => cases b with | _ => cases h
    | _ => cases h
  | option item? | variant name item? =>
    obtain rfl : item? = none := h
    rfl

theorem head_add : (part.add item).head = part.head ∧ (part.add item).tag = part.tag ∧
    (part.add item).scope = part.scope := by
  cases part with
  | map entries => cases item with | _ => exact ⟨rfl, rfl, rfl⟩
  | _ => exact ⟨rfl, rfl, rfl⟩

theorem allow_eq_ok_iff {start : Nat} :
    OpenScope.allow ⟨start, part.scope, part.contents.length⟩ tag = .ok () ↔ part.Allows tag := by
  cases part with
  | list items => simp [OpenScope.allow, scope, Allows]
  | map entries => simp [OpenScope.allow, scope, Allows]
  | option item? | variant name item? =>
    cases item? with
    | none => simp [OpenScope.allow, scope, contents, Allows]
    | some item => simp [OpenScope.allow, scope, contents, Allows]

theorem toBytes_of_closed? (h : part.closed? = some item) :
    item.toBytes = Item.framed part.tag part.body ∧ item.tag = part.tag := by
  cases part with
  | list items =>
    obtain rfl := Option.some.inj h
    exact ⟨rfl, rfl⟩
  | map entries =>
    obtain rfl := Option.some.inj h
    refine ⟨?_, rfl⟩
    rw [Item.toBytes, Item.entriesBytes_eq_listBytes]
    rfl
  | option item? =>
    obtain ⟨inner, rfl, rfl⟩ := Option.map_eq_some_iff.1 h
    refine ⟨?_, rfl⟩
    rw [Item.toBytes, body, head, contents, Option.toList_some, Item.listBytes_singleton]
    rfl
  | variant name item? =>
    obtain ⟨inner, rfl, rfl⟩ := Option.map_eq_some_iff.1 h
    refine ⟨?_, rfl⟩
    rw [Item.toBytes, body, head, contents, Option.toList_some, Item.listBytes_singleton]
    rfl

/-- A container that holds one item can be closed once it is there, every other always. -/
theorem closed?_eq_none_iff :
    part.closed? = none ↔
      (part.scope = .option ∨ part.scope = .variant) ∧ part.contents.length = 0 := by
  cases part with
  | list items => simp [closed?, scope]
  | map entries => simp [closed?, scope]
  | option item? | variant name item? => simp [closed?, scope, contents]

theorem writable_iff_of_closed? (h : part.closed? = some item) :
    item.Writable ↔ part.body.length ≤ maxLength ∧ ∀ x ∈ part.contents, x.Writable := by
  cases part with
  | list items =>
    obtain rfl := Option.some.inj h
    exact Item.writable_list
  | map entries =>
    obtain rfl := Option.some.inj h
    rw [Item.writable_map, Item.entriesBytes_eq_listBytes, contents, List.forall_mem_map]
    rfl
  | option item? =>
    obtain ⟨inner, rfl, rfl⟩ := Option.map_eq_some_iff.1 h
    rw [Item.writable_optionSome, body, contents, Option.toList_some, Item.listBytes_singleton,
      List.forall_mem_singleton]
    rfl
  | variant name item? =>
    obtain ⟨inner, rfl, rfl⟩ := Option.map_eq_some_iff.1 h
    rw [Item.writable_variant, body, contents, Option.toList_some, Item.listBytes_singleton,
      List.forall_mem_singleton]
    rfl

end Part

/-- Finished items, or a draft and a container that is open in it. -/
inductive Draft where
  | root (items : List Item)
  | inside (outer : Draft) (part : Part)

namespace Draft

/-- The writer that holds a draft. The length of an open container is still zero, and its body
starts behind the tag and the four bytes of the length. -/
def toWriter : Draft → Writer
  | root items => ⟨Item.listBytes items, ⟨0, .root, items.length⟩, []⟩
  | inside outer part =>
    ⟨outer.toWriter.bytes ++ (part.tag.code :: lengthBytes 0 ++ part.body),
      ⟨outer.toWriter.bytes.length + 5, part.scope, part.contents.length⟩, outer.toWriter.stack⟩

/-- Whether an item with this tag may come next. -/
def Allows : Draft → Tag → Prop
  | root _, _ => True
  | inside _ part, tag => part.Allows tag

/-- The draft with one more item in the innermost container. -/
def add : Draft → Item → Draft
  | root items, item => root (items ++ [item])
  | inside outer part, item => inside outer (part.add item)

/-- Whether every item in a draft can be written, and every container may stand where it does. -/
def Coherent : Draft → Prop
  | root items => ∀ item ∈ items, item.Writable
  | inside outer part => outer.Coherent ∧ outer.Allows part.tag ∧ ∀ x ∈ part.contents, x.Writable

variable {d : Draft} {w' : Writer} {u : Unit}

theorem Coherent.add {item : Item} (hd : d.Coherent) (hallows : d.Allows item.tag)
    (hitem : item.Writable) : (d.add item).Coherent := by
  cases d with
  | root items =>
    exact List.forall_mem_append.2 ⟨hd, List.forall_mem_singleton.2 hitem⟩
  | inside outer part =>
    obtain ⟨houter, htag, hcontents⟩ := hd
    refine ⟨houter, ?_, ?_⟩
    · rw [Part.head_add.2.1]
      exact htag
    · rw [Part.contents_add hallows]
      exact List.forall_mem_append.2 ⟨hcontents, List.forall_mem_singleton.2 hitem⟩

theorem allow_eq_ok_iff {tag : Tag} : d.toWriter.top.allow tag = .ok () ↔ d.Allows tag := by
  cases d with
  | root items => simp [toWriter, OpenScope.allow, Allows]
  | inside outer part => exact Part.allow_eq_ok_iff

theorem toWriter_add {item : Item} (h : d.Allows item.tag) :
    (d.add item).toWriter = d.toWriter.append item.toBytes := by
  cases d with
  | root items =>
    rw [add, toWriter, toWriter, Writer.append, Item.listBytes_append, Item.listBytes_singleton,
      List.length_append]
    rfl
  | inside outer part =>
    -- the container that is open stays what it is, and its body grows by the item
    obtain ⟨hhead, htag, hscope⟩ : (part.add item).head = part.head ∧
        (part.add item).tag = part.tag ∧ (part.add item).scope = part.scope := Part.head_add
    have hcontents := Part.contents_add h
    have hbody : (part.add item).body = part.body ++ item.toBytes := by
      rw [Part.body, hhead, hcontents, Item.listBytes_append, Item.listBytes_singleton,
        ← List.append_assoc]
      rfl
    have hbytes : outer.toWriter.bytes ++
          ((part.add item).tag.code :: lengthBytes 0 ++ (part.add item).body) =
        outer.toWriter.bytes ++ (part.tag.code :: lengthBytes 0 ++ part.body) ++ item.toBytes := by
      rw [htag, hbody]
      simp only [List.append_assoc]
    rw [add, toWriter, toWriter, Writer.append, hbytes, hscope, hcontents, List.length_append]
    rfl

/-! ## Operations -/

/-- Opening a container leaves it open in the draft. -/
theorem openScope_eq_ok_iff {part : Part} (hbody : part.body = []) (hcount : part.contents = []) :
    (Writer.openScope part.tag part.scope).on d.toWriter = (.ok u, w') ↔
      d.Allows part.tag ∧ w' = (d.inside part).toWriter := by
  have hopened : (d.inside part).toWriter = d.toWriter.opened part.tag part.scope := by
    rw [toWriter, hbody, hcount, List.append_nil, Writer.opened, List.length_append]
    rfl
  rw [Writer.openScope_eq_ok_iff, allow_eq_ok_iff, hopened]

theorem variantBegin_eq_ok_iff {name : String} :
    (Writer.variantBegin name).on d.toWriter = (.ok u, w') ↔
      (Bytes.ofText name).length ≤ maxLength ∧ d.Allows .variant ∧
        w' = (d.inside (.variant name none)).toWriter := by
  have hnamed : (d.inside (.variant name none)).toWriter =
      let w := (d.toWriter.opened .variant .variant).append
        (Item.framed .string (Bytes.ofText name))
      { w with top := { w.top with count := 0 } } := by
    show Writer.mk _ _ _ = Writer.mk _ _ _
    congr 1
    · show _ = d.toWriter.bytes ++ Tag.variant.code :: lengthBytes 0 ++ _
      rw [List.append_assoc]
      show _ ++ (_ ++ (_ ++ [])) = _
      rw [List.append_nil]
      rfl
    · show OpenScope.mk _ _ _ = OpenScope.mk _ _ _
      congr 1
      show _ = (d.toWriter.bytes ++ Tag.variant.code :: lengthBytes 0).length
      rw [List.length_append]
      rfl
  rw [Writer.variantBegin, on_bind_eq_ok_iff, hnamed]
  constructor
  · rintro ⟨v, mid, hopen, hrest⟩
    obtain ⟨hallow, rfl⟩ := Writer.openScope_eq_ok_iff.1 hopen
    obtain ⟨v, mid, hname, hreset⟩ := on_bind_eq_ok_iff.1 hrest
    obtain ⟨hle, -, rfl⟩ := Writer.blob_eq_ok_iff.1 hname
    cases hreset
    exact ⟨hle, allow_eq_ok_iff.1 hallow, rfl⟩
  · rintro ⟨hle, hallow, rfl⟩
    refine ⟨(), _, Writer.openScope_eq_ok_iff.2 ⟨allow_eq_ok_iff.2 hallow, rfl⟩, ?_⟩
    -- a variant that was just opened has room for its name
    exact on_bind_eq_ok_iff.2 ⟨(), _, Writer.blob_eq_ok_iff.2 ⟨hle, rfl, rfl⟩, rfl⟩

/-- The length of the body is put where the zero length stood. -/
theorem patched_eq (before body : Bytes) (tag : Tag) :
    Writer.patched (before ++ (tag.code :: lengthBytes 0 ++ body)) (before.length + 5) =
      before ++ Item.framed tag body := by
  have hfront : before ++ (tag.code :: lengthBytes 0 ++ body) =
      (before ++ [tag.code]) ++ (lengthBytes 0 ++ body) := by
    simp
  have hstart : before.length + 5 = (before ++ [tag.code] ++ lengthBytes 0).length := by
    simp [lengthBytes]
  have htake : (before ++ (tag.code :: lengthBytes 0 ++ body)).take (before.length + 5 - 4) =
      before ++ [tag.code] := by
    rw [hfront]
    exact List.take_left' (by simp)
  have hdrop : (before ++ (tag.code :: lengthBytes 0 ++ body)).drop (before.length + 5) = body := by
    rw [hfront, ← List.append_assoc]
    exact List.drop_left' hstart.symm
  have hlen : (before ++ (tag.code :: lengthBytes 0 ++ body)).length - (before.length + 5) =
      body.length := by
    rw [hfront, ← List.append_assoc, List.length_append, ← hstart]
    omega
  rw [Writer.patched, htake, hdrop, hlen, Item.framed]
  simp

/-- Closing the innermost container adds it to what is around it. -/
theorem closeScope_inside_eq_ok_iff {part : Part} {expected : Scope} (h : d.Allows part.tag) :
    (Writer.closeScope expected).on (d.inside part).toWriter = (.ok u, w') ↔
      part.scope = expected ∧ part.body.length ≤ maxLength ∧
        ∃ item, part.closed? = some item ∧ w' = (d.add item).toWriter := by
  have hlen : (d.inside part).toWriter.bytes.length - (d.inside part).toWriter.top.start =
      part.body.length := by
    show (d.toWriter.bytes ++ (part.tag.code :: lengthBytes 0 ++ part.body)).length -
      (d.toWriter.bytes.length + 5) = _
    simp [lengthBytes]
    omega
  have hadd : ∀ item, part.closed? = some item → (d.add item).toWriter =
      ⟨Writer.patched (d.inside part).toWriter.bytes (d.inside part).toWriter.top.start,
        d.toWriter.top.counted, d.toWriter.below⟩ := by
    intro item hitem
    obtain ⟨hbytes, htag⟩ := Part.toBytes_of_closed? hitem
    rw [toWriter_add (htag ▸ h), Writer.append, hbytes, toWriter, patched_eq]
  rw [Writer.closeScope_eq_ok_iff, hlen]
  constructor
  · rintro ⟨parent, rest, hbelow, hscope, hholds, hle, rfl⟩
    obtain ⟨rfl, rfl⟩ := List.cons.inj hbelow
    -- a container that holds too little was refused
    cases hclosed : part.closed? with
    | none => exact absurd (Part.closed?_eq_none_iff.1 hclosed) hholds
    | some item => exact ⟨hscope, hle, item, rfl, (hadd item hclosed).symm⟩
  · rintro ⟨hscope, hle, item, hclosed, rfl⟩
    refine ⟨d.toWriter.top, d.toWriter.below, rfl, hscope, ?_, hle, hadd item hclosed⟩
    intro hholds
    rw [Part.closed?_eq_none_iff.2 hholds] at hclosed
    cases hclosed

end Draft

end Resumable.Wire
