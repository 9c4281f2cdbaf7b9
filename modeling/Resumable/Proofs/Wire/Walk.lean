import Resumable.Proofs.Wire.Exact

/-!
# Walks

A reader takes some items whole and looks into others, as its `Plan` says. A `Walk` is what it went
through: the items it took whole, the parts of the lists and maps it looked into, and for each
variant the bytes that were left over behind the item in it. The bytes along a plan are one item
(`Walk.Along.delimited`) and have one walk at most (`Walk.Along.unique`), so that it makes sense to
say of a reader that it takes no notice of what is left over.
-/

namespace Resumable.Wire

/-- What a reader looks into. -/
inductive Plan where
  /-- An item that is taken whole. -/
  | whole
  /-- A list or a map, each of whose parts is looked into. -/
  | parts (tag : Tag) (part : Plan)
  /-- A variant, whose name says what is looked into. -/
  | variant (inner : String → Option Plan)
  /-- A tree: its lists and maps are looked into at every level. -/
  | tree

namespace Plan

/-- A list of items of one plan. -/
def list (item : Plan) : Plan := .parts .list item

/-- A record: a map of fields with plans of their own, among others that are passed over. -/
def record (fields : List (String × Plan)) : Plan :=
  .parts .map (.variant fun name => some ((fields.lookup name).getD .whole))

/-- A frame of one name. -/
def frame (name : String) (inner : Plan) : Plan :=
  .variant fun found => if found = name then some inner else none

/-- Whether an item of a tag is taken whole. -/
def TakesWhole : Plan → Tag → Prop
  | whole, _ => True
  | tree, tag => tag ≠ .list ∧ tag ≠ .map
  | parts _ _, _ | variant _, _ => False

/-- What is looked into in each part of an item of a tag, if it has parts. -/
def part? : Plan → Tag → Option Plan
  | parts tag part, found => if found = tag then some part else none
  | tree, .list => some tree
  | tree, .map => some (variant fun _ => some tree)
  | _, _ => none

/-- What is looked into in a variant of a name. -/
def inner? : Plan → String → Option Plan
  | variant inner, name => inner name
  | _, _ => none

variable {p q : Plan} {tag : Tag} {name : String}

theorem not_takesWhole_of_part? (h : p.part? tag = some q) : ¬p.TakesWhole tag := by
  cases p with
  | tree =>
    rintro ⟨hlist, hmap⟩
    cases tag with
    | list => exact hlist rfl
    | map => exact hmap rfl
    | _ => cases h
  | parts _ _ => exact id
  | whole | variant _ => cases h

theorem not_takesWhole_of_inner? (h : p.inner? name = some q) : ¬p.TakesWhole tag := by
  cases p with
  | variant _ => exact id
  | whole | parts _ _ | tree => cases h

/-- What has parts is no variant. -/
theorem inner?_eq_none_of_part? (h : p.part? tag = some q) : p.inner? name = none := by
  cases p with
  | variant _ => cases h
  | whole | parts _ _ | tree => rfl

end Plan

/-- What a reader went through. -/
inductive Walk where
  /-- An item that it took whole. -/
  | whole (item : Bytes)
  /-- A list or a map with its parts. -/
  | parts (tag : Tag) (parts : List Walk)
  /-- A variant with the item in it and the bytes left over behind the item. -/
  | variant (name : String) (inner : Walk) (left : Bytes)

namespace Walk

mutual

/-- The bytes that were walked through. -/
def toBytes : Walk → Bytes
  | whole item => item
  | parts tag ws => Item.framed tag (rowBytes ws)
  | variant name inner left => Item.variantBytes name (inner.toBytes ++ left)

/-- The bytes of walks, one after the other. -/
def rowBytes : List Walk → Bytes
  | [] => []
  | w :: rest => w.toBytes ++ rowBytes rest

end

mutual

/-- The walk with nothing left over in any variant. -/
def trim : Walk → Walk
  | whole item => whole item
  | parts tag ws => parts tag (trimRow ws)
  | variant name inner _ => variant name inner.trim []

/-- Walks with nothing left over in any variant. -/
def trimRow : List Walk → List Walk
  | [] => []
  | w :: rest => w.trim :: trimRow rest

end

/-- Whether nothing is left over in any variant. -/
def LeavesNothing (w : Walk) : Prop := w.trim = w

/-- Whether a walk goes along a plan, through items that are whole and whose lengths fit their four
bytes. -/
inductive Along : Walk → Plan → Prop where
  | whole {p : Plan} {tag : Tag} {behind : Bytes} (takes : p.TakesWhole tag)
    (item : Delimited (tag.code :: behind)) : Along (whole (tag.code :: behind)) p
  | parts {p q : Plan} {tag : Tag} {ws : List Walk} (opens : p.part? tag = some q)
    (width : tag.width? = none) (each : ∀ w ∈ ws, Along w q)
    (fits : (rowBytes ws).length ≤ maxLength) : Along (parts tag ws) p
  | variant {p q : Plan} {name : String} {inner : Walk} {left : Bytes}
    (opens : p.inner? name = some q) (item : Along inner q)
    (fits : (Cursor.namedBody name (inner.toBytes ++ left)).length ≤ maxLength) :
    Along (variant name inner left) p

/-- A walk through a variant as an entry of a map: the name, and what follows it. -/
def entry : Walk → String × Bytes
  | variant name inner left => (name, inner.toBytes ++ left)
  | w => ("", w.toBytes)

theorem rowBytes_eq_flatMap (ws : List Walk) : rowBytes ws = ws.flatMap toBytes := by
  induction ws with
  | nil => rfl
  | cons w rest ih => rw [rowBytes, ih, List.flatMap_cons]

theorem trimRow_eq_map (ws : List Walk) : trimRow ws = ws.map trim := by
  induction ws with
  | nil => rfl
  | cons w rest ih => rw [trimRow, ih, List.map_cons]

mutual

@[simp] theorem trim_trim : ∀ w : Walk, w.trim.trim = w.trim
  | whole _ => rfl
  | parts tag ws => congrArg (parts tag) (trimRow_trimRow ws)
  | variant name inner _ => congrArg (variant name · []) (trim_trim inner)

theorem trimRow_trimRow : ∀ ws : List Walk, trimRow (trimRow ws) = trimRow ws
  | [] => rfl
  | w :: rest => congrArg₂ List.cons (trim_trim w) (trimRow_trimRow rest)

end

mutual

theorem length_toBytes_trim_le : ∀ w : Walk, w.trim.toBytes.length ≤ w.toBytes.length
  | whole _ => Nat.le_refl _
  | parts tag ws => by
    have hrow := length_rowBytes_trimRow_le ws
    rw [trim, toBytes, toBytes, Item.length_framed, Item.length_framed]
    omega
  | variant name inner left => by
    have hinner := length_toBytes_trim_le inner
    rw [trim, toBytes, toBytes, Cursor.length_variantBytes, Cursor.length_variantBytes,
      List.append_nil, List.length_append]
    omega

theorem length_rowBytes_trimRow_le :
    ∀ ws : List Walk, (rowBytes (trimRow ws)).length ≤ (rowBytes ws).length
  | [] => Nat.le_refl _
  | w :: rest => by
    have hw := length_toBytes_trim_le w
    have hrest := length_rowBytes_trimRow_le rest
    rw [trimRow, rowBytes, rowBytes, List.length_append, List.length_append]
    omega

end

variable {w w' : Walk} {p q : Plan}

/-- A walk still goes along its plan when nothing is left over any more. -/
theorem Along.trim (h : w.Along p) : w.trim.Along p := by
  induction h with
  | whole takes item => exact .whole takes item
  | @parts p q tag ws opens width each fits ih =>
    refine .parts opens width ?_ (Nat.le_trans (length_rowBytes_trimRow_le ws) fits)
    rw [trimRow_eq_map, List.forall_mem_map]
    exact ih
  | @variant p q name inner left opens item fits ih =>
    refine .variant opens ih ?_
    have hinner := length_toBytes_trim_le inner
    rw [Cursor.length_namedBody, List.length_append] at fits ⊢
    rw [List.length_nil]
    omega

theorem Along.of_delimited {item : Bytes} (h : Delimited item) :
    (Walk.whole item).Along .whole := by
  cases h with
  | fixed width => exact .whole trivial (.fixed width)
  | framed width fits => exact .whole trivial (.framed width fits)

/-- Nothing is left over in an item that is taken whole. -/
theorem eq_whole_of_trim {item : Bytes} (h : w.trim = (whole item).trim) : w = whole item := by
  cases w with
  | whole other => exact h
  | parts _ _ | variant _ _ _ => cases h

/-- A walk goes through one item. -/
theorem Along.delimited (h : w.Along p) : Delimited w.toBytes := by
  cases h with
  | whole _ item =>
    rw [toBytes]
    exact item
  | parts _ width _ fits =>
    rw [toBytes]
    exact .framed width fits
  | variant _ _ fits =>
    rw [toBytes]
    exact .framed rfl fits

/-- Bytes that begin with a walk begin as the walk does. -/
theorem Along.head?_append (h : w.Along p) (rest : Bytes) :
    (w.toBytes ++ rest).head? = w.toBytes.head? := by
  rw [List.head?_append, List.head?_eq_some_head h.delimited.ne_nil, Option.some_or]

theorem head?_toBytes_trim (w : Walk) : w.trim.toBytes.head? = w.toBytes.head? := by
  cases w with
  | whole _ | parts _ _ | variant _ _ _ => rfl

/-- Walks that differ in what is left over begin with the same byte. -/
theorem head?_toBytes_of_trim (h : w'.trim = w.trim) : w'.toBytes.head? = w.toBytes.head? := by
  rw [← head?_toBytes_trim w', h, head?_toBytes_trim]

/-- The windows of a list body are what was walked through. -/
theorem items_rowBytes {ws : List Walk} (h : ∀ w ∈ ws, w.Along p) :
    Cursor.items (rowBytes ws) = (ws.map toBytes, none) := by
  refine Cursor.items_eq_iff.2 ⟨?_, ?_⟩
  · rw [List.forall_mem_map]
    intro w hw
    exact (h w hw).delimited
  · rw [rowBytes_eq_flatMap, List.flatMap_def]

/-- A walk along the plan of a variant goes through one, which is an entry of its map. -/
theorem Along.entry_eq {inner : String → Option Plan} (h : w.Along (.variant inner)) :
    (Cursor.namedBody w.entry.1 w.entry.2).length ≤ maxLength ∧
      w.toBytes = Item.variantBytes w.entry.1 w.entry.2 := by
  cases h with
  | whole takes _ => exact absurd takes id
  | parts opens _ _ _ => cases opens
  | variant _ _ fits =>
    rw [toBytes]
    exact ⟨fits, rfl⟩

/-- The windows of a map body are the entries that were walked through. -/
theorem entries_rowBytes {inner : String → Option Plan} {ws : List Walk}
    (h : ∀ w ∈ ws, w.Along (.variant inner)) :
    Cursor.entries (rowBytes ws) = (ws.map entry, none) := by
  refine Cursor.entries_eq_iff.2 ⟨?_, ?_⟩
  · rw [List.forall_mem_map]
    intro w hw
    exact (h w hw).entry_eq.1
  · rw [rowBytes_eq_flatMap, List.flatMap_map, List.flatMap_def, List.flatMap_def]
    exact congrArg _ (List.map_congr_left fun w hw => (h w hw).entry_eq.2)

/-- Rows of items with the same bytes are the same if these are the same one by one. -/
theorem eq_of_rowBytes {ws ws' : List Walk} (h : ∀ w ∈ ws, w.Along q) (h' : ∀ w ∈ ws', w.Along q)
    (heach : ∀ w ∈ ws, ∀ w', w'.Along q → w.toBytes = w'.toBytes → w = w')
    (heq : rowBytes ws = rowBytes ws') : ws = ws' := by
  induction ws generalizing ws' with
  | nil =>
    cases ws' with
    | nil => rfl
    | cons w' rest' =>
      have hne := (h' w' List.mem_cons_self).delimited.ne_nil
      exact absurd (List.append_eq_nil_iff.1 heq.symm).1 hne
  | cons w rest ih =>
    obtain ⟨hw, hrest⟩ := List.forall_mem_cons.1 h
    cases ws' with
    | nil => exact absurd (List.append_eq_nil_iff.1 heq).1 hw.delimited.ne_nil
    | cons w' rest' =>
      obtain ⟨hw', hrest'⟩ := List.forall_mem_cons.1 h'
      obtain ⟨hfirst, heq⟩ := hw.delimited.append_inj hw'.delimited heq
      obtain ⟨hsame, heach⟩ := List.forall_mem_cons.1 heach
      rw [hsame w' hw' hfirst, ih hrest hrest' heach heq]

/-- The bytes along a plan have one walk. -/
theorem Along.unique (h : w.Along p) (h' : w'.Along p) (heq : w.toBytes = w'.toBytes) : w = w' := by
  induction h generalizing w' with
  | whole takes item =>
    cases h' with
    | whole takes' item' => exact congrArg Walk.whole heq
    | parts opens _ _ _ =>
      obtain rfl := Tag.code_inj (List.cons.inj heq).1
      exact absurd takes (Plan.not_takesWhole_of_part? opens)
    | variant opens _ _ => exact absurd takes (Plan.not_takesWhole_of_inner? opens)
  | parts opens width each fits ih =>
    cases h' with
    | whole takes' _ =>
      obtain rfl := Tag.code_inj (List.cons.inj heq).1
      exact absurd takes' (Plan.not_takesWhole_of_part? opens)
    | parts opens' _ each' _ =>
      obtain ⟨rfl, hrow⟩ := Item.framed_inj heq
      obtain rfl := Option.some.inj (opens.symm.trans opens')
      exact congrArg _ (eq_of_rowBytes each each' (fun w hw _ hw' => ih w hw hw') hrow)
    | variant opens' _ _ =>
      rw [Plan.inner?_eq_none_of_part? opens] at opens'
      cases opens'
  | variant opens item fits ih =>
    cases h' with
    | whole takes' _ => exact absurd takes' (Plan.not_takesWhole_of_inner? opens)
    | parts opens' _ _ _ =>
      rw [Plan.inner?_eq_none_of_part? opens'] at opens
      cases opens
    | variant opens' item' fits' =>
      obtain ⟨rfl, hvalue⟩ := Item.variantBytes_inj fits fits' heq
      obtain rfl := Option.some.inj (opens.symm.trans opens')
      obtain ⟨hitem, rfl⟩ := item.delimited.append_inj item'.delimited hvalue
      rw [ih item' hitem]

/-- Nothing is left over in a walk if its bytes stay as they are when what is left over is taken
away. -/
theorem Along.leavesNothing_iff (h : w.Along p) : w.LeavesNothing ↔ w.toBytes = w.trim.toBytes := by
  constructor
  · intro hnothing
    rw [hnothing]
  · intro heq
    exact (h.unique h.trim heq).symm

end Walk

end Resumable.Wire
