import Resumable.Frame.Reader
import Resumable.Proofs.Boxed.Times

/-!
# Records read back

Each record is read back from its item, whatever its optional fields are. A record is read by a
fold over the entries of its map, and `Frame.Folds` follows that fold entry by entry: it says for
each entry what its step makes of what was read before, given that the item of the entry can be
written.
-/

namespace Resumable

open Wire

namespace Frame

/-! ## Items as they are read -/

theorem reader_of_on {α : Type} {op : Read α} {bs rest : Bytes} {a : α}
    (h : op.on bs = (.ok a, rest)) : reader op bs = .ok a := by
  rw [reader, Read.eval, h]
  rfl

theorem reader_eq_ok_iff {α : Type} {op : Read α} {bs : Bytes} {a : α} :
    reader op bs = .ok a ↔ ∃ rest, op.on bs = (.ok a, rest) := by
  rw [reader, CodecError.ofWire_eq_ok_iff, Read.eval]
  exact ⟨fun h => ⟨(op.on bs).2, Prod.ext h rfl⟩, fun ⟨rest, h⟩ => congrArg Prod.fst h⟩

theorem reader_u64 (n : UInt64) : reader Cursor.u64 (Item.u64 n).toBytes = .ok n :=
  reader_of_on (Cursor.u64_eq_ok_iff.2 (List.append_nil _).symm)

theorem reader_string {s : String} (h : (Item.string s).Writable) :
    reader Cursor.string (Item.string s).toBytes = .ok s :=
  reader_of_on (Cursor.string_eq_ok_iff.2 ⟨Item.writable_string.1 h, (List.append_nil _).symm⟩)

theorem reader_bytes {data : Bytes} (h : (Item.bytes data).Writable) :
    reader Cursor.bytes (Item.bytes data).toBytes = .ok data :=
  reader_of_on (Cursor.bytes_eq_ok_iff.2 ⟨Item.writable_bytes.1 h, (List.append_nil _).symm⟩)

theorem readShape_code (shape : Shape) : readShape (Item.u64 shape.code).toBytes = .ok shape := by
  refine bind_eq_ok_iff.2 ⟨_, reader_u64 _, ?_⟩
  rw [Shape.ofCode?_code]
  rfl

theorem readCount_toUInt64 (name : String) (n : UInt32) :
    readCount name (Item.u64 n.toUInt64).toBytes = .ok n := by
  have hlt := n.toNat_lt
  refine bind_eq_ok_iff.2 ⟨_, reader_u64 _, ?_⟩
  have hfits : n.toUInt64.toNat < 0x100000000 := by
    rw [UInt32.toNat_toUInt64]
    exact hlt
  rw [if_pos hfits, UInt32.toUInt32_toUInt64]
  rfl

/-- An instant that has an item is read back from it. -/
theorem readInstant_of_toItem {t : Instant} {item : Item} (h : t.toItem = .ok item) :
    readInstant item.toBytes = .ok t := by
  obtain ⟨-, rfl⟩ := Instant.toItem_eq_ok_iff.1 h
  have hread := Cursor.timestamp_eq_ok_iff.2
    ⟨t.nanos_lt, (List.append_nil (Item.timestamp t.secs t.nanos).toBytes).symm⟩
  exact bind_eq_ok_iff.2 ⟨_, reader_of_on hread, t.ofParts_parts⟩

/-- A span that has an item is read back from it. -/
theorem readSpan_of_toItem {d : Span} {item : Item} (h : d.toItem = .ok item) :
    readSpan item.toBytes = .ok d := by
  obtain ⟨hl, rfl⟩ := Span.toItem_eq_ok_iff.1 h
  have hread := Cursor.duration_eq_ok_iff.2 ⟨Span.nanosOk hl,
    (List.append_nil (Item.duration d.secs.toInt64 d.nanos.toInt32).toBytes).symm⟩
  refine bind_eq_ok_iff.2 ⟨_, reader_of_on hread, ?_⟩
  dsimp only
  rw [Span.ofParts?_parts hl]
  rfl

/-! ## Folds -/

/-- What a fold over entries makes of a start, if their items can be written. -/
inductive Folds {σ : Type} (step : σ → String → Bytes → Except CodecError σ) :
    σ → Fields → σ → Prop where
  | nil {s : σ} : Folds step s [] s
  | cons {s mid s' : σ} {name : String} {item : Item} {rest : Fields}
    (head : item.Writable → step s name item.toBytes = .ok mid) (tail : Folds step mid rest s') :
    Folds step s ((name, item) :: rest) s'

namespace Folds

variable {σ : Type} {step : σ → String → Bytes → Except CodecError σ} {s mid s' : σ}

theorem append {before after : Fields} (h : Folds step s before mid)
    (h' : Folds step mid after s') : Folds step s (before ++ after) s' := by
  induction h with
  | nil => exact h'
  | cons head _ ih => exact .cons head (ih h')

/-- An optional field, which sets a part of the state that is empty before. -/
theorem optional {α : Type} {value : Option α} {name : String} {toItem : α → Item}
    (set : Option α → σ)
    (h : ∀ a, (toItem a).Writable → step (set none) name (toItem a).toBytes = .ok (set (some a))) :
    Folds step (set none) (value.map fun a => (name, toItem a)).toList (set value) := by
  cases value with
  | none => exact .nil
  | some a => exact .cons (h a) .nil

/-- An optional field whose item may be lacking is read where it has one. -/
theorem optional_of_eq_ok {α : Type} {value : Option α} {name : String}
    {toItem : α → Except CodecError Item} {fields : Fields} (set : Option α → σ)
    (hfields : Fields.optional name value toItem = .ok fields)
    (h : ∀ a item, toItem a = .ok item → item.Writable →
      step (set none) name item.toBytes = .ok (set (some a))) :
    Folds step (set none) fields (set value) := by
  cases value with
  | none =>
    cases hfields
    exact .nil
  | some a =>
    obtain ⟨item, hitem, hfields⟩ := bind_eq_ok_iff.1 hfields
    cases hfields
    exact .cons (h a item hitem) .nil

theorem foldlM_eq {entries : Fields} (h : Folds step s entries s')
    (hw : ∀ e ∈ entries, (Item.variant e.1 e.2).Writable) :
    (entries.map fun e => (e.1, e.2.toBytes)).foldlM (fun s e => step s e.1 e.2) s = .ok s' := by
  induction h with
  | nil => rfl
  | cons head _ ih =>
    obtain ⟨hentry, hrest⟩ := List.forall_mem_cons.1 hw
    rw [List.map_cons, List.foldlM_cons]
    exact bind_eq_ok_iff.2 ⟨_, head (Item.writable_variant.1 hentry).2, ih hrest⟩

/-- The map of the entries is read as the fold goes. -/
theorem foldMap_eq {entries : Fields} (h : Folds step s entries s')
    (hw : (Item.map entries).Writable) : foldMap s step (Item.map entries).toBytes = .ok s' := by
  obtain ⟨hle, hentries⟩ := Item.writable_map.1 hw
  have hmap : Cursor.map.on (Item.map entries).toBytes = (.ok (Item.entriesBytes entries), []) :=
    Cursor.body_eq_ok_iff.2 ⟨hle, (List.append_nil _).symm⟩
  refine bind_eq_ok_iff.2 ⟨_, reader_of_on hmap, ?_⟩
  rw [Item.entries_entriesBytes hentries]
  exact bind_eq_ok_iff.2 ⟨s', h.foldlM_eq hentries, rfl⟩

end Folds

/-- A list of records is read back if each of them is. -/
theorem readList_toBytes {α : Type} {read : Reader α} {as : List α} {items : List Item}
    (hw : (Item.list items).Writable)
    (hread : (items.map Item.toBytes).mapM read = .ok as) :
    readList read (Item.list items).toBytes = .ok as := by
  obtain ⟨hle, hitems⟩ := Item.writable_list.1 hw
  have hlist : Cursor.list.on (Item.list items).toBytes = (.ok (Item.listBytes items), []) :=
    Cursor.body_eq_ok_iff.2 ⟨hle, (List.append_nil _).symm⟩
  refine bind_eq_ok_iff.2 ⟨_, reader_of_on hlist, ?_⟩
  rw [Item.items_listBytes hitems]
  exact bind_eq_ok_iff.2 ⟨as, hread, rfl⟩

/-! ## Records -/

theorem readBoxed_toItem {boxed : Boxed} (hw : boxed.toItem.Writable) :
    readBoxed boxed.toItem.toBytes = .ok boxed := by
  refine bind_eq_ok_iff.2 ⟨⟨some boxed.shape, some boxed.payload⟩, Folds.foldMap_eq ?_ hw, rfl⟩
  apply Folds.cons
  · intro _
    exact bind_eq_ok_iff.2 ⟨_, readShape_code boxed.shape, rfl⟩
  apply Folds.cons
  · intro h
    exact bind_eq_ok_iff.2 ⟨_, reader_bytes h, rfl⟩
  exact Folds.nil

theorem readRemoteError_toItem {e : RemoteError} (hw : e.toItem.Writable) :
    readRemoteError e.toItem.toBytes = .ok e := by
  refine Folds.foldMap_eq ?_ hw
  apply Folds.append
  · apply Folds.append
    · apply Folds.cons
      · intro h
        exact bind_eq_ok_iff.2 ⟨_, reader_string h, rfl⟩
      apply Folds.cons
      · intro h
        exact bind_eq_ok_iff.2 ⟨_, reader_string h, rfl⟩
      exact Folds.nil
    · refine Folds.optional
        (fun value => { kind := e.kind, message := e.message, value : RemoteError }) ?_
      intro value h
      exact bind_eq_ok_iff.2 ⟨_, reader_bytes h, rfl⟩
  · refine Folds.optional (fun traceback => { e with traceback }) ?_
    intro traceback h
    exact bind_eq_ok_iff.2 ⟨_, reader_bytes h, rfl⟩

theorem readCallResult_toItem {result : CallResult} (hw : result.toItem.Writable) :
    readCallResult result.toItem.toBytes = .ok result := by
  refine Folds.foldMap_eq ?_ hw
  apply Folds.append
  · apply Folds.append
    · apply Folds.append
      · apply Folds.cons
        · intro _
          exact bind_eq_ok_iff.2 ⟨_, reader_u64 _, rfl⟩
        exact Folds.nil
      · refine Folds.optional
          (fun output => { correlationId := result.correlationId, output : CallResult }) ?_
        intro output h
        exact bind_eq_ok_iff.2 ⟨_, readBoxed_toItem h, rfl⟩
    · refine Folds.optional (fun error => { result with error, dispatchId := "" }) ?_
      intro error h
      exact bind_eq_ok_iff.2 ⟨_, readRemoteError_toItem h, rfl⟩
  · apply Folds.cons
    · intro h
      exact bind_eq_ok_iff.2 ⟨_, reader_string h, rfl⟩
    exact Folds.nil

/-- A call that has an item is read back from it. -/
theorem readCall_of_toItem {call : Call} {item : Item} (h : call.toItem = .ok item)
    (hw : item.Writable) : readCall item.toBytes = .ok call := by
  obtain ⟨expiration, hexpiration, h⟩ := bind_eq_ok_iff.1 h
  cases h
  refine bind_eq_ok_iff.2 ⟨⟨some call.function, { call with function := "" }⟩,
    Folds.foldMap_eq ?_ hw, rfl⟩
  apply Folds.cons
  · intro h
    exact bind_eq_ok_iff.2 ⟨_, reader_string h, rfl⟩
  apply Folds.cons
  · intro h
    exact bind_eq_ok_iff.2 ⟨_, reader_string h, rfl⟩
  apply Folds.cons
  · intro h
    exact bind_eq_ok_iff.2 ⟨_, readBoxed_toItem h, rfl⟩
  apply Folds.cons
  · intro _
    exact bind_eq_ok_iff.2 ⟨_, reader_u64 _, rfl⟩
  apply Folds.cons
  · intro _
    exact bind_eq_ok_iff.2 ⟨_, readSpan_of_toItem hexpiration, rfl⟩
  apply Folds.cons
  · intro h
    exact bind_eq_ok_iff.2 ⟨_, reader_string h, rfl⟩
  exact Folds.nil

/-- A poll that has an item is read back from it. -/
theorem readPoll_of_toItem {poll : Poll} {item : Item} (h : poll.toItem = .ok item)
    (hw : item.Writable) : readPoll item.toBytes = .ok poll := by
  obtain ⟨maxWait, hmaxWait, h⟩ := bind_eq_ok_iff.1 h
  obtain ⟨calls, hcalls, h⟩ := bind_eq_ok_iff.1 h
  cases h
  have hread : (Item.list calls).Writable →
      readList readCall (Item.list calls).toBytes = .ok poll.calls := by
    intro hlist
    refine readList_toBytes hlist ?_
    rw [List.mapM_map]
    refine mapM_eq_ok_of_inverse hcalls ?_
    intro call _ item hitem hto
    exact readCall_of_toItem hto ((Item.writable_list.1 hlist).2 item hitem)
  refine bind_eq_ok_iff.2 ⟨⟨some poll.minResults, some poll.maxResults, some poll.maxWait,
    { calls := poll.calls, state := poll.state }⟩, Folds.foldMap_eq ?_ hw, rfl⟩
  apply Folds.cons
  · intro _
    exact bind_eq_ok_iff.2 ⟨_, readCount_toUInt64 _ _, rfl⟩
  apply Folds.cons
  · intro _
    exact bind_eq_ok_iff.2 ⟨_, readCount_toUInt64 _ _, rfl⟩
  apply Folds.cons
  · intro _
    exact bind_eq_ok_iff.2 ⟨_, readSpan_of_toItem hmaxWait, rfl⟩
  apply Folds.cons
  · intro h
    exact bind_eq_ok_iff.2 ⟨_, hread h, rfl⟩
  apply Folds.cons
  · intro h
    exact bind_eq_ok_iff.2 ⟨_, readBoxed_toItem h, rfl⟩
  exact Folds.nil

theorem readPollResult_toItem {result : PollResult} (hw : result.toItem.Writable) :
    readPollResult result.toItem.toBytes = .ok result := by
  have hread : (Item.list (result.results.map CallResult.toItem)).Writable →
      readList readCallResult (Item.list (result.results.map CallResult.toItem)).toBytes =
        .ok result.results := by
    intro hlist
    have hitems : result.results.mapM (fun r => (pure r.toItem : Except CodecError Item)) =
        .ok (result.results.map CallResult.toItem) := List.mapM_pure
    refine readList_toBytes hlist ?_
    rw [List.mapM_map]
    refine mapM_eq_ok_of_inverse hitems ?_
    intro r _ item hitem hto
    obtain rfl := pure_eq_ok_iff.1 hto
    exact readCallResult_toItem ((Item.writable_list.1 hlist).2 _ hitem)
  refine Folds.foldMap_eq ?_ hw
  apply Folds.append
  · apply Folds.cons
    · intro h
      exact bind_eq_ok_iff.2 ⟨_, hread h, rfl⟩
    apply Folds.cons
    · intro h
      exact bind_eq_ok_iff.2 ⟨_, readBoxed_toItem h, rfl⟩
    exact Folds.nil
  · refine Folds.optional (fun error => { result with error }) ?_
    intro error h
    exact bind_eq_ok_iff.2 ⟨_, readRemoteError_toItem h, rfl⟩

/-- An exit that has an item is read back from it. -/
theorem readExit_of_toItem {exit : Exit} {item : Item} (h : exit.toItem = .ok item)
    (hw : item.Writable) : readExit item.toBytes = .ok exit := by
  obtain ⟨tailCall, htailCall, h⟩ := bind_eq_ok_iff.1 h
  cases h
  refine bind_eq_ok_iff.2 ⟨⟨some exit.result, exit.tailCall⟩, Folds.foldMap_eq ?_ hw, rfl⟩
  apply Folds.append
  · apply Folds.cons
    · intro h
      exact bind_eq_ok_iff.2 ⟨_, readCallResult_toItem h, rfl⟩
    exact Folds.nil
  · refine Folds.optional_of_eq_ok (fun call => ExitFields.mk (some exit.result) call) htailCall ?_
    intro call item hitem h
    exact bind_eq_ok_iff.2 ⟨_, readCall_of_toItem hitem h, rfl⟩

end Frame

end Resumable
