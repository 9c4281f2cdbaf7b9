import Resumable.Proofs.Boxed.Leftovers
import Resumable.Proofs.Frame.Records

/-!
# Bytes that are left over in frames

A record looks into the variant of each of its fields, and reads an unknown one as a whole; the
`plan` of a record says how far down. Whatever is left over behind the item in one of these variants
is passed over, and so is what is left over in the envelope of a frame. Only the frame itself has to
end where its bytes end (`Frame.leftovers_ignored`).
-/

namespace Resumable

open Wire Resumable.Frame

/-! ## What records look into -/

/-- The fields of a boxed value. -/
def Boxed.plan : Plan := .record [("tag", .whole), ("payload", .whole)]

/-- The fields of a remote error. -/
def RemoteError.plan : Plan :=
  .record [("kind", .whole), ("message", .whole), ("value", .whole), ("traceback", .whole)]

/-- The fields of a result. -/
def CallResult.plan : Plan :=
  .record [("correlation_id", .whole), ("output", Boxed.plan), ("error", RemoteError.plan),
    ("dispatch_id", .whole)]

/-- The fields of a call. -/
def Call.plan : Plan :=
  .record [("endpoint", .whole), ("function", .whole), ("input", Boxed.plan),
    ("correlation_id", .whole), ("expiration", .whole), ("version", .whole)]

/-- The fields of a poll. -/
def Poll.plan : Plan :=
  .record [("min_results", .whole), ("max_results", .whole), ("max_wait", .whole),
    ("calls", .list Call.plan), ("coroutine_state", Boxed.plan)]

/-- The fields of a poll result. -/
def PollResult.plan : Plan :=
  .record [("results", .list CallResult.plan), ("coroutine_state", Boxed.plan),
    ("error", RemoteError.plan)]

/-- The fields of an exit. -/
def Exit.plan : Plan := .record [("result", CallResult.plan), ("tail_call", Call.plan)]

/-- The fields of a request. -/
def Request.fieldsPlan : Plan :=
  .record [("function", .whole), ("dispatch_id", .whole), ("parent_dispatch_id", .whole),
    ("root_dispatch_id", .whole), ("creation_time", .whole), ("expiration_time", .whole),
    ("input", Boxed.plan), ("poll_result", PollResult.plan)]

/-- A request frame. -/
def Request.plan : Plan := .frame "Request" Request.fieldsPlan

/-- The fields of a response. -/
def Response.fieldsPlan : Plan :=
  .record [("status", .whole), ("exit", Exit.plan), ("poll", Poll.plan)]

/-- A response frame. -/
def Response.plan : Plan := .frame "Response" Response.fieldsPlan

namespace Frame

variable {α : Type} {p q : Plan}

/-! ## Readers of windows -/

theorem reader_eq (op : Read α) (bs : Bytes) :
    reader op bs = CodecError.reading op bs >>= fun taken => pure taken.1 := by
  rw [reader, Read.eval, Read.on, CodecError.reading]
  rcases op bs with ⟨e | a, rest⟩
  · rfl
  · rfl

/-- An exact read of a window reads one item whole. -/
theorem readsAlong_reader {op : Read α} (hop : op.Exact) : ReadsAlong .whole (reader op) := by
  rw [funext (reader_eq op)]
  exact (takesAlong_reading hop).reads pure

theorem readsAlong_skipping {σ : Type} (s : σ) : ReadsAlong .whole (skipping s) :=
  (readsAlong_reader Cursor.exact_skip).bind fun _ => pure s

/-- A list or a map in a window is read as its body is. -/
theorem readsAlong_body {tag : Tag} {read : Bytes → Except CodecError α}
    (width : tag.width? = none) (h : BodyAlong q read) :
    ReadsAlong (.parts tag q) fun bs => reader (Cursor.body tag) bs >>= read := by
  have htake : TakesAlong (.parts tag q) fun bs =>
      CodecError.reading (Cursor.body tag) bs >>= fun taken =>
        read taken.1 >>= fun a => pure (a, taken.2) := by
    refine TakesAlong.parts id (if_pos rfl) width h ?_
    intro body rest x
    rw [bind_eq_ok_iff]
    exact exists_congr fun a => and_congr_right fun _ => pure_eq_ok_iff.trans eq_comm
  have hread : (fun bs => reader (Cursor.body tag) bs >>= read) = fun bs =>
      (CodecError.reading (Cursor.body tag) bs >>= fun taken =>
        read taken.1 >>= fun a => pure (a, taken.2)) >>= fun taken => pure taken.1 := by
    funext bs
    rw [reader_eq]
    cases CodecError.reading (Cursor.body tag) bs with
    | error e => rfl
    | ok taken =>
      change read taken.1 = (read taken.1 >>= _) >>= _
      cases read taken.1 with
      | error e => rfl
      | ok a => rfl
  rw [hread]
  exact htake.reads pure

theorem readsAlong_readList {read : Reader α} (h : ReadsAlong p read) :
    ReadsAlong (.list p) (readList read) :=
  readsAlong_body rfl (bodyAlong_items h)

/-- A record is read along its fields, each of which is read along a plan of its own. -/
theorem readsAlong_foldMap {σ : Type} {step : σ → String → Bytes → Except CodecError σ}
    {fields : List (String × Plan)} (start : σ)
    (hknown : ∀ field ∈ fields, ∀ s, ReadsAlong field.2 (step s field.1))
    (hother : ∀ name, fields.lookup name = none → ∀ s bs, step s name bs = skipping s bs) :
    ReadsAlong (.record fields) (foldMap start step) := by
  refine readsAlong_body rfl (bodyAlong_entries start fun s name => ?_)
  cases hname : fields.lookup name with
  | none =>
    rw [funext (hother name hname s)]
    exact readsAlong_skipping s
  | some plan =>
    obtain ⟨before, after, rfl, -⟩ := List.lookup_eq_some_iff.1 hname
    exact hknown (name, plan) (List.mem_append_right _ List.mem_cons_self) s

/-! ## Records -/

theorem readsAlong_readShape : ReadsAlong .whole readShape :=
  (readsAlong_reader Cursor.exact_u64).bind _

theorem readsAlong_readCount (name : String) : ReadsAlong .whole (readCount name) :=
  (readsAlong_reader Cursor.exact_u64).bind _

theorem readsAlong_readInstant : ReadsAlong .whole readInstant :=
  (readsAlong_reader Cursor.exact_timestamp).bind _

theorem readsAlong_readSpan : ReadsAlong .whole readSpan :=
  (readsAlong_reader Cursor.exact_duration).bind _

theorem readsAlong_readBoxed : ReadsAlong Boxed.plan readBoxed := by
  refine ReadsAlong.bind (readsAlong_foldMap _ ?_ ?_) _
  · simp only [List.forall_mem_cons]
    refine ⟨fun s => ?_, fun s => ?_, List.forall_mem_nil _⟩
    · exact readsAlong_readShape.bind _
    · exact (readsAlong_reader Cursor.exact_bytes).bind _
  · intro name hname s bs
    split
    all_goals first | cases hname | rfl

theorem readsAlong_readRemoteError : ReadsAlong RemoteError.plan readRemoteError := by
  refine readsAlong_foldMap _ ?_ ?_
  · simp only [List.forall_mem_cons]
    refine ⟨fun s => ?_, fun s => ?_, fun s => ?_, fun s => ?_, List.forall_mem_nil _⟩
    · exact (readsAlong_reader Cursor.exact_string).bind _
    · exact (readsAlong_reader Cursor.exact_string).bind _
    · exact (readsAlong_reader Cursor.exact_bytes).bind _
    · exact (readsAlong_reader Cursor.exact_bytes).bind _
  · intro name hname s bs
    split
    all_goals first | cases hname | rfl

theorem readsAlong_readCallResult : ReadsAlong CallResult.plan readCallResult := by
  refine readsAlong_foldMap _ ?_ ?_
  · simp only [List.forall_mem_cons]
    refine ⟨fun s => ?_, fun s => ?_, fun s => ?_, fun s => ?_, List.forall_mem_nil _⟩
    · exact (readsAlong_reader Cursor.exact_u64).bind _
    · exact readsAlong_readBoxed.bind _
    · exact readsAlong_readRemoteError.bind _
    · exact (readsAlong_reader Cursor.exact_string).bind _
  · intro name hname s bs
    split
    all_goals first | cases hname | rfl

theorem readsAlong_readCall : ReadsAlong Call.plan readCall := by
  refine ReadsAlong.bind (readsAlong_foldMap _ ?_ ?_) _
  · simp only [List.forall_mem_cons]
    refine ⟨fun s => ?_, fun s => ?_, fun s => ?_, fun s => ?_, fun s => ?_, fun s => ?_,
      List.forall_mem_nil _⟩
    · exact (readsAlong_reader Cursor.exact_string).bind _
    · exact (readsAlong_reader Cursor.exact_string).bind _
    · exact readsAlong_readBoxed.bind _
    · exact (readsAlong_reader Cursor.exact_u64).bind _
    · exact readsAlong_readSpan.bind _
    · exact (readsAlong_reader Cursor.exact_string).bind _
  · intro name hname s bs
    split
    all_goals first | cases hname | rfl

theorem readsAlong_readPoll : ReadsAlong Poll.plan readPoll := by
  refine ReadsAlong.bind (readsAlong_foldMap _ ?_ ?_) _
  · simp only [List.forall_mem_cons]
    refine ⟨fun s => ?_, fun s => ?_, fun s => ?_, fun s => ?_, fun s => ?_, List.forall_mem_nil _⟩
    · exact (readsAlong_readCount _).bind _
    · exact (readsAlong_readCount _).bind _
    · exact readsAlong_readSpan.bind _
    · exact (readsAlong_readList readsAlong_readCall).bind _
    · exact readsAlong_readBoxed.bind _
  · intro name hname s bs
    split
    all_goals first | cases hname | rfl

theorem readsAlong_readPollResult : ReadsAlong PollResult.plan readPollResult := by
  refine readsAlong_foldMap _ ?_ ?_
  · simp only [List.forall_mem_cons]
    refine ⟨fun s => ?_, fun s => ?_, fun s => ?_, List.forall_mem_nil _⟩
    · exact (readsAlong_readList readsAlong_readCallResult).bind _
    · exact readsAlong_readBoxed.bind _
    · exact readsAlong_readRemoteError.bind _
  · intro name hname s bs
    split
    all_goals first | cases hname | rfl

theorem readsAlong_readExit : ReadsAlong Exit.plan readExit := by
  refine ReadsAlong.bind (readsAlong_foldMap _ ?_ ?_) _
  · simp only [List.forall_mem_cons]
    refine ⟨fun s => ?_, fun s => ?_, List.forall_mem_nil _⟩
    · exact readsAlong_readCallResult.bind _
    · exact readsAlong_readCall.bind _
  · intro name hname s bs
    split
    all_goals first | cases hname | rfl

/-! ## Frames -/

theorem envelope_eq_ok_iff {name : String} {bs body rest : Bytes} :
    envelope name bs = .ok (body, rest) ↔ (Cursor.namedBody name body).length ≤ maxLength ∧
      bs = Item.variantBytes name body ++ rest := by
  rw [← Cursor.variant_eq_ok_iff, ← CodecError.reading_eq_ok_iff, envelope, bind_eq_ok_iff]
  constructor
  · rintro ⟨⟨⟨found, inner⟩, rest'⟩, hread, h⟩
    dsimp only at h
    split at h
    · rename_i hname
      subst hname
      cases h
      exact hread
    · cases h
  · intro hread
    exact ⟨_, hread, if_pos rfl⟩

theorem ended_eq_ok_iff {rest : Bytes} {u : Unit} : ended rest = .ok u ↔ rest = [] := by
  cases rest with
  | nil => exact ⟨fun _ => rfl, fun _ => rfl⟩
  | cons b rest => exact ⟨nofun, nofun⟩

/-- A frame ends where its bytes end, and its record is read alike whatever is left over. -/
theorem ignoresLeftovers_frame {β : Type} {name : String} {read : Reader α}
    (h : ReadsAlong p read) (k : α → Except CodecError β) :
    IgnoresLeftovers (.frame name p) (fun bs => do
      let (body, rest) ← envelope name bs
      let fields ← read body
      ended rest
      k fields) := by
  intro bs b hdecode
  obtain ⟨⟨body, rest⟩, henvelope, hdecode⟩ := bind_eq_ok_iff.1 hdecode
  obtain ⟨a, ha, hdecode⟩ := bind_eq_ok_iff.1 hdecode
  obtain ⟨u, hended, hb⟩ := bind_eq_ok_iff.1 hdecode
  obtain rfl := ended_eq_ok_iff.1 hended
  obtain ⟨hfits, rfl⟩ := envelope_eq_ok_iff.1 henvelope
  obtain ⟨w, left, hw, rfl, hsame⟩ := h _ _ ha
  refine ⟨.variant name w left, .variant (if_pos rfl) hw hfits, List.append_nil _, ?_⟩
  intro w' hw' htrim
  cases hw' with
  | whole _ _ | parts _ _ _ _ => cases htrim
  | variant opens hinner hfits' =>
    obtain ⟨rfl, htrim, -⟩ := Walk.variant.inj htrim
    obtain rfl := Option.some.inj ((if_pos rfl).symm.trans opens)
    refine bind_eq_ok_iff.2 ⟨_, envelope_eq_ok_iff.2 ⟨hfits', (List.append_nil _).symm⟩, ?_⟩
    exact bind_eq_ok_iff.2 ⟨a, hsame _ hinner htrim _, hb⟩

theorem readsAlong_readRequestFields : ReadsAlong Request.fieldsPlan readRequestFields := by
  refine readsAlong_foldMap _ ?_ ?_
  · simp only [List.forall_mem_cons]
    refine ⟨fun s => ?_, fun s => ?_, fun s => ?_, fun s => ?_, fun s => ?_, fun s => ?_,
      fun s => ?_, fun s => ?_, List.forall_mem_nil _⟩
    · exact (readsAlong_reader Cursor.exact_string).bind _
    · exact (readsAlong_reader Cursor.exact_string).bind _
    · exact (readsAlong_reader Cursor.exact_string).bind _
    · exact (readsAlong_reader Cursor.exact_string).bind _
    · exact readsAlong_readInstant.bind _
    · exact readsAlong_readInstant.bind _
    · exact readsAlong_readBoxed.bind _
    · exact readsAlong_readPollResult.bind _
  · intro name hname s bs
    split
    all_goals first | cases hname | rfl

theorem readsAlong_readResponseFields : ReadsAlong Response.fieldsPlan readResponseFields := by
  refine readsAlong_foldMap _ ?_ ?_
  · simp only [List.forall_mem_cons]
    refine ⟨fun s => ?_, fun s => ?_, fun s => ?_, List.forall_mem_nil _⟩
    · exact (readsAlong_reader Cursor.exact_u64).bind _
    · exact readsAlong_readExit.bind _
    · exact readsAlong_readPoll.bind _
  · intro name hname s bs
    split
    all_goals first | cases hname | rfl

theorem ignoresLeftovers_request : IgnoresLeftovers Request.plan Request.decode :=
  ignoresLeftovers_frame readsAlong_readRequestFields _

theorem ignoresLeftovers_response : IgnoresLeftovers Response.plan Response.decode :=
  ignoresLeftovers_frame readsAlong_readResponseFields _

/-- What becomes of leftovers in some bytes, if these are accepted: nothing is left over in them if
they are what they are trimmed to, and else they are decoded like that; and so are all bytes that
differ from them in what is left over. -/
def LeftoversIgnored (p : Plan) (decode : Bytes → Except CodecError α) (bs : Bytes) : Prop :=
  ∀ a, decode bs = .ok a → ∃ w : Walk, w.Along p ∧ bs = w.toBytes ∧
    (w.LeavesNothing ↔ bs = w.trim.toBytes) ∧ decode w.trim.toBytes = .ok a ∧
      ∀ w' : Walk, w'.Along p → w'.trim = w.trim → decode w'.toBytes = .ok a

theorem leftoversIgnored {decode : Bytes → Except CodecError α} (h : IgnoresLeftovers p decode)
    (bs : Bytes) : LeftoversIgnored p decode bs := by
  intro a hbs
  obtain ⟨w, hw, rfl, hsame⟩ := h _ _ hbs
  exact ⟨w, hw, rfl, hw.leavesNothing_iff, hsame _ hw.trim w.trim_trim, hsame⟩

/-- Trees and frames are decoded alike whatever is left over behind the items in their variants:
the fields of maps, the known and the unknown fields of records, and the envelope. The items of
lists leave nothing over, and nothing stands behind a payload or a frame. -/
theorem leftovers_ignored (bs : Bytes) :
    LeftoversIgnored .tree (fun payload => Boxed.decode ⟨.tree, payload⟩) bs ∧
      LeftoversIgnored Request.plan Request.decode bs ∧
        LeftoversIgnored Response.plan Response.decode bs := by
  have htree : IgnoresLeftovers .tree fun payload => Boxed.decode ⟨.tree, payload⟩ :=
    Boxed.ignoresLeftovers (nofun : Shape.tree ≠ .empty)
  exact ⟨leftoversIgnored htree bs, leftoversIgnored ignoresLeftovers_request bs,
    leftoversIgnored ignoresLeftovers_response bs⟩

/-- A map of one null field, with some bytes left over behind the null. -/
def nullFieldMap (left : Bytes) : Walk := .parts .map [.variant "a" (.whole [Tag.null.code]) left]

theorem along_nullFieldMap {left : Bytes} (h : left.length ≤ 100) :
    (nullFieldMap left).Along .tree := by
  have hname : (Bytes.ofText "a").length = 1 := by decide
  have hvalue : ((Walk.whole [Tag.null.code]).toBytes ++ left).length = left.length + 1 :=
    List.length_cons
  refine .parts rfl rfl (List.forall_mem_singleton.2 (.variant rfl (.whole ?_ (.fixed rfl)) ?_)) ?_
  · exact ⟨nofun, nofun⟩
  · rw [Cursor.length_namedBody, hname, hvalue, maxLength]
    omega
  · rw [Walk.rowBytes, Walk.rowBytes, List.append_nil, Walk.toBytes, Cursor.length_variantBytes,
      hname, hvalue, maxLength]
    omega

/-- The map is decoded alike with one byte left over, with none and with three. -/
theorem leftovers_ignored_of_map :
    let v : Value := .tree (.ofFields [("a", .null)])
    Boxed.decode ⟨.tree, (nullFieldMap [0xff]).toBytes⟩ = .ok v ∧
      Boxed.decode ⟨.tree, (nullFieldMap []).toBytes⟩ = .ok v ∧
        Boxed.decode ⟨.tree, (nullFieldMap [1, 2, 3]).toBytes⟩ = .ok v := by
  intro v
  have hdecode : Boxed.decode ⟨.tree, (nullFieldMap [0xff]).toBytes⟩ = .ok v := by rfl
  obtain ⟨w, hw, hbytes, -, -, hsame⟩ := (leftovers_ignored _).1 _ hdecode
  obtain rfl := hw.unique (along_nullFieldMap (by decide)) hbytes.symm
  exact ⟨hdecode, hsame _ (along_nullFieldMap (by decide)) rfl,
    hsame _ (along_nullFieldMap (by decide)) rfl⟩

/-- A payload of one map is decoded although a byte is left over behind the null in it. -/
theorem byte_left_over :
    let payload : Bytes :=
      [0x21, 13, 0, 0, 0, 0x31, 8, 0, 0, 0, 0x10, 1, 0, 0, 0, 0x61, 0x00, 0xff]
    Boxed.decode ⟨.tree, payload⟩ = .ok (.tree (.ofFields [("a", .null)])) ∧
      ¬∃ w : Walk, w.Along .tree ∧ payload = w.toBytes ∧ w.LeavesNothing := by
  intro payload
  have hpayload : payload = (nullFieldMap [0xff]).toBytes := by rfl
  rw [hpayload]
  refine ⟨by rfl, ?_⟩
  rintro ⟨w, hw, hbytes, hnothing⟩
  obtain rfl := hw.unique (along_nullFieldMap (by decide)) hbytes.symm
  simp [Walk.LeavesNothing, nullFieldMap, Walk.trim, Walk.trimRow] at hnothing

end Frame

end Resumable
