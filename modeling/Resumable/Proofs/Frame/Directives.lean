import Mathlib.Data.List.Perm.Basic
import Resumable.Proofs.Frame.Leftovers

/-!
# The directive of a frame

A frame says what it asks for in one of two fields. The reader does not mind if it finds both, or
one of them twice: each field is taken or refused whatever stands beside it, and of the directives
the last one stands. So an accepted frame holds at least one of these fields, and what it asks for
depends on the order of its fields only in which of them comes last (`Frame.last_directive_stands`).
-/

namespace Resumable

open Wire

namespace Frame

/-- The bytes of the fields of a map. -/
def rowBytes (fields : List (String × Bytes)) : Bytes :=
  fields.flatMap fun field => Item.variantBytes field.1 field.2

/-- The bytes of a frame around a map of fields, with some bytes left over behind the map. -/
def bytes (name : String) (fields : List (String × Bytes)) (left : Bytes) : Bytes :=
  Item.variantBytes name (Item.framed .map (rowBytes fields) ++ left)

/-- Whether every length in a frame fits its four bytes. -/
structure Fits (name : String) (fields : List (String × Bytes)) (left : Bytes) : Prop where
  field : ∀ field ∈ fields, (Cursor.namedBody field.1 field.2).length ≤ maxLength
  row : (rowBytes fields).length ≤ maxLength
  frame : (Cursor.namedBody name (Item.framed .map (rowBytes fields) ++ left)).length ≤ maxLength

/-- What the fields of certain names say, in their order. -/
def saying {δ : Type} (read? : String → Option (Reader δ)) (fields : List (String × Bytes)) :
    List (Except CodecError δ) :=
  fields.filterMap fun field => (read? field.1).map fun read => read field.2

theorem length_rowBytes_of_perm {fields fields' : List (String × Bytes)}
    (h : fields'.Perm fields) : (rowBytes fields').length = (rowBytes fields).length :=
  (h.flatMap_right _).length_eq

theorem Fits.of_perm {name : String} {fields fields' : List (String × Bytes)} {left : Bytes}
    (h : Fits name fields left) (hperm : fields'.Perm fields) : Fits name fields' left := by
  have hrow := length_rowBytes_of_perm hperm
  have hframe := h.frame
  rw [Cursor.length_namedBody, List.length_append, Item.length_framed] at hframe
  refine ⟨fun field hfield => h.field field (hperm.mem_iff.1 hfield), ?_, ?_⟩
  · rw [hrow]
    exact h.row
  · rw [Cursor.length_namedBody, List.length_append, Item.length_framed, hrow]
    exact hframe

/-! ## Folds over fields -/

section Folds

variable {σ δ : Type} {step : σ → String → Bytes → Except CodecError σ} {start s s' : σ}
  {fields fields' : List (String × Bytes)} {left : Bytes}

/-- A map is read by a fold over its fields, whatever is left over behind it. -/
theorem foldMap_rowBytes
    (hfields : ∀ field ∈ fields, (Cursor.namedBody field.1 field.2).length ≤ maxLength)
    (hrow : (rowBytes fields).length ≤ maxLength) :
    foldMap start step (Item.framed .map (rowBytes fields) ++ left) =
      fields.foldlM (fun s field => step s field.1 field.2) start := by
  have hmap : Cursor.map.on (Item.framed .map (rowBytes fields) ++ left) =
      (.ok (rowBytes fields), left) := Cursor.body_eq_ok_iff.2 ⟨hrow, rfl⟩
  have hentries : Cursor.entries (rowBytes fields) = (fields, none) :=
    Cursor.entries_eq_iff.2 ⟨hfields, rfl⟩
  rw [foldMap, reader_of_on hmap]
  dsimp only [bind, Except.bind]
  rw [hentries]
  show fields.foldlM (fun s field => step s field.1 field.2) start >>= pure = _
  exact bind_pure _

/-- Whatever is read by a fold over its fields is a map, with anything left over behind it. -/
theorem exists_row_of_foldMap {bs : Bytes} (h : foldMap start step bs = .ok s) :
    ∃ fields left, bs = Item.framed .map (rowBytes fields) ++ left ∧
      (∀ field ∈ fields, (Cursor.namedBody field.1 field.2).length ≤ maxLength) ∧
      (rowBytes fields).length ≤ maxLength := by
  obtain ⟨row, hrow, hread⟩ := bind_eq_ok_iff.1 h
  obtain ⟨left, hmap⟩ := reader_eq_ok_iff.1 hrow
  obtain ⟨hfits, rfl⟩ := Cursor.body_eq_ok_iff.1 hmap
  cases hentries : Cursor.entries row with
  | mk fields failure =>
    rw [hentries] at hread
    obtain ⟨s', -, hend⟩ := bind_eq_ok_iff.1 hread
    obtain ⟨rfl, -⟩ := CodecError.unlessFailed_eq_ok_iff.1 hend
    obtain ⟨hfields, rfl⟩ := Cursor.entries_eq_iff.1 hentries
    exact ⟨fields, left, rfl, hfields, hfits⟩

/-- Whether a record takes or refuses a field whatever it has read before. -/
def Uniform (step : σ → String → Bytes → Except CodecError σ) : Prop :=
  ∀ name value s s', (∃ r, step s name value = .ok r) → ∃ r, step s' name value = .ok r

/-- Fields are taken in any order in which they come. -/
theorem Uniform.exists_foldlM_iff (h : Uniform step) :
    (∃ r, fields.foldlM (fun s field => step s field.1 field.2) s = .ok r) ↔
      ∀ field ∈ fields, ∃ r, step s field.1 field.2 = .ok r := by
  induction fields generalizing s with
  | nil => exact ⟨fun _ => nofun, fun _ => ⟨s, rfl⟩⟩
  | cons field rest ih =>
    rw [List.foldlM_cons, List.forall_mem_cons]
    constructor
    · rintro ⟨r, hr⟩
      obtain ⟨mid, hmid, hrest⟩ := bind_eq_ok_iff.1 hr
      refine ⟨⟨mid, hmid⟩, fun other hother => ?_⟩
      exact h _ _ _ _ (ih.1 ⟨r, hrest⟩ other hother)
    · rintro ⟨⟨mid, hmid⟩, hrest⟩
      obtain ⟨r, hr⟩ := ih.2 fun other hother => h _ _ _ mid (hrest other hother)
      exact ⟨r, bind_eq_ok_iff.2 ⟨mid, hmid, hr⟩⟩

/-- Whether a part of a record is what the latest field of certain names says. -/
def Latest (step : σ → String → Bytes → Except CodecError σ) (part : σ → Option δ)
    (read? : String → Option (Reader δ)) : Prop :=
  ∀ name value s s', step s name value = .ok s' →
    match read? name with
    | some read => ∃ d, read value = .ok d ∧ part s' = some d
    | none => part s' = part s

/-- What stands of the part after all fields is what the last one said, if any did. -/
theorem Latest.foldlM {part : σ → Option δ} {read? : String → Option (Reader δ)}
    (h : Latest step part read?)
    (hfold : fields.foldlM (fun s field => step s field.1 field.2) s = .ok s') :
    ∃ ds : List δ, saying read? fields = ds.map .ok ∧ part s' = ds.getLast?.or (part s) := by
  induction fields generalizing s with
  | nil =>
    cases hfold
    exact ⟨[], rfl, rfl⟩
  | cons field rest ih =>
    rw [List.foldlM_cons] at hfold
    obtain ⟨mid, hmid, hrest⟩ := bind_eq_ok_iff.1 hfold
    obtain ⟨ds, hsaying, hpart⟩ := ih hrest
    have hlatest := h _ _ _ _ hmid
    cases hname : read? field.1 with
    | none =>
      rw [hname] at hlatest
      refine ⟨ds, ?_, ?_⟩
      · rw [← hsaying, saying, List.filterMap_cons, hname]
        rfl
      · rw [hpart, hlatest]
    | some read =>
      rw [hname] at hlatest
      obtain ⟨d, hd, hset⟩ := hlatest
      refine ⟨d :: ds, ?_, ?_⟩
      · rw [List.map_cons, ← hsaying, ← hd, saying, List.filterMap_cons, hname]
        rfl
      · rw [hpart, hset, List.getLast?_cons]
        cases ds.getLast? <;> rfl

/-- A part that does not stand at the start stands in the end if one of its fields was there. -/
theorem Latest.exists_iff {part : σ → Option δ} {read? : String → Option (Reader δ)}
    (h : Latest step part read?) (hstart : part start = none)
    (hfold : fields.foldlM (fun s field => step s field.1 field.2) start = .ok s) :
    (∃ d, part s = some d) ↔ saying read? fields ≠ [] := by
  obtain ⟨ds, hsaying, hpart⟩ := h.foldlM hfold
  rw [hstart, Option.or_none] at hpart
  rw [hpart, hsaying, ← Option.ne_none_iff_exists', ne_eq, ne_eq, List.getLast?_eq_none_iff,
    List.map_eq_nil_iff]

/-- Fields in another order say the same in another order. -/
theorem perm_saying {read? : String → Option (Reader δ)} (hperm : fields'.Perm fields) :
    (saying read? fields').Perm (saying read? fields) :=
  hperm.filterMap _

theorem saying_ne_nil_of_perm {read? : String → Option (Reader δ)} (hperm : fields'.Perm fields)
    (h : saying read? fields ≠ []) : saying read? fields' ≠ [] := by
  intro hnil
  have hsaying : (saying read? fields').Perm (saying read? fields) := perm_saying hperm
  rw [hnil] at hsaying
  exact h (List.nil_perm.1 hsaying)

theorem perm_of_saying {read? : String → Option (Reader δ)} {ds ds' : List δ}
    (hperm : fields'.Perm fields) (h : saying read? fields = ds.map .ok)
    (h' : saying read? fields' = ds'.map .ok) : ds'.Perm ds := by
  have hinj : Function.Injective (Except.ok : δ → Except CodecError δ) := fun _ _ => Except.ok.inj
  rw [← List.map_perm_map_iff hinj, ← h, ← h']
  exact perm_saying hperm

end Folds

/-! ## What frames ask for -/

section Frames

variable {σ δ ε α : Type} {step : σ → String → Bytes → Except CodecError σ} {start : σ}
  {name : String} {fields fields' : List (String × Bytes)} {left : Bytes}

/-- The last of the directives of a frame stands, and none is refused for another one beside it. -/
structure LastStands (name : String) (readFields : Reader σ) (read? : String → Option (Reader δ))
    (other? : String → Option (Reader ε)) (decode : Bytes → Except CodecError α)
    (directive : α → δ) : Prop where
  /-- An accepted frame is a map of fields. -/
  framed : ∀ bs a, decode bs = .ok a →
    ∃ fields left, Fits name fields left ∧ bs = bytes name fields left
  /-- A frame is accepted if each of its fields is taken in a map of its own, and if there is a
  directive and the other thing that is needed. -/
  accepted : ∀ fields left, Fits name fields left →
    ((∃ a, decode (bytes name fields left) = .ok a) ↔
      (∀ field ∈ fields, ∃ s, readFields (Item.framed .map (rowBytes [field])) = .ok s) ∧
        saying read? fields ≠ [] ∧ saying other? fields ≠ [])
  /-- The directives of an accepted frame are well formed, and it asks for what the last of them
  says. The same fields are accepted in any order, and if only one of them is a directive, then they
  ask for the same in each. -/
  stands : ∀ fields left a, Fits name fields left → decode (bytes name fields left) = .ok a →
    ∃ ds : List δ, saying read? fields = ds.map .ok ∧ ds.getLast? = some (directive a) ∧
      ∀ fields' : List (String × Bytes), fields'.Perm fields →
        ∃ (a' : α) (ds' : List δ), decode (bytes name fields' left) = .ok a' ∧
          saying read? fields' = ds'.map .ok ∧ ds'.Perm ds ∧ ds'.getLast? = some (directive a') ∧
          (ds.length = 1 → directive a' = directive a)

/-- A frame is decoded by a fold over the fields of its map, and by what is asked of them in the
end. -/
def decodeFields (name : String) (start : σ) (step : σ → String → Bytes → Except CodecError σ)
    (k : σ → Except CodecError α) (bs : Bytes) : Except CodecError α := do
  let (body, rest) ← envelope name bs
  let fields ← foldMap start step body
  ended rest
  k fields

theorem decodeFields_bytes {k : σ → Except CodecError α} (hfits : Fits name fields left) :
    decodeFields name start step k (bytes name fields left) =
      fields.foldlM (fun s field => step s field.1 field.2) start >>= k := by
  have henvelope : envelope name (bytes name fields left) =
      .ok (Item.framed .map (rowBytes fields) ++ left, []) :=
    envelope_eq_ok_iff.2 ⟨hfits.frame, (List.append_nil _).symm⟩
  rw [decodeFields, henvelope]
  show foldMap start step _ >>= k = _
  rw [foldMap_rowBytes hfits.field hfits.row]

theorem exists_bytes_of_decodeFields {k : σ → Except CodecError α} {bs : Bytes} {a : α}
    (h : decodeFields name start step k bs = .ok a) :
    ∃ fields left, Fits name fields left ∧ bs = bytes name fields left := by
  obtain ⟨⟨body, rest⟩, henvelope, h⟩ := bind_eq_ok_iff.1 h
  obtain ⟨s, hfold, h⟩ := bind_eq_ok_iff.1 h
  obtain ⟨u, hended, -⟩ := bind_eq_ok_iff.1 h
  obtain rfl := ended_eq_ok_iff.1 hended
  obtain ⟨hframe, rfl⟩ := envelope_eq_ok_iff.1 henvelope
  obtain ⟨fields, left, rfl, hfield, hrow⟩ := exists_row_of_foldMap hfold
  exact ⟨fields, left, ⟨hfield, hrow, hframe⟩, List.append_nil _⟩

theorem required_eq_ok_iff {name : String} {x : Option α} {a : α} :
    required name x = .ok a ↔ x = some a := by
  cases x with
  | none => exact ⟨nofun, nofun⟩
  | some b =>
    show Except.ok b = Except.ok a ↔ _
    rw [Except.ok.injEq, Option.some.injEq]

/-- A field is read in a map of its own as it is at the start of any. -/
theorem foldMap_singleton {field : String × Bytes} (hfits : Fits name fields left)
    (hfield : field ∈ fields) :
    foldMap start step (Item.framed .map (rowBytes [field])) = step start field.1 field.2 := by
  have hrow : (rowBytes [field]).length ≤ maxLength :=
    Nat.le_trans (length_flatMap_le_of_subperm (List.singleton_subperm_iff.2 hfield) _) hfits.row
  have hread : foldMap start step (Item.framed .map (rowBytes [field]) ++ []) =
      [field].foldlM (fun s field => step s field.1 field.2) start :=
    foldMap_rowBytes (List.forall_mem_singleton.2 (hfits.field field hfield)) hrow
  rw [List.append_nil] at hread
  exact hread.trans (bind_pure _)

/-- What a record comes to in the end: two parts of it are required. -/
def completed (part : σ → Option δ) (needed : String) (beside : σ → Option ε)
    (make : σ → ε → δ → α) (s : σ) : Except CodecError α := do
  let e ← required needed (beside s)
  let d ← required "directive" (part s)
  return make s e d

/-- Whether of a record that is read field by field one part is the latest directive, and another
one the latest of what is needed beside it. -/
structure Directed (start : σ) (step : σ → String → Bytes → Except CodecError σ)
    (part : σ → Option δ) (read? : String → Option (Reader δ)) (beside : σ → Option ε)
    (other? : String → Option (Reader ε)) : Prop where
  uniform : Uniform step
  latest : Latest step part read?
  latest_beside : Latest step beside other?
  start_eq_none : part start = none
  start_beside_eq_none : beside start = none

variable {part : σ → Option δ} {beside : σ → Option ε} {needed : String}
  {read? : String → Option (Reader δ)} {other? : String → Option (Reader ε)}
  {make : σ → ε → δ → α} {directive : α → δ} {a : α}

theorem completed_eq_ok_iff {s : σ} :
    completed part needed beside make s = .ok a ↔
      ∃ e d, beside s = some e ∧ part s = some d ∧ make s e d = a := by
  constructor
  · intro h
    obtain ⟨e, he, h⟩ := bind_eq_ok_iff.1 h
    obtain ⟨d, hd, h⟩ := bind_eq_ok_iff.1 h
    exact ⟨e, d, required_eq_ok_iff.1 he, required_eq_ok_iff.1 hd, pure_eq_ok_iff.1 h⟩
  · rintro ⟨e, d, he, hd, rfl⟩
    refine bind_eq_ok_iff.2 ⟨e, required_eq_ok_iff.2 he, ?_⟩
    exact bind_eq_ok_iff.2 ⟨d, required_eq_ok_iff.2 hd, rfl⟩

theorem decodeFields_bytes_eq_ok_iff (hfits : Fits name fields left) :
    decodeFields name start step (completed part needed beside make) (bytes name fields left) =
        .ok a ↔
      ∃ s, fields.foldlM (fun s field => step s field.1 field.2) start = .ok s ∧
        ∃ e d, beside s = some e ∧ part s = some d ∧ make s e d = a := by
  rw [decodeFields_bytes hfits, bind_eq_ok_iff]
  exact exists_congr fun s => and_congr_right fun _ => completed_eq_ok_iff

/-- A frame is accepted by its fields one by one. -/
theorem Directed.exists_decodeFields_iff (h : Directed start step part read? beside other?)
    (hfits : Fits name fields left) :
    (∃ a, decodeFields name start step (completed part needed beside make)
        (bytes name fields left) = .ok a) ↔
      (∀ field ∈ fields, ∃ s, foldMap start step (Item.framed .map (rowBytes [field])) = .ok s) ∧
        saying read? fields ≠ [] ∧ saying other? fields ≠ [] := by
  constructor
  · rintro ⟨a, ha⟩
    obtain ⟨s, hfold, e, d, he, hd, -⟩ := (decodeFields_bytes_eq_ok_iff hfits).1 ha
    refine ⟨fun field hfield => ?_, (h.latest.exists_iff h.start_eq_none hfold).1 ⟨d, hd⟩,
      (h.latest_beside.exists_iff h.start_beside_eq_none hfold).1 ⟨e, he⟩⟩
    rw [foldMap_singleton hfits hfield]
    exact h.uniform.exists_foldlM_iff.1 ⟨s, hfold⟩ field hfield
  · rintro ⟨hfields, hdirective, hneeded⟩
    have htaken : ∃ s, fields.foldlM (fun s field => step s field.1 field.2) start = .ok s := by
      apply h.uniform.exists_foldlM_iff.2
      intro field hfield
      obtain ⟨s, hs⟩ := hfields field hfield
      rw [foldMap_singleton hfits hfield] at hs
      exact ⟨s, hs⟩
    obtain ⟨s, hfold⟩ := htaken
    obtain ⟨d, hd⟩ := (h.latest.exists_iff h.start_eq_none hfold).2 hdirective
    obtain ⟨e, he⟩ := (h.latest_beside.exists_iff h.start_beside_eq_none hfold).2 hneeded
    exact ⟨_, (decodeFields_bytes_eq_ok_iff hfits).2 ⟨s, hfold, e, d, he, hd, rfl⟩⟩

/-- An accepted frame asks for what its last directive says. -/
theorem Directed.saying_of_decodeFields (h : Directed start step part read? beside other?)
    (hmake : ∀ s e d, directive (make s e d) = d) (hfits : Fits name fields left)
    (ha : decodeFields name start step (completed part needed beside make)
      (bytes name fields left) = .ok a) :
    ∃ ds : List δ, saying read? fields = ds.map .ok ∧ ds.getLast? = some (directive a) := by
  obtain ⟨s, hfold, e, d, -, hd, rfl⟩ := (decodeFields_bytes_eq_ok_iff hfits).1 ha
  obtain ⟨ds, hsaying, hpart⟩ := h.latest.foldlM hfold
  rw [h.start_eq_none, Option.or_none, hd] at hpart
  exact ⟨ds, hsaying, (hmake s e d).symm ▸ hpart.symm⟩

/-- Where one part of a record is the latest directive and another one is all that is needed beside
it, the last directive stands. -/
theorem lastStands_decodeFields (part : σ → Option δ) (beside : σ → Option ε)
    (h : Directed start step part read? beside other?)
    (hmake : ∀ s e d, directive (make s e d) = d) :
    LastStands name (foldMap start step) read? other?
      (decodeFields name start step (completed part needed beside make)) directive := by
  refine ⟨fun bs a => exists_bytes_of_decodeFields,
    fun fields left hfits => h.exists_decodeFields_iff hfits, fun fields left a hfits ha => ?_⟩
  obtain ⟨ds, hsaying, hlast⟩ := h.saying_of_decodeFields hmake hfits ha
  refine ⟨ds, hsaying, hlast, fun fields' hperm => ?_⟩
  have hfits' := hfits.of_perm hperm
  -- nothing that decides whether a frame is accepted depends on the order of its fields
  obtain ⟨hfields, hdirective, hneeded⟩ := (h.exists_decodeFields_iff hfits).1 ⟨a, ha⟩
  obtain ⟨a', ha'⟩ := (h.exists_decodeFields_iff hfits').2
    ⟨fun field hfield => hfields field (hperm.mem_iff.1 hfield),
      saying_ne_nil_of_perm hperm hdirective, saying_ne_nil_of_perm hperm hneeded⟩
  obtain ⟨ds', hsaying', hlast'⟩ := h.saying_of_decodeFields hmake hfits' ha'
  have hds := perm_of_saying hperm hsaying hsaying'
  refine ⟨a', ds', ha', hsaying', hds, hlast', fun hone => ?_⟩
  obtain ⟨only, rfl⟩ := List.length_eq_one_iff.1 hone
  obtain rfl := List.perm_singleton.1 hds
  exact Option.some.inj (hlast'.symm.trans hlast)

end Frames

end Frame

/-! ## Requests and responses -/

open Resumable.Frame

/-- The directives of a request, by their fields. -/
def Request.directiveFields : List (String × Reader Request.Directive) :=
  [("input", fun value => return .input (← readBoxed value)),
    ("poll_result", fun value => return .pollResult (← readPollResult value))]

/-- What a field of a request asks for, if it is a directive. -/
def Request.readDirective? (name : String) : Option (Reader Request.Directive) :=
  directiveFields.lookup name

/-- The directives of a response, by their fields. -/
def Response.directiveFields : List (String × Reader Response.Directive) :=
  [("exit", fun value => return .exit (← readExit value)),
    ("poll", fun value => return .poll (← readPoll value))]

/-- What a field of a response asks for, if it is a directive. -/
def Response.readDirective? (name : String) : Option (Reader Response.Directive) :=
  directiveFields.lookup name

namespace Frame

/-- What the field of the function's name says. -/
def readFunction? (name : String) : Option (Reader String) :=
  [("function", reader Cursor.string)].lookup name

/-- What the field of the status says. -/
def readStatus? (name : String) : Option (Reader Status) :=
  [("status", fun value => return Status.ofCode (← reader Cursor.u64 value))].lookup name

/-- A name that no field of a table has is not read by the table. -/
theorem lookup_eq_none {δ : Type} {table : List (String × Reader δ)} {name : String}
    (h : ∀ field ∈ table, name ≠ field.1) : table.lookup name = none :=
  List.lookup_eq_none_iff.2 fun field hfield => bne_iff_ne.2 (h field hfield)

theorem lastStands_request :
    LastStands "Request" readRequestFields Request.readDirective? readFunction? Request.decode
      (·.directive) := by
  refine lastStands_decodeFields RequestFields.directive RequestFields.function
    ⟨?uniform, ?directive, ?function, rfl, rfl⟩ fun _ _ _ => rfl
  case uniform =>
    intro name value s s' h
    dsimp only at h ⊢
    split at h
    all_goals exact exists_bind_pure_eq_ok_iff.2 (exists_bind_pure_eq_ok_iff.1 h)
  case directive =>
    intro name value s s' h
    dsimp only at h
    split at h
    all_goals
      obtain ⟨x, hx, hs⟩ := bind_eq_ok_iff.1 h
      cases hs
    case h_7 | h_8 => exact ⟨_, bind_eq_ok_iff.2 ⟨x, hx, rfl⟩, rfl⟩
    case h_9 hinput hresult =>
      have hnone : Request.readDirective? name = none :=
        lookup_eq_none (List.forall_mem_cons.2 ⟨hinput, List.forall_mem_singleton.2 hresult⟩)
      rw [hnone]
    all_goals rfl
  case function =>
    intro name value s s' h
    dsimp only at h
    split at h
    all_goals
      obtain ⟨x, hx, hs⟩ := bind_eq_ok_iff.1 h
      cases hs
    case h_1 => exact ⟨x, hx, rfl⟩
    case h_9 hfunction _ _ _ _ _ _ _ =>
      have hnone : readFunction? name = none :=
        lookup_eq_none (List.forall_mem_singleton.2 hfunction)
      rw [hnone]
    all_goals rfl

theorem lastStands_response :
    LastStands "Response" readResponseFields Response.readDirective? readStatus? Response.decode
      (·.directive) := by
  refine lastStands_decodeFields ResponseFields.directive ResponseFields.status
    ⟨?uniform, ?directive, ?status, rfl, rfl⟩ fun _ _ _ => rfl
  case uniform =>
    intro name value s s' h
    dsimp only at h ⊢
    split at h
    all_goals exact exists_bind_pure_eq_ok_iff.2 (exists_bind_pure_eq_ok_iff.1 h)
  case directive =>
    intro name value s s' h
    dsimp only at h
    split at h
    all_goals
      obtain ⟨x, hx, hs⟩ := bind_eq_ok_iff.1 h
      cases hs
    case h_2 | h_3 => exact ⟨_, bind_eq_ok_iff.2 ⟨x, hx, rfl⟩, rfl⟩
    case h_4 hexit hpoll =>
      have hnone : Response.readDirective? name = none :=
        lookup_eq_none (List.forall_mem_cons.2 ⟨hexit, List.forall_mem_singleton.2 hpoll⟩)
      rw [hnone]
    all_goals rfl
  case status =>
    intro name value s s' h
    dsimp only at h
    split at h
    all_goals
      obtain ⟨x, hx, hs⟩ := bind_eq_ok_iff.1 h
      cases hs
    case h_1 => exact ⟨_, bind_eq_ok_iff.2 ⟨x, hx, rfl⟩, rfl⟩
    case h_4 hstatus _ _ =>
      have hnone : readStatus? name = none := lookup_eq_none (List.forall_mem_singleton.2 hstatus)
      rw [hnone]
    all_goals rfl

/-- Every accepted request and every accepted response says what it asks for in one field at least,
and the last of these fields stands. -/
theorem last_directive_stands :
    LastStands "Request" readRequestFields Request.readDirective? readFunction? Request.decode
        (·.directive) ∧
      LastStands "Response" readResponseFields Response.readDirective? readStatus? Response.decode
        (·.directive) :=
  ⟨lastStands_request, lastStands_response⟩

/-- The field of the function `f`. -/
def functionField : String × Bytes := ("function", (Item.string "f").toBytes)

/-- A field that asks to start with nothing. -/
def inputField : String × Bytes := ("input", Boxed.null.toItem.toBytes)

/-- A field that asks to resume with no results. -/
def resultField : String × Bytes := ("poll_result", ({} : PollResult).toItem.toBytes)

set_option maxRecDepth 4000 in
/-- A request that only asks to start asks for it in either order of its fields. With a field beside
it that asks to resume it is accepted as well, as each of the fields is taken alone. -/
theorem last_directive_stands_of_input :
    Fits "Request" [functionField, inputField] [] ∧
      (∃ request, Request.decode (bytes "Request" [inputField, functionField] []) = .ok request ∧
        request.directive = .input .null) ∧
      Fits "Request" [inputField, functionField, resultField] [] ∧
      ∃ request, Request.decode (bytes "Request" [inputField, functionField, resultField] []) =
        .ok request := by
  have hfits : Fits "Request" [functionField, inputField] [] :=
    ⟨by decide, by decide, by decide⟩
  have hdecode : Request.decode (bytes "Request" [functionField, inputField] []) =
      .ok { function := "f", directive := .input .null } := by rfl
  obtain ⟨ds, hsaying, -, hperm⟩ := last_directive_stands.1.stands _ _ _ hfits hdecode
  obtain ⟨request, -, hdecode', -, -, -, hsame⟩ := hperm _ (List.Perm.swap _ _ _)
  have hone : ds.length = 1 := by
    rw [← List.length_map Except.ok, ← hsaying]
    rfl
  have hfits' : Fits "Request" [inputField, functionField, resultField] [] :=
    ⟨by decide, by decide, by decide⟩
  have htaken : ∀ field ∈ [inputField, functionField, resultField], ∃ s,
      readRequestFields (Item.framed .map (rowBytes [field])) = .ok s := by
    simp only [List.forall_mem_cons]
    exact ⟨⟨_, rfl⟩, ⟨_, rfl⟩, ⟨_, rfl⟩, nofun⟩
  exact ⟨hfits, ⟨request, hdecode', hsame hone⟩, hfits',
    (last_directive_stands.1.accepted _ _ hfits').2 ⟨htaken, nofun, nofun⟩⟩

set_option maxRecDepth 4000 in
/-- A request that asks both to start and to resume is accepted, and asks for one or the other as
its fields are ordered. -/
theorem both_directives_accepted :
    Request.decode (bytes "Request" [functionField, inputField, resultField] []) =
        .ok { function := "f", directive := .pollResult {} } ∧
      Request.decode (bytes "Request" [functionField, resultField, inputField] []) =
          .ok { function := "f", directive := .input .null } ∧
        saying Request.readDirective? [functionField, inputField, resultField] =
          [.ok (.input .null), .ok (.pollResult {})] :=
  ⟨by rfl, by rfl, by rfl⟩

end Frame

end Resumable
