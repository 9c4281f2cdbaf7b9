import Resumable.Proofs.Boxed.Canonical
import Resumable.Proofs.Wire.Walk

/-!
# Bytes that are left over

A reader that looks into the item at the front of some bytes answers alike whatever is left over in
the variants of the item: `TakesAlong` says so of a reader that hands on the bytes behind the item,
`ReadsAlong` of one that passes over them, and `IgnoresLeftovers` of one that allows none there. A
list body is cut into items, so that nothing is left over in it (`bodyAlong_items`); a map body is
cut into variants, in which anything may be left over (`bodyAlong_entries`). Trees are read so at
every level (`Tree.takesAlong_read`).
-/

namespace Resumable

open Wire

section Along

variable {α β : Type} {p q : Plan}

/-- Whether what is taken off the front of some bytes is an item along a plan, taken alike whatever
is left over in it and whatever stands behind it. -/
def TakesAlong (p : Plan) (take : Bytes → Except CodecError (α × Bytes)) : Prop :=
  ∀ bs a rest, take bs = .ok (a, rest) → ∃ w : Walk, w.Along p ∧ bs = w.toBytes ++ rest ∧
    ∀ w' : Walk, w'.Along p → w'.trim = w.trim →
      ∀ behind, take (w'.toBytes ++ behind) = .ok (a, behind)

/-- Whether what is read at the front of a window is an item along a plan, read alike whatever is
left over in it and behind it. -/
def ReadsAlong (p : Plan) (read : Bytes → Except CodecError α) : Prop :=
  ∀ bs a, read bs = .ok a → ∃ (w : Walk) (left : Bytes), w.Along p ∧ bs = w.toBytes ++ left ∧
    ∀ w' : Walk, w'.Along p → w'.trim = w.trim → ∀ left', read (w'.toBytes ++ left') = .ok a

/-- Whether what is decoded is an item along a plan with nothing behind it, decoded alike whatever
is left over in it. -/
def IgnoresLeftovers (p : Plan) (decode : Bytes → Except CodecError α) : Prop :=
  ∀ bs a, decode bs = .ok a → ∃ w : Walk, w.Along p ∧ bs = w.toBytes ∧
    ∀ w' : Walk, w'.Along p → w'.trim = w.trim → decode w'.toBytes = .ok a

/-- Whether what is read from a body is a row of items along a plan, read alike whatever is left
over in them. -/
def BodyAlong (p : Plan) (read : Bytes → Except CodecError α) : Prop :=
  ∀ body a, read body = .ok a → ∃ ws : List Walk, (∀ w ∈ ws, w.Along p) ∧ body = Walk.rowBytes ws ∧
    ∀ ws', (∀ w ∈ ws', Walk.Along w p) → Walk.trimRow ws' = Walk.trimRow ws →
      read (Walk.rowBytes ws') = .ok a

/-- An exact read takes an item whole. -/
theorem takesAlong_reading {op : Read α} (hop : op.Exact) :
    TakesAlong .whole (CodecError.reading op) := by
  intro bs a rest h
  obtain ⟨item, hitem, rfl, hsame⟩ := hop _ _ _ (CodecError.reading_eq_ok_iff.1 h)
  refine ⟨.whole item, .of_delimited hitem, rfl, ?_⟩
  intro w' _ htrim behind
  obtain rfl := Walk.eq_whole_of_trim htrim
  exact CodecError.reading_eq_ok_iff.2 (hsame behind)

/-- What is made of an answer takes no further bytes. -/
theorem TakesAlong.bind {take : Bytes → Except CodecError (α × Bytes)} (h : TakesAlong p take)
    {k : α × Bytes → Except CodecError (β × Bytes)}
    (hk : ∀ {a b rest rest'}, k (a, rest) = .ok (b, rest') →
      rest' = rest ∧ ∀ behind, k (a, behind) = .ok (b, behind)) :
    TakesAlong p fun bs => take bs >>= k := by
  intro bs b rest hread
  obtain ⟨⟨a, rest'⟩, ha, hb⟩ := bind_eq_ok_iff.1 hread
  obtain ⟨rfl, hsame⟩ := hk hb
  obtain ⟨w, hw, hbs, htake⟩ := h _ _ _ ha
  exact ⟨w, hw, hbs, fun w' hw' htrim behind =>
    bind_eq_ok_iff.2 ⟨_, htake w' hw' htrim behind, hsame behind⟩⟩

theorem TakesAlong.map {take : Bytes → Except CodecError (α × Bytes)} (h : TakesAlong p take)
    (f : α → β) : TakesAlong p fun bs => take bs >>= fun taken => pure (f taken.1, taken.2) := by
  apply h.bind
  intro a b rest rest' hk
  cases hk
  exact ⟨rfl, fun _ => rfl⟩

/-- A window is read by taking an item off its front. -/
theorem TakesAlong.reads {take : Bytes → Except CodecError (α × Bytes)} (h : TakesAlong p take)
    (k : α → Except CodecError β) : ReadsAlong p fun bs => take bs >>= fun taken => k taken.1 := by
  intro bs b hread
  obtain ⟨⟨a, rest⟩, htake, hb⟩ := bind_eq_ok_iff.1 hread
  obtain ⟨w, hw, hbs, hsame⟩ := h _ _ _ htake
  exact ⟨w, rest, hw, hbs, fun w' hw' htrim left =>
    bind_eq_ok_iff.2 ⟨_, hsame w' hw' htrim left, hb⟩⟩

theorem ReadsAlong.bind {read : Bytes → Except CodecError α} (h : ReadsAlong p read)
    (k : α → Except CodecError β) : ReadsAlong p fun bs => read bs >>= k := by
  intro bs b hread
  obtain ⟨a, ha, hb⟩ := bind_eq_ok_iff.1 hread
  obtain ⟨w, left, hw, hbs, hsame⟩ := h _ _ ha
  exact ⟨w, left, hw, hbs, fun w' hw' htrim left' =>
    bind_eq_ok_iff.2 ⟨a, hsame w' hw' htrim left', hb⟩⟩

/-! ## Bodies -/

/-- A fold over windows goes through a row of items if each of its steps goes through one. -/
theorem exists_row_of_foldlM {σ ι : Type} {step : σ → ι → Except CodecError σ} {window : Walk → ι}
    {xs : List ι} {s s' : σ}
    (hstep : ∀ x ∈ xs, ∀ s s', step s x = .ok s' → ∃ w : Walk, w.Along p ∧ x = window w ∧
      ∀ w' : Walk, w'.Along p → w'.trim = w.trim → step s (window w') = .ok s')
    (h : xs.foldlM step s = .ok s') :
    ∃ ws : List Walk, (∀ w ∈ ws, w.Along p) ∧ xs = ws.map window ∧
      ∀ ws', (∀ w ∈ ws', Walk.Along w p) → Walk.trimRow ws' = Walk.trimRow ws →
        (ws'.map window).foldlM step s = .ok s' := by
  induction xs generalizing s with
  | nil =>
    refine ⟨[], nofun, rfl, ?_⟩
    intro ws' _ htrim
    cases ws' with
    | nil => exact h
    | cons w' rest' => cases htrim
  | cons x xs ih =>
    obtain ⟨hx, hxs⟩ := List.forall_mem_cons.1 hstep
    rw [List.foldlM_cons] at h
    obtain ⟨mid, hmid, hfold⟩ := bind_eq_ok_iff.1 h
    obtain ⟨w, hw, rfl, hsame⟩ := hx _ _ hmid
    obtain ⟨ws, hws, rfl, hrest⟩ := ih hxs hfold
    refine ⟨w :: ws, List.forall_mem_cons.2 ⟨hw, hws⟩, rfl, ?_⟩
    intro ws' hws' htrim
    cases ws' with
    | nil => cases htrim
    | cons w' rest' =>
      obtain ⟨hw', hrest'⟩ := List.forall_mem_cons.1 hws'
      obtain ⟨htrim, htrims⟩ := List.cons.inj htrim
      rw [List.map_cons, List.foldlM_cons]
      exact bind_eq_ok_iff.2 ⟨mid, hsame w' hw' htrim, hrest rest' hrest' htrims⟩

/-- Nothing is left over in the windows of a list body. -/
theorem bodyAlong_items {read : Bytes → Except CodecError α} (h : ReadsAlong p read) :
    BodyAlong p (fun body => do
      let (windows, failure) := Cursor.items body
      let items ← windows.mapM read
      CodecError.unlessFailed failure items) := by
  intro body as hread
  dsimp only at hread
  cases hwindows : Cursor.items body with
  | mk windows failure =>
    rw [hwindows] at hread
    obtain ⟨items, hitems, hread⟩ := bind_eq_ok_iff.1 hread
    obtain ⟨rfl, rfl⟩ := CodecError.unlessFailed_eq_ok_iff.1 hread
    obtain ⟨hdelimited, rfl⟩ := Cursor.items_eq_iff.1 hwindows
    -- a window is one item, so that the item read from it is the whole window
    have hstep : ∀ x ∈ windows, ∀ acc acc', (do return (← read x) :: acc) = .ok acc' →
        ∃ w : Walk, w.Along p ∧ x = w.toBytes ∧ ∀ w' : Walk, w'.Along p → w'.trim = w.trim →
          (do return (← read w'.toBytes) :: acc) = .ok acc' := by
      intro x hx acc acc' hacc
      obtain ⟨a, ha, hpure⟩ := bind_eq_ok_iff.1 hacc
      obtain ⟨w, left, hw, rfl, hsame⟩ := h _ _ ha
      obtain rfl := hw.delimited.eq_nil_of_append (hdelimited _ hx)
      refine ⟨w, hw, List.append_nil _, fun w' hw' htrim => ?_⟩
      have hsame' := hsame w' hw' htrim []
      rw [List.append_nil] at hsame'
      exact bind_eq_ok_iff.2 ⟨a, hsame', hpure⟩
    obtain ⟨ws, hws, rfl, hrow⟩ := exists_row_of_foldlM hstep (mapM_eq_ok_iff_foldlM.1 hitems)
    refine ⟨ws, hws, by rw [Walk.rowBytes_eq_flatMap, List.flatMap_def], ?_⟩
    intro ws' hws' htrim
    dsimp only
    rw [Walk.items_rowBytes hws']
    exact bind_eq_ok_iff.2 ⟨items, mapM_eq_ok_iff_foldlM.2 (hrow ws' hws' htrim), rfl⟩

/-- Anything may be left over in the entries of a map body. -/
theorem bodyAlong_entries {σ : Type} {inner : String → Plan}
    {step : σ → String → Bytes → Except CodecError σ} (start : σ)
    (h : ∀ s name, ReadsAlong (inner name) (step s name)) :
    BodyAlong (.variant fun name => some (inner name)) (fun body => do
      let (fields, failure) := Cursor.entries body
      let s ← fields.foldlM (fun s field => step s field.1 field.2) start
      CodecError.unlessFailed failure s) := by
  intro body s hread
  dsimp only at hread
  cases hwindows : Cursor.entries body with
  | mk windows failure =>
    rw [hwindows] at hread
    obtain ⟨s', hfold, hread⟩ := bind_eq_ok_iff.1 hread
    obtain ⟨rfl, rfl⟩ := CodecError.unlessFailed_eq_ok_iff.1 hread
    obtain ⟨hfits, rfl⟩ := Cursor.entries_eq_iff.1 hwindows
    have hstep : ∀ x ∈ windows, ∀ s s', step s x.1 x.2 = .ok s' →
        ∃ w : Walk, w.Along (.variant fun name => some (inner name)) ∧ x = w.entry ∧
          ∀ w' : Walk, w'.Along (.variant fun name => some (inner name)) → w'.trim = w.trim →
            step s w'.entry.1 w'.entry.2 = .ok s' := by
      rintro ⟨name, value⟩ hx s s' hs
      obtain ⟨w, left, hw, rfl, hsame⟩ := h _ _ _ _ hs
      refine ⟨.variant name w left, .variant rfl hw (hfits _ hx), rfl, ?_⟩
      intro w' hw' htrim
      cases hw' with
      | whole takes _ => exact absurd takes id
      | parts opens _ _ _ => cases opens
      | variant opens hinner _ =>
        obtain ⟨rfl, htrim, -⟩ := Walk.variant.inj htrim
        obtain rfl := Option.some.inj opens
        exact hsame _ hinner htrim _
    obtain ⟨ws, hws, rfl, hrow⟩ := exists_row_of_foldlM hstep hfold
    refine ⟨ws, hws, ?_, ?_⟩
    · exact (Cursor.entries_eq_iff.1 (Walk.entries_rowBytes hws)).2.symm
    · intro ws' hws' htrim
      dsimp only
      rw [Walk.entries_rowBytes hws']
      exact bind_eq_ok_iff.2 ⟨s', hrow ws' hws' htrim, rfl⟩

theorem reading_parts {tag : Tag} {ws : List Walk} {rest : Bytes}
    (fits : (Walk.rowBytes ws).length ≤ maxLength) :
    CodecError.reading (Cursor.body tag) ((Walk.parts tag ws).toBytes ++ rest) =
      .ok (Walk.rowBytes ws, rest) :=
  CodecError.reading_eq_ok_iff.2 (Cursor.body_eq_ok_iff.2 ⟨fits, rfl⟩)

/-- An item is taken as its body is read part by part. -/
theorem TakesAlong.parts {tag : Tag} {read : Bytes → Except CodecError α} (f : α → β)
    {k : Bytes × Bytes → Except CodecError (β × Bytes)} (opens : p.part? tag = some q)
    (width : tag.width? = none) (h : BodyAlong q read)
    (hk : ∀ body rest x, k (body, rest) = .ok x ↔ ∃ a, read body = .ok a ∧ x = (f a, rest)) :
    TakesAlong p fun bs => CodecError.reading (Cursor.body tag) bs >>= k := by
  intro bs b rest htake
  obtain ⟨⟨body, rest'⟩, hbody, hkept⟩ := bind_eq_ok_iff.1 htake
  obtain ⟨a, ha, heq⟩ := (hk _ _ _).1 hkept
  cases heq
  obtain ⟨hle, rfl⟩ := Cursor.body_eq_ok_iff.1 (CodecError.reading_eq_ok_iff.1 hbody)
  obtain ⟨ws, hws, rfl, hsame⟩ := h _ _ ha
  refine ⟨.parts tag ws, .parts opens width hws hle, rfl, ?_⟩
  intro w' hw' htrim behind
  cases hw' with
  | whole _ _ | variant _ _ _ => cases htrim
  | parts opens' _ hws' hle' =>
    obtain ⟨rfl, htrims⟩ := Walk.parts.inj htrim
    obtain rfl := Option.some.inj (opens.symm.trans opens')
    exact bind_eq_ok_iff.2 ⟨_, reading_parts hle', (hk _ _ _).2 ⟨a, hsame _ hws' htrims, rfl⟩⟩

theorem CodecError.ofWire_peek_eq_ok_iff {tag : Tag} {bs : Bytes} :
    CodecError.ofWire (Cursor.peek.eval bs) = .ok tag ↔ bs.head? = some tag.code := by
  rw [CodecError.ofWire_eq_ok_iff, List.head?_eq_some_iff]
  constructor
  · intro h
    have hpeek : Cursor.peek.on bs = (.ok tag, (Cursor.peek.on bs).2) := Prod.ext h rfl
    exact (Cursor.peek_eq_ok_iff.1 hpeek).2
  · rintro ⟨behind, rfl⟩
    exact congrArg Prod.fst (Cursor.peek_cons tag behind)

/-- An item is taken as its tag says, either whole or along the plan. -/
theorem TakesAlong.peeked {branch : Tag → Bytes → Except CodecError (α × Bytes)}
    (h : ∀ tag, TakesAlong p (branch tag) ∨ p.TakesWhole tag ∧ TakesAlong .whole (branch tag)) :
    TakesAlong p fun bs =>
      CodecError.ofWire (Cursor.peek.eval bs) >>= fun tag => branch tag bs := by
  intro bs a rest hread
  obtain ⟨tag, hpeek, hbranch⟩ := bind_eq_ok_iff.1 hread
  -- in both cases there is a walk along the plan, and those like it begin with the same tag
  suffices htake : ∃ w : Walk, w.Along p ∧ bs = w.toBytes ++ rest ∧ ∀ w' : Walk, w'.Along p →
      w'.trim = w.trim → ∀ behind, branch tag (w'.toBytes ++ behind) = .ok (a, behind) by
    obtain ⟨w, hw, rfl, hsame⟩ := htake
    refine ⟨w, hw, rfl, fun w' hw' htrim behind => bind_eq_ok_iff.2 ⟨tag, ?_, hsame w' hw' htrim _⟩⟩
    rw [CodecError.ofWire_peek_eq_ok_iff, hw.head?_append] at hpeek
    rw [CodecError.ofWire_peek_eq_ok_iff, hw'.head?_append, Walk.head?_toBytes_of_trim htrim, hpeek]
  rcases h tag with htake | ⟨htag, htake⟩
  · exact htake _ _ _ hbranch
  · obtain ⟨w, hw, rfl, hsame⟩ := htake _ _ _ hbranch
    rw [CodecError.ofWire_peek_eq_ok_iff, hw.head?_append] at hpeek
    cases hw with
    | whole takes item =>
      obtain rfl := Tag.code_inj (Option.some.inj hpeek)
      refine ⟨_, .whole htag item, rfl, fun w' _ htrim behind => ?_⟩
      obtain rfl := Walk.eq_whole_of_trim htrim
      exact hsame _ (.whole takes item) rfl behind
    | parts opens _ _ _ => cases opens
    | variant opens _ _ => cases opens

end Along

/-! ## Trees -/

namespace Tree

variable {levels : Nat}

/-- A list is taken as its items are read from their windows. -/
theorem takesAlong_list (h : TakesAlong .tree (read levels)) :
    TakesAlong .tree (fun bs => do
      let (body, rest) ← CodecError.reading Cursor.list bs
      let (windows, failure) := Cursor.items body
      let items ← windows.mapM fun window => do return (← read levels window).1
      CodecError.unlessFailed failure (list items, rest)) := by
  refine TakesAlong.parts list rfl rfl (bodyAlong_items (h.reads pure)) ?_
  intro body rest x
  cases hwindows : Cursor.items body with
  | mk windows failure =>
    simp only [hwindows, bind_eq_ok_iff, CodecError.unlessFailed_eq_ok_iff]
    constructor
    · rintro ⟨items, hitems, rfl, rfl⟩
      exact ⟨items, ⟨items, hitems, rfl, rfl⟩, rfl⟩
    · rintro ⟨_, ⟨items, hitems, rfl, rfl⟩, rfl⟩
      exact ⟨items, hitems, rfl, rfl⟩

/-- A map is taken as its fields are read from its entries. -/
theorem takesAlong_map (h : TakesAlong .tree (read levels)) :
    TakesAlong .tree (fun bs => do
      let (body, rest) ← CodecError.reading Cursor.map bs
      let (windows, failure) := Cursor.entries body
      let fields ← windows.mapM fun entry => do return (entry.1, (← read levels entry.2).1)
      CodecError.unlessFailed failure (ofFields fields, rest)) := by
  have hfield : ∀ (acc : List (String × Tree)) name, ReadsAlong .tree fun bs => do
      return (← (do return (name, (← read levels bs).1))) :: acc := by
    intro acc name
    exact (h.reads fun t => pure (name, t)).bind fun field => pure (field :: acc)
  refine TakesAlong.parts (fun acc => ofFields acc.reverse) rfl rfl (bodyAlong_entries [] hfield) ?_
  intro body rest x
  cases hwindows : Cursor.entries body with
  | mk windows failure =>
    simp only [hwindows, bind_eq_ok_iff, CodecError.unlessFailed_eq_ok_iff, mapM_eq_ok_iff_foldlM]
    constructor
    · rintro ⟨fields, hfields, rfl, rfl⟩
      exact ⟨fields.reverse, ⟨fields.reverse, hfields, rfl, rfl⟩, by rw [List.reverse_reverse]⟩
    · rintro ⟨_, ⟨acc, hfields, rfl, rfl⟩, rfl⟩
      rw [← List.reverse_reverse acc] at hfields
      exact ⟨acc.reverse, hfields, rfl, rfl⟩

/-- A tree is taken alike whatever is left over in its maps, at every level. -/
theorem takesAlong_read (levels : Nat) : TakesAlong .tree (read levels) := by
  induction levels with
  | zero =>
    intro bs t rest h
    cases h
  | succ levels ih =>
    show TakesAlong .tree fun bs => read (levels + 1) bs
    simp only [read]
    apply TakesAlong.peeked
    intro tag
    cases tag with
    | list => exact .inl (takesAlong_list ih)
    | map => exact .inl (takesAlong_map ih)
    | f64 =>
      refine .inr ⟨⟨by decide, by decide⟩, (takesAlong_reading Cursor.exact_f64).bind ?_⟩
      intro bits t rest rest' hk
      dsimp only at hk ⊢
      split at hk
      · rename_i hfinite
        cases hk
        exact ⟨rfl, fun behind => dif_pos hfinite⟩
      · cases hk
    | null =>
      exact .inr ⟨⟨by decide, by decide⟩, (takesAlong_reading Cursor.exact_null).map fun _ => null⟩
    | boolTrue | boolFalse =>
      exact .inr ⟨⟨by decide, by decide⟩, (takesAlong_reading Cursor.exact_bool).map bool⟩
    | s64 =>
      refine .inr ⟨⟨by decide, by decide⟩, ?_⟩
      exact (takesAlong_reading Cursor.exact_s64).map fun n => int (.ofInt64 n)
    | u64 =>
      refine .inr ⟨⟨by decide, by decide⟩, ?_⟩
      exact (takesAlong_reading Cursor.exact_u64).map fun n => int (.ofUInt64 n)
    | string =>
      exact .inr ⟨⟨by decide, by decide⟩, (takesAlong_reading Cursor.exact_string).map string⟩
    | timestamp | duration | optionNone | bytes | optionSome | variant =>
      refine .inl fun bs t rest h => ?_
      cases h

end Tree

/-! ## Values -/

/-- What is looked into in the payload of a shape. -/
def Shape.plan : Shape → Plan
  | tree => .tree
  | _ => .whole

/-- The payload of a value is one item, read alike whatever is left over in it. -/
theorem Value.takesAlong_read {shape : Shape} (hempty : shape ≠ .empty) :
    TakesAlong shape.plan (read shape) := by
  cases shape with
  | empty => exact absurd rfl hempty
  | bool => exact (takesAlong_reading Cursor.exact_bool).map bool
  | int => exact (takesAlong_reading Cursor.exact_s64).map int
  | uint => exact (takesAlong_reading Cursor.exact_u64).map uint
  | double => exact (takesAlong_reading Cursor.exact_f64).map fun bits => double ⟨bits⟩
  | string => exact (takesAlong_reading Cursor.exact_string).map string
  | bytes => exact (takesAlong_reading Cursor.exact_bytes).map bytes
  | timestamp =>
    apply (takesAlong_reading Cursor.exact_timestamp).bind
    intro parts v rest rest' hk
    obtain ⟨t, ht, hk⟩ := bind_eq_ok_iff.1 hk
    cases hk
    exact ⟨rfl, fun _ => bind_eq_ok_iff.2 ⟨t, ht, rfl⟩⟩
  | duration =>
    apply (takesAlong_reading Cursor.exact_duration).bind
    intro parts v rest rest' hk
    dsimp only at hk ⊢
    split at hk
    · cases hk
      exact ⟨rfl, fun _ => rfl⟩
    · cases hk
  | tree => exact (Tree.takesAlong_read Tree.maxLevels).map tree

/-- A payload is one item with nothing behind it, decoded alike whatever is left over in it. -/
theorem Boxed.ignoresLeftovers {shape : Shape} (hempty : shape ≠ .empty) :
    IgnoresLeftovers shape.plan fun payload => Boxed.decode ⟨shape, payload⟩ := by
  intro payload v h
  rcases decode_eq_ok_iff.1 h with ⟨hshape, -⟩ | ⟨-, hread⟩
  · exact absurd hshape hempty
  · obtain ⟨w, hw, hbs, hsame⟩ := Value.takesAlong_read hempty _ _ _ hread
    refine ⟨w, hw, hbs.trans (List.append_nil _), fun w' hw' htrim => ?_⟩
    have hread' := hsame w' hw' htrim []
    rw [List.append_nil] at hread'
    exact decode_eq_ok_iff.2 (.inr ⟨hempty, hread'⟩)

end Resumable
