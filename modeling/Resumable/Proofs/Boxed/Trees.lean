import Resumable.Proofs.Boxed.Times
import Resumable.Proofs.Keyed
import Resumable.Proofs.Wire.Reading

/-!
# Trees as items

A tree has an item unless some node of it stands too deep (`Tree.TooDeep`), and reading the item
gives the tree back (`Tree.read_of_toItem`). The two count levels alike: what is written with so
many levels is read with as many.
-/

namespace Resumable

open Number Wire

namespace Tree

/-! ## Levels -/

/-- The trees right below the root. -/
def children : Tree → List Tree
  | list items => items
  | map fields => fields.map (·.2)
  | _ => []

/-- The nodes so many levels below the root. -/
def nodesAt : Nat → Tree → List Tree
  | 0, t => [t]
  | level + 1, t => t.children.flatMap (nodesAt level)

/-- Whether some node stands more than 64 levels below the root. -/
def TooDeep (t : Tree) : Prop := ∃ level, 64 < level ∧ t.nodesAt level ≠ []

theorem nodesAt_succ_eq_nil_iff {level : Nat} {t : Tree} :
    t.nodesAt (level + 1) = [] ↔ ∀ child ∈ t.children, child.nodesAt level = [] := by
  rw [nodesAt, List.flatMap_eq_nil_iff]

/-- Below a level without nodes there are none. -/
theorem nodesAt_succ_eq_nil {level : Nat} {t : Tree} (h : t.nodesAt level = []) :
    t.nodesAt (level + 1) = [] := by
  induction level generalizing t with
  | zero => cases h
  | succ level ih =>
    rw [nodesAt_succ_eq_nil_iff] at h ⊢
    intro child hchild
    exact ih (h child hchild)

theorem nodesAt_eq_nil_of_le {level below : Nat} {t : Tree} (hle : level ≤ below)
    (h : t.nodesAt level = []) : t.nodesAt below = [] := by
  induction hle with
  | refl => exact h
  | step _ ih => exact nodesAt_succ_eq_nil ih

theorem tooDeep_iff {t : Tree} : t.TooDeep ↔ t.nodesAt maxLevels ≠ [] := by
  constructor
  · rintro ⟨level, hlevel, hne⟩ hnil
    exact hne (nodesAt_eq_nil_of_le hlevel hnil)
  · intro h
    exact ⟨maxLevels, by decide, h⟩

/-! ## Items -/

/-- A tree that has an item with so many levels has no nodes below them. -/
theorem nodesAt_of_toItem {levels : Nat} {t : Tree} {item : Item}
    (h : t.toItem levels = .ok item) : t.nodesAt levels = [] := by
  induction levels generalizing t item with
  | zero => cases h
  | succ levels ih =>
    rw [nodesAt_succ_eq_nil_iff]
    cases t with
    | list items =>
      obtain ⟨inner, hinner, -⟩ := bind_eq_ok_iff.1 h
      intro child hchild
      obtain ⟨item', -, hitem'⟩ := exists_answer_of_mapM hinner child hchild
      exact ih hitem'
    | map fields =>
      obtain ⟨inner, hinner, -⟩ := bind_eq_ok_iff.1 h
      intro child hchild
      obtain ⟨field, hfield, rfl⟩ := List.mem_map.1 hchild
      obtain ⟨entry, -, hentry⟩ := exists_answer_of_mapM hinner field hfield
      obtain ⟨item', hitem', -⟩ := bind_eq_ok_iff.1 hentry
      exact ih hitem'
    | _ => exact nofun

/-- A tree has no item for one reason only: some node stands below the levels allowed. -/
theorem of_toItem_eq_error {levels : Nat} {t : Tree} {e : CodecError}
    (h : t.toItem levels = .error e) : e = .recursionLimitExceeded ∧ t.nodesAt levels ≠ [] := by
  induction levels generalizing t e with
  | zero => exact ⟨(Except.error.inj h).symm, List.cons_ne_nil _ _⟩
  | succ levels ih =>
    -- whatever fails fails at a child, with one level less
    have hchild : ∀ child ∈ t.children, child.toItem levels = .error e →
        e = .recursionLimitExceeded ∧ t.nodesAt (levels + 1) ≠ [] := by
      intro child hchild herror
      obtain ⟨rfl, hne⟩ := ih herror
      refine ⟨rfl, ?_⟩
      intro hnil
      exact hne (nodesAt_succ_eq_nil_iff.1 hnil child hchild)
    cases t with
    | list items =>
      rcases bind_eq_error_iff.1 h with hitems | ⟨inner, -, h⟩
      · obtain ⟨child, hmem, herror⟩ := exists_failing_of_mapM hitems
        exact hchild child hmem herror
      · cases h
    | map fields =>
      rcases bind_eq_error_iff.1 h with hfields | ⟨inner, -, h⟩
      · obtain ⟨field, hmem, herror⟩ := exists_failing_of_mapM hfields
        rcases bind_eq_error_iff.1 herror with herror | ⟨inner, -, herror⟩
        · exact hchild field.2 (List.mem_map_of_mem hmem) herror
        · cases herror
      · cases h
    | _ => cases h

/-- The item of a tree holds no times. -/
theorem valid_of_toItem {levels : Nat} {t : Tree} {item : Item} (h : t.toItem levels = .ok item) :
    item.Valid := by
  induction levels generalizing t item with
  | zero => cases h
  | succ levels ih =>
    cases t with
    | list items =>
      obtain ⟨inner, hinner, h⟩ := bind_eq_ok_iff.1 h
      cases h
      apply Item.valid_list.2
      intro item' hitem'
      obtain ⟨child, -, hchild⟩ := exists_member_of_mapM hinner item' hitem'
      exact ih hchild
    | map fields =>
      obtain ⟨inner, hinner, h⟩ := bind_eq_ok_iff.1 h
      cases h
      apply Item.valid_map.2
      intro entry hentry
      obtain ⟨field, -, hfield⟩ := exists_member_of_mapM hinner entry hentry
      obtain ⟨item', hitem', hpair⟩ := bind_eq_ok_iff.1 hfield
      cases hpair
      exact ih hitem'
    | int n =>
      cases h
      rw [Integer.toItem]
      split
      · exact List.forall_mem_singleton.2 trivial
      · exact List.forall_mem_singleton.2 trivial
    | _ =>
      cases h
      exact List.forall_mem_singleton.2 trivial

/-! ## Reading the item of a tree -/

/-- The item of an integer is a word that stands for it, signed or unsigned. -/
theorem Integer.toItem_cases (n : Integer) :
    (∃ m, n.toItem = .s64 m ∧ Integer.ofInt64 m = n) ∨
      ∃ m, n.toItem = .u64 m ∧ Integer.ofUInt64 m = n := by
  have hlower := n.lower
  have hupper := n.upper
  by_cases hsigned : n.val < 0x8000000000000000
  · refine .inl ⟨Int64.ofInt n.val, if_pos hsigned, ?_⟩
    rw [Integer.ofInt64]
    congr 1
    exact Int64.toInt_ofInt_of_le hlower hsigned
  · refine .inr ⟨UInt64.ofNat n.val.toNat, if_neg hsigned, ?_⟩
    rw [Integer.ofUInt64]
    congr 1
    rw [UInt64.toNat_ofNat_of_lt' (by simp only [UInt64.size]; omega)]
    omega

/-- Reading the item of a tree gives the tree, with as many levels as it was written. -/
theorem read_of_toItem {levels : Nat} {t : Tree} {item : Item} {rest : Bytes}
    (h : t.toItem levels = .ok item) (hitem : item.Writable) :
    read levels (item.toBytes ++ rest) = .ok (t, rest) := by
  induction levels generalizing t item rest with
  | zero => cases h
  | succ levels ih =>
    have hpeek : CodecError.ofWire (Cursor.peek.eval (item.toBytes ++ rest)) = .ok item.tag := by
      rw [Item.peek_toBytes]
      rfl
    -- a window holds the item of a child and nothing behind it
    have hwindow : ∀ (child : Tree) (item : Item), child.toItem levels = .ok item →
        item.Writable → read levels item.toBytes = .ok (child, []) := by
      intro child item hto hitem
      have hread : read levels (item.toBytes ++ []) = .ok (child, []) := ih hto hitem
      rwa [List.append_nil] at hread
    rw [read]
    refine bind_eq_ok_iff.2 ⟨item.tag, hpeek, ?_⟩
    cases t with
    | null =>
      cases h
      have hread := Cursor.null_eq_ok_iff (u := ()).2 (rfl : Item.null.toBytes ++ rest = _)
      exact bind_eq_ok_iff.2 ⟨_, CodecError.reading_of_on hread, rfl⟩
    | bool b =>
      cases h
      have hread := Cursor.bool_eq_ok_iff.2 (rfl : (Item.bool b).toBytes ++ rest = _)
      cases b with
      | false => exact bind_eq_ok_iff.2 ⟨_, CodecError.reading_of_on hread, rfl⟩
      | true => exact bind_eq_ok_iff.2 ⟨_, CodecError.reading_of_on hread, rfl⟩
    | int n =>
      cases h
      rcases n.toItem_cases with ⟨m, hm, hn⟩ | ⟨m, hm, hn⟩
      · rw [hm, ← hn]
        exact bind_eq_ok_iff.2 ⟨_, CodecError.reading_of_on (Cursor.s64_eq_ok_iff.2 rfl), rfl⟩
      · rw [hm, ← hn]
        exact bind_eq_ok_iff.2 ⟨_, CodecError.reading_of_on (Cursor.u64_eq_ok_iff.2 rfl), rfl⟩
    | double d hfinite =>
      cases h
      refine bind_eq_ok_iff.2 ⟨_, CodecError.reading_of_on (Cursor.f64_eq_ok_iff.2 rfl), ?_⟩
      exact dif_pos hfinite
    | string s =>
      cases h
      have hread := Cursor.string_eq_ok_iff.2
        ⟨Item.writable_string.1 hitem, (rfl : (Item.string s).toBytes ++ rest = _)⟩
      exact bind_eq_ok_iff.2 ⟨_, CodecError.reading_of_on hread, rfl⟩
    | list items =>
      obtain ⟨inner, hinner, h⟩ := bind_eq_ok_iff.1 h
      cases h
      obtain ⟨hle, hwritable⟩ := Item.writable_list.1 hitem
      have hback : (inner.map Item.toBytes).mapM (fun window => do
          return (← read levels window).1) = .ok items := by
        rw [List.mapM_map]
        refine mapM_eq_ok_of_inverse hinner ?_
        intro child hchild item' hitem' hto
        have hread := hwindow child item' hto (hwritable item' hitem')
        exact bind_eq_ok_iff.2 ⟨_, hread, rfl⟩
      refine bind_eq_ok_iff.2 ⟨_, CodecError.reading_of_on (Cursor.body_eq_ok_iff.2 ⟨hle, rfl⟩), ?_⟩
      dsimp only
      rw [Item.items_listBytes hwritable]
      exact bind_eq_ok_iff.2 ⟨_, hback, rfl⟩
    | map fields =>
      obtain ⟨inner, hinner, h⟩ := bind_eq_ok_iff.1 h
      cases h
      obtain ⟨hle, hwritable⟩ := Item.writable_map.1 hitem
      have hback : (inner.map fun e => (e.1, e.2.toBytes)).mapM (fun entry => do
          return (entry.1, (← read levels entry.2).1)) = .ok fields.toList := by
        rw [List.mapM_map]
        refine mapM_eq_ok_of_inverse hinner ?_
        intro field hfield entry hentry hto
        obtain ⟨item', hitem', hpair⟩ := bind_eq_ok_iff.1 hto
        cases hpair
        have hread := hwindow field.2 item' hitem'
          (Item.writable_variant.1 (hwritable _ hentry)).2
        exact bind_eq_ok_iff.2 ⟨_, hread, rfl⟩
      refine bind_eq_ok_iff.2 ⟨_, CodecError.reading_of_on (Cursor.body_eq_ok_iff.2 ⟨hle, rfl⟩), ?_⟩
      dsimp only
      rw [Item.entries_entriesBytes hwritable]
      refine bind_eq_ok_iff.2 ⟨_, hback, ?_⟩
      rw [ofFields, Keyed.ofList_toList]
      rfl

end Tree

end Resumable
