import Mathlib.Data.List.Forall2
import Resumable.Proofs.Wire.Skip

/-!
# Windows of a body

The body of a list is handed out item by item and the body of a map entry by entry. `Read.times` is
what so many calls answer, one after the other whatever they answer. The windows of a list body cut
it up to its end or to the first place where no item stands, and there every further call answers the
same (`Cursor.Partition`); the entries of a map body are its items, and whatever the calls before a
call have answered, what it hands out lies within the bytes that it takes
(`Cursor.windows_partition`).
-/

namespace Resumable.Wire

/-! ## Calls one after the other -/

namespace Read

variable {α β : Type} {op : Read α} {bs mid rest : Bytes}

/-- The answers to so many calls of a read, and what is unread behind them. -/
def times (op : Read α) : Nat → Bytes → List (Except Error α) × Bytes
  | 0, bs => ([], bs)
  | n + 1, bs =>
    let (answer, mid) := op.on bs
    let (answers, rest) := op.times n mid
    (answer :: answers, rest)

theorem times_succ_of_on {answer : Except Error α} (h : op.on bs = (answer, mid)) (n : Nat) :
    op.times (n + 1) bs = (answer :: (op.times n mid).1, (op.times n mid).2) := by
  rw [times, h]

/-- A call that takes nothing is answered alike ever after. -/
theorem times_of_still {answer : Except Error α} (h : op.on bs = (answer, bs)) (n : Nat) :
    op.times n bs = (List.replicate n answer, bs) := by
  induction n with
  | zero => rfl
  | succ n ih => rw [times_succ_of_on h, ih, List.replicate_succ]

/-- Whether a read only takes bytes off the front, also when it fails. -/
def TakesFront (op : Read α) : Prop := ∀ bs, (op.on bs).2 <:+ bs

theorem takesFront_pure (a : α) : (pure a : Read α).TakesFront := fun bs => List.suffix_refl bs

theorem takesFront_throw (e : Error) : (throw e : Read α).TakesFront := fun bs => List.suffix_refl bs

theorem takesFront_get : (get : Read Bytes).TakesFront := fun bs => List.suffix_refl bs

theorem TakesFront.bind {x : Read α} {f : α → Read β} (h : x.TakesFront)
    (hf : ∀ a, (f a).TakesFront) : (x >>= f).TakesFront := by
  intro bs
  have hx := h bs
  rcases hread : x.on bs with ⟨e | a, mid⟩
  · rw [hread] at hx
    rw [on_bind_of_error hread]
    exact hx
  · rw [hread] at hx
    rw [on_bind_of_on hread]
    exact (hf a mid).trans hx

end Read

open Read

namespace Cursor

variable {bs rest : Bytes}

theorem takesFront_peek : peek.TakesFront := by
  intro bs
  cases bs with
  | nil => exact List.suffix_refl _
  | cons b behind =>
    rw [Read.on, peek]
    split <;> exact List.suffix_refl _

theorem takesFront_take (n : Nat) : (take n).TakesFront := by
  intro bs
  rw [Read.on, take]
  split
  · exact List.drop_suffix n bs
  · exact List.suffix_refl bs

theorem takesFront_sized : sized.TakesFront :=
  ((takesFront_take 4).bind fun _ => takesFront_pure _).bind takesFront_take

theorem takesFront_expect (tag : Tag) : (expect tag).TakesFront := by
  refine takesFront_peek.bind fun found => ?_
  split
  · exact (takesFront_throw _).bind fun _ => (takesFront_take 1).bind fun _ => takesFront_pure _
  · exact (takesFront_take 1).bind fun _ => takesFront_pure _

theorem takesFront_variant : variant.TakesFront := by
  refine ((takesFront_expect _).bind fun _ => takesFront_sized).bind fun inner => ?_
  split
  · exact takesFront_pure _
  · exact takesFront_throw _

theorem takesFront_nextEntry : nextEntry.TakesFront := by
  refine takesFront_get.bind fun found => ?_
  split
  · exact takesFront_pure _
  · refine takesFront_peek.bind fun tag => ?_
    split
    · refine (takesFront_throw _).bind fun _ => ?_
      exact takesFront_variant.bind fun _ => takesFront_pure _
    · exact takesFront_variant.bind fun _ => takesFront_pure _

/-! ## The windows of a list body -/

/-- What a call answers where the windows stop: that the body has ended, or what is wrong there. -/
def stopped {α : Type} : Option Error → Except Error (Option α)
  | none => .ok none
  | some e => .error e

/-- A body cut into windows: each holds one item, and they go on up to the end of the body or to the
first place where no item can be passed over. -/
structure Partition (body : Bytes) (windows : List Bytes) (failure : Option Error) (rest : Bytes) :
    Prop where
  cut : body = windows.flatten ++ rest
  item : ∀ w ∈ windows, w ≠ [] ∧ ∀ behind, skip.on (w ++ behind) = (.ok (), behind)
  stop : match failure with
    | none => rest = []
    | some e => rest ≠ [] ∧ skip.eval rest = .error e

/-- A list body ends, or an item stands at its front, or nothing is taken from it. -/
theorem nextItem_cases (bs : Bytes) :
    (bs = [] ∧ nextItem.on bs = (.ok none, bs)) ∨
      (∃ window rest, Delimited window ∧ bs = window ++ rest ∧
        nextItem.on bs = (.ok (some window), rest)) ∨
      ∃ e, bs ≠ [] ∧ skip.eval bs = .error e ∧ nextItem.on bs = (.error e, bs) := by
  rcases List.eq_nil_or_concat bs with rfl | hne
  · exact .inl ⟨rfl, rfl⟩
  have hne : bs ≠ [] := by
    obtain ⟨front, last, rfl⟩ := hne
    simp
  rcases hskip : skip.on bs with ⟨e | u, rest⟩
  · refine .inr (.inr ⟨e, hne, congrArg Prod.fst hskip, ?_⟩)
    rw [nextItem, on_bind_of_on (on_get_eq_ok_iff.2 ⟨rfl, rfl⟩), if_neg (by simpa using hne), hskip]
    rfl
  · obtain ⟨window, hwindow, rfl⟩ := skip_eq_ok_iff.1 hskip
    exact .inr (.inl ⟨window, rest, hwindow, rfl, nextItem_eq_some_iff.2 ⟨hwindow, rfl⟩⟩)

/-- Draining a body cuts it, and the calls that drain it are answered with the windows, and then
alike for ever. -/
theorem exists_partition {fuel : Nat} {body : Bytes} (hfuel : body.length < fuel) :
    ∃ windows failure rest, drain nextItem fuel body = (windows, failure) ∧
      Partition body windows failure rest ∧
      ∀ n, nextItem.times (windows.length + n) body =
        (windows.map (fun w => .ok (some w)) ++ List.replicate n (stopped failure), rest) := by
  induction fuel generalizing body with
  | zero => exact absurd hfuel (Nat.not_lt_zero _)
  | succ fuel ih =>
    rcases nextItem_cases body with ⟨hnil, hnext⟩ | ⟨window, rest, hwindow, rfl, hnext⟩ |
      ⟨e, hne, hskip, hnext⟩
    · refine ⟨[], none, body, ?_, ⟨rfl, nofun, hnil⟩, fun n => ?_⟩
      · rw [drain, hnext]
      · rw [List.length_nil, Nat.zero_add]
        exact times_of_still hnext n
    · have hpos := List.length_pos_iff.2 hwindow.ne_nil
      rw [List.length_append] at hfuel
      obtain ⟨windows, failure, last, hdrain, hpartition, htimes⟩ := @ih rest (by omega)
      refine ⟨window :: windows, failure, last, ?_, ⟨?_, ?_, hpartition.stop⟩, fun n => ?_⟩
      · rw [drain, hnext]
        dsimp only
        rw [hdrain]
      · rw [List.flatten_cons, List.append_assoc, ← hpartition.cut]
      · refine List.forall_mem_cons.2 ⟨⟨hwindow.ne_nil, fun behind => ?_⟩, hpartition.item⟩
        exact skip_eq_ok_iff.2 ⟨window, hwindow, rfl⟩
      · rw [List.length_cons, Nat.add_right_comm, times_succ_of_on hnext, htimes]
        rfl
    · refine ⟨[], some e, body, ?_, ⟨rfl, nofun, hne, hskip⟩, fun n => ?_⟩
      · rw [drain, hnext]
      · rw [List.length_nil, Nat.zero_add]
        exact times_of_still hnext n

/-! ## The entries of a map body -/

/-- The item of an entry: a variant with the name and the value in its body. -/
def entryBytes (entry : String × Bytes) : Bytes :=
  Item.framed .variant (Item.framed .string (Bytes.ofText entry.1) ++ entry.2)

/-- The entries of a map body that is drained to its end are the items of the body. -/
theorem items_of_entries {body : Bytes} {found : List (String × Bytes)}
    (h : entries body = (found, none)) : items body = (found.map entryBytes, none) := by
  obtain ⟨hfits, rfl⟩ := entries_eq_iff.1 h
  refine items_eq_iff.2 ⟨?_, ?_⟩
  · rw [List.forall_mem_map]
    exact fun entry hentry => .framed rfl (hfits entry hentry)
  · rw [List.flatMap_def]
    rfl

/-- The calls that drain a map body to its end are answered with its entries, and then always with
the end. -/
theorem times_of_entries {body : Bytes} {found : List (String × Bytes)}
    (h : entries body = (found, none)) (n : Nat) :
    nextEntry.times (found.length + n) body =
      (found.map (fun entry => .ok (some entry)) ++ List.replicate n (.ok none), []) := by
  obtain ⟨hfits, rfl⟩ := entries_eq_iff.1 h
  clear h
  induction found with
  | nil =>
    rw [List.length_nil, Nat.zero_add]
    exact times_of_still (nextEntry_eq_none_iff.2 ⟨rfl, rfl⟩) n
  | cons entry found ih =>
    obtain ⟨hentry, hfound⟩ := List.forall_mem_cons.1 hfits
    have hnext := nextEntry_eq_some_iff.2
      ⟨hentry, (rfl : _ = _ ++ found.flatMap fun e => Item.variantBytes e.1 e.2)⟩
    rw [List.flatMap_cons, List.length_cons, Nat.add_right_comm, times_succ_of_on hnext, ih hfound]
    rfl

/-- Nothing is taken from a map body where a tag other than that of a variant stands, or no tag. -/
theorem nextEntry_of_other {b : UInt8} {behind : Bytes} (h : Tag.ofCode? b ≠ some .variant) :
    nextEntry.on (b :: behind) =
      (.error ((Tag.ofCode? b).elim (.invalidTag b) (.unexpectedTag .variant)), b :: behind) := by
  rw [nextEntry, on_bind_of_on (on_get_eq_ok_iff.2 ⟨rfl, rfl⟩), if_neg (by simp)]
  cases htag : Tag.ofCode? b with
  | none =>
    apply on_bind_of_error
    rw [Read.on, peek, htag]
    rfl
  | some tag =>
    obtain rfl := Tag.code_of_ofCode? htag
    rw [on_bind_of_on (peek_cons tag behind)]
    apply on_guard_of_pos
    rintro rfl
    exact h htag

/-- Whether what a call hands out, if it hands out an entry, is the whole of the bytes it takes. -/
def HandsOut (answer : Except Error (Option (String × Bytes))) (taken : Bytes) : Prop :=
  ∀ entry, answer = .ok (some entry) → taken = entryBytes entry

/-- However often a map body is asked for its next entry, and whatever it answers: the bytes that
the calls take follow each other in the body, and no call hands out others. -/
theorem handsOut_times (n : Nat) (body : Bytes) :
    ∃ taken : List Bytes, body = taken.flatten ++ (nextEntry.times n body).2 ∧
      List.Forall₂ HandsOut (nextEntry.times n body).1 taken := by
  induction n generalizing body with
  | zero => exact ⟨[], rfl, .nil⟩
  | succ n ih =>
    rcases hnext : nextEntry.on body with ⟨answer, mid⟩
    obtain ⟨first, hfirst⟩ := takesFront_nextEntry body
    rw [hnext] at hfirst
    obtain ⟨taken, hcut, hhands⟩ := ih mid
    rw [times_succ_of_on hnext]
    refine ⟨first :: taken, ?_, .cons ?_ hhands⟩
    · rw [List.flatten_cons, List.append_assoc, ← hcut]
      exact hfirst.symm
    · rintro ⟨name, value⟩ rfl
      obtain ⟨-, hbody⟩ := nextEntry_eq_some_iff.1 hnext
      rw [← hfirst] at hbody
      exact List.append_cancel_right hbody

/-- Bodies are cut into windows. Those of a list body hold one item each and cut it up to its end, or
to the first place where no item can be passed over; every call behind them is answered alike and
takes nothing. The entries of a map body that is drained to its end are its items, each a variant of
that name and value; where something else than a variant stands nothing is taken; and no entry lies
outside the bytes that its call takes off the body, whatever the calls before it have answered. -/
theorem windows_partition (body : Bytes) :
    (∃ windows failure rest, items body = (windows, failure) ∧
        Partition body windows failure rest ∧
        ∀ n, nextItem.times (windows.length + n) body =
          (windows.map (fun w => .ok (some w)) ++ List.replicate n (stopped failure), rest)) ∧
      (∀ found, entries body = (found, none) → items body = (found.map entryBytes, none) ∧
        ∀ n, nextEntry.times (found.length + n) body =
          (found.map (fun entry => .ok (some entry)) ++ List.replicate n (.ok none), [])) ∧
      (∀ b behind, body = b :: behind → Tag.ofCode? b ≠ some .variant →
        nextEntry.on body =
          (.error ((Tag.ofCode? b).elim (.invalidTag b) (.unexpectedTag .variant)), body)) ∧
      ∀ n, ∃ taken : List Bytes, body = taken.flatten ++ (nextEntry.times n body).2 ∧
        List.Forall₂ HandsOut (nextEntry.times n body).1 taken := by
  refine ⟨exists_partition (Nat.lt_succ_self _), ?_, ?_, ?_⟩
  · exact fun found h => ⟨items_of_entries h, times_of_entries h⟩
  · rintro b behind rfl hother
    exact nextEntry_of_other hother
  · exact fun n => handsOut_times n body

/-- A list body of two items that stops in front of a text longer than its bytes, a map body of two
entries, and one that begins with no tag. -/
theorem windows_partition_of_entries :
    let cut : Bytes := [0x10, 9, 0, 0, 0, 0x61]
    let windows : List Bytes := [[0x00], [0x10, 1, 0, 0, 0, 0x61]]
    let found : List (String × Bytes) := [("b", [0x00]), ("a", [0x01])]
    let map : Bytes := found.flatMap fun entry => Item.variantBytes entry.1 entry.2
    let garbage : Bytes := [0xee, 0x31]
    (items (windows.flatten ++ cut) = (windows, some .unexpectedEnd) ∧
        nextItem.times 4 (windows.flatten ++ cut) =
          (windows.map (fun w => .ok (some w)) ++ [.error .unexpectedEnd, .error .unexpectedEnd],
            cut)) ∧
      (entries map = (found, none) ∧ items map = (found.map entryBytes, none) ∧
        nextEntry.times 3 map = (found.map (fun entry => .ok (some entry)) ++ [.ok none], [])) ∧
      nextEntry.on garbage = (.error (.invalidTag 0xee), garbage) := by
  intro cut windows found map garbage
  have hitems : items (windows.flatten ++ cut) = (windows, some .unexpectedEnd) := by decide +kernel
  have hentries : entries map = (found, none) := entries_eq_iff.2 ⟨by decide, rfl⟩
  obtain ⟨windows', failure, rest, hitems', hpartition, htimes⟩ :=
    (windows_partition (windows.flatten ++ cut)).1
  rw [hitems] at hitems'
  cases hitems'
  obtain rfl : cut = rest := List.append_cancel_left hpartition.cut
  obtain ⟨hmap, hnext⟩ := (windows_partition map).2.1 _ hentries
  exact ⟨⟨hitems, htimes 2⟩, ⟨hentries, hmap, hnext 1⟩,
    (windows_partition garbage).2.2.1 0xee [0x31] rfl (by decide)⟩

end Cursor

end Resumable.Wire
