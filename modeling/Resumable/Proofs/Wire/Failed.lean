import Mathlib.Algebra.GroupWithZero.Nat
import Resumable.Proofs.Wire.Skip

/-!
# Failed reads

A read looks at the tag before it takes anything, and then takes the parts behind the tag one by
one: a length, for instance, and then as many bytes. Where no tag of its own stands it fails and
takes nothing. Behind a tag of its own it takes every part that is whole, also when it fails, for
want of the next part or for what is in them (`Attempt.left_of_tag`). So a failed read keeps the
unread bytes exactly where it has not met its tag, and there another read can be tried in its place
(`Attempt.failed_keeps_iff`); `Attempt.Fails` says with which error it fails.
-/

namespace Resumable.Wire

open Read

/-! ## Parts -/

/-- What stands behind those of the parts, one after the other, that are whole. -/
def behindWhole : (widths : List Nat) → Bytes → Bytes
  | [], bs => bs
  | width :: widths, bs =>
    if width ≤ bs.length then behindWhole widths (bs.drop width) else bs

theorem behindWhole_of_lt {width : Nat} {widths : List Nat} {bs : Bytes} (h : bs.length < width) :
    behindWhole (width :: widths) bs = bs :=
  if_neg (Nat.not_le_of_lt h)

theorem behindWhole_of_le {width : Nat} {widths : List Nat} {bs : Bytes} (h : width ≤ bs.length) :
    behindWhole (width :: widths) bs = behindWhole widths (bs.drop width) :=
  if_pos h

/-- Parts that are all whole leave what stands behind them. -/
theorem behindWhole_of_sum_le {widths : List Nat} {bs : Bytes} (h : widths.sum ≤ bs.length) :
    behindWhole widths bs = bs.drop widths.sum := by
  induction widths generalizing bs with
  | nil => rfl
  | cons width widths ih =>
    rw [List.sum_cons] at h ⊢
    rw [behindWhole_of_le (by omega), ih (by rw [List.length_drop]; omega), List.drop_drop]

theorem length_behindWhole_le (widths : List Nat) (bs : Bytes) :
    (behindWhole widths bs).length ≤ bs.length := by
  induction widths generalizing bs with
  | nil => exact Nat.le_refl _
  | cons width widths ih =>
    rcases Nat.lt_or_ge bs.length width with hlt | hle
    · exact Nat.le_of_eq (congrArg List.length (behindWhole_of_lt hlt))
    · rw [behindWhole_of_le hle]
      have hrest := ih (bs.drop width)
      rw [List.length_drop] at hrest
      omega

/-- The widths of the parts behind a tag. A length is a part of its own, and says how wide the part
behind it is. -/
def Tag.partWidths (tag : Tag) (behind : Bytes) : List Nat :=
  match tag.width? with
  | some width => [width]
  | none => [4, Bytes.number (behind.take 4)]

theorem Tag.partWidths_of_fixed {tag : Tag} {width : Nat} (h : tag.width? = some width)
    (behind : Bytes) : tag.partWidths behind = [width] := by
  rw [partWidths, h]

theorem Tag.partWidths_of_framed {tag : Tag} (h : tag.width? = none) (behind : Bytes) :
    tag.partWidths behind = [4, Bytes.number (behind.take 4)] := by
  rw [partWidths, h]

/-! ## Reads that need bytes -/

namespace Cursor

variable {bs : Bytes}

theorem take_of_lt {n : Nat} (h : bs.length < n) : (take n).on bs = (.error .unexpectedEnd, bs) :=
  if_neg (Nat.not_le_of_lt h)

theorem take_of_le {n : Nat} (h : n ≤ bs.length) : (take n).on bs = (.ok (bs.take n), bs.drop n) :=
  if_pos h

theorem number_of_le {width : Nat} (h : width ≤ bs.length) :
    (number width).on bs = (.ok (Bytes.number (bs.take width)), bs.drop width) := by
  rw [number, on_bind_of_on (take_of_le h)]
  rfl

/-- Why no tag is seen at the front. -/
inductive NoTag : Bytes → Error → Prop where
  | atEnd : NoTag [] .unexpectedEnd
  | otherByte {b : UInt8} {behind : Bytes} (h : Tag.ofCode? b = none) :
    NoTag (b :: behind) (.invalidTag b)

theorem noTag_or_exists_code (bs : Bytes) :
    (∃ e, NoTag bs e) ∨ ∃ (tag : Tag) (behind : Bytes), bs = tag.code :: behind := by
  cases bs with
  | nil => exact .inl ⟨_, .atEnd⟩
  | cons b behind =>
    cases htag : Tag.ofCode? b with
    | none => exact .inl ⟨_, .otherByte htag⟩
    | some tag => exact .inr ⟨tag, behind, by rw [Tag.code_of_ofCode? htag]⟩

theorem peek_of_noTag {e : Error} (h : NoTag bs e) : peek.on bs = (.error e, bs) := by
  cases h with
  | atEnd => rfl
  | otherByte htag =>
    rw [Read.on, peek, htag]

end Cursor

namespace Read

open Cursor

variable {α β : Type} {widths : Bytes → List Nat}

/-- Whether a read needs parts of these widths: where they are not all there it fails for want of
bytes, and has taken those that are whole. -/
def Needs (op : Read α) (widths : Bytes → List Nat) : Prop :=
  ∀ bs, bs.length < (widths bs).sum →
    op.on bs = (.error .unexpectedEnd, behindWhole (widths bs) bs)

theorem Needs.bind {x : Read α} {f : α → Read β} (h : x.Needs widths) : (x >>= f).Needs widths :=
  fun bs hlt => on_bind_of_error (h bs hlt)

theorem needs_take (n : Nat) : (take n).Needs fun _ => [n] := by
  intro bs hlt
  rw [List.sum_singleton] at hlt
  rw [take_of_lt hlt, behindWhole_of_lt hlt]

theorem needs_number (width : Nat) : (number width).Needs fun _ => [width] :=
  (needs_take width).bind

/-- A number is a part, and may say how wide the next ones are. -/
theorem needs_number_bind {width : Nat} {f : Nat → Read β} {widths : Nat → List Nat}
    (h : ∀ n, (f n).Needs fun _ => widths n) :
    (number width >>= f).Needs fun bs => width :: widths (Bytes.number (bs.take width)) := by
  intro bs hlt
  rw [List.sum_cons] at hlt
  rcases Nat.lt_or_ge bs.length width with hshort | hle
  · -- the number itself is not whole
    rw [behindWhole_of_lt hshort, on_bind_of_error (needs_number width bs ?_)]
    · rw [behindWhole_of_lt hshort]
    · rwa [List.sum_singleton]
  · rw [behindWhole_of_le hle, on_bind_of_on (number_of_le hle)]
    refine h _ _ ?_
    show (bs.drop width).length < (widths _).sum
    rw [List.length_drop]
    omega

theorem needs_sized : sized.Needs fun bs => [4, Bytes.number (bs.take 4)] :=
  needs_number_bind needs_take

/-- Two numbers, each of which is taken by itself. -/
theorem needs_numbers {f : Nat → Nat → Read β} {first second : Nat} :
    (number first >>= fun n => number second >>= f n).Needs fun _ => [first, second] :=
  needs_number_bind fun _ => (needs_number second).bind

/-- A read that looks at the tag first: where there is none, or another one, it takes nothing. -/
structure Checks (op : Read α) (tags : List Tag) (wanted : Tag) : Prop where
  noTag : ∀ {bs e}, NoTag bs e → op.on bs = (.error e, bs)
  otherTag : ∀ {found behind}, found ∉ tags →
    op.on (found.code :: behind) = (.error (.unexpectedTag wanted found), found.code :: behind)

theorem Checks.bind {x : Read α} {f : α → Read β} {tags : List Tag} {wanted : Tag}
    (h : x.Checks tags wanted) : (x >>= f).Checks tags wanted where
  noTag hbs := on_bind_of_error (h.noTag hbs)
  otherTag hfound := on_bind_of_error (h.otherTag hfound)

theorem checks_expect (tag : Tag) : (expect tag).Checks [tag] tag where
  noTag hbs := on_bind_of_error (peek_of_noTag hbs)
  otherTag {found behind} hfound := by
    rw [expect, on_bind_of_on (peek_cons found behind)]
    exact on_guard_of_pos (mt List.mem_singleton.2 hfound)

theorem checks_bool : Cursor.bool.Checks [.boolTrue, .boolFalse] .boolTrue where
  noTag hbs := on_bind_of_error (peek_of_noTag hbs)
  otherTag {found behind} hfound := by
    rw [Cursor.bool, on_bind_of_on (peek_cons found behind)]
    cases found with
    | boolTrue | boolFalse => exact absurd (by decide) hfound
    | _ => rfl

theorem checks_option : Cursor.option.Checks [.optionNone, .optionSome] .optionSome where
  noTag hbs := on_bind_of_error (peek_of_noTag hbs)
  otherTag {found behind} hfound := by
    rw [Cursor.option, on_bind_of_on (peek_cons found behind)]
    cases found with
    | optionNone | optionSome => exact absurd (by decide) hfound
    | _ => rfl

end Read

/-! ## Attempts -/

namespace TypedRead

/-- The tag that a read names as the one it wanted. -/
def wanted : TypedRead → Tag
  | null => .null
  | bool => .boolTrue
  | u64 => .u64
  | s64 => .s64
  | f64 => .f64
  | timestamp => .timestamp
  | duration => .duration
  | optionNone => .optionNone
  | string => .string
  | bytes => .bytes
  | list => .list
  | map => .map
  | option => .optionSome
  | variant => .variant

theorem checks_read (r : TypedRead) : r.read.Checks r.tags r.wanted := by
  cases r with
  | null | optionNone => exact checks_expect _
  | bool => exact checks_bool
  | option => exact checks_option
  | variant => exact (checks_expect _).bind.bind
  | _ => exact (checks_expect _).bind

end TypedRead

/-- What is asked of a cursor at an item: to pass over it, or to read it. -/
inductive Attempt where
  | skip
  | read (r : TypedRead)
  deriving DecidableEq, Repr

namespace Attempt

/-- What an attempt answers. -/
def Answer : Attempt → Type
  | skip => Unit
  | read r => r.Answer

/-- The attempt itself. -/
def run : (a : Attempt) → Read a.Answer
  | skip => Cursor.skip
  | read r => r.read

/-- The tags of the items that an attempt is for. -/
def tags : Attempt → List Tag
  | skip => Tag.all
  | read r => r.tags

/-- The widths of the parts that an attempt takes one by one behind a tag. The two numbers of a time
are read apart and passed over together. -/
def widths : Attempt → Tag → Bytes → List Nat
  | read .timestamp, _, _ | read .duration, _, _ => [8, 4]
  | _, tag, behind => tag.partWidths behind

/-- Whether a tag that the attempt is for stands at the front. -/
def Meets (a : Attempt) (bs : Bytes) : Prop := ∃ tag ∈ a.tags, ∃ behind, bs = tag.code :: behind

/-- How an attempt fails on some bytes, with the error and with what it leaves unread: there is no
tag, or one that it is not for, or its parts are not all there, or they are and it refuses what is
in them. -/
inductive Fails : Attempt → Bytes → Error → Bytes → Prop where
  | noTag {a : Attempt} {bs : Bytes} {e : Error} (h : Cursor.NoTag bs e) : Fails a bs e bs
  | otherTag {r : TypedRead} {found : Tag} {behind : Bytes} (h : found ∉ r.tags) :
    Fails (read r) (found.code :: behind) (.unexpectedTag r.wanted found) (found.code :: behind)
  | short {a : Attempt} {tag : Tag} {behind : Bytes} (htag : tag ∈ a.tags)
    (h : behind.length < (a.widths tag behind).sum) :
    Fails a (tag.code :: behind) .unexpectedEnd (behindWhole (a.widths tag behind) behind)
  | malformed {r : TypedRead} {item rest : Bytes} {e : Error} (hitem : Delimited item)
    (h : r.Malformed item e) : Fails (read r) (item ++ rest) e rest

variable {a : Attempt} {tag : Tag} {bs behind data rest : Bytes} {e : Error}

/-- The parts behind a tag are as long together for every attempt that takes them. -/
theorem sum_widths (htag : tag ∈ a.tags) (behind : Bytes) :
    (a.widths tag behind).sum = (tag.partWidths behind).sum := by
  cases a with
  | skip => rfl
  | read r =>
    cases r with
    | timestamp | duration =>
      obtain rfl := List.mem_singleton.1 htag
      rfl
    | _ => rfl

/-! ### Where no tag of its own stands -/

theorem run_of_noTag (a : Attempt) (h : Cursor.NoTag bs e) : a.run.on bs = (.error e, bs) := by
  cases a with
  | skip => exact on_bind_of_error (Cursor.peek_of_noTag h)
  | read r => exact r.checks_read.noTag h

theorem meets_code : a.Meets (tag.code :: behind) ↔ tag ∈ a.tags := by
  constructor
  · rintro ⟨found, hfound, behind', hbs⟩
    rw [Tag.code_inj (List.cons.inj hbs).1]
    exact hfound
  · exact fun htag => ⟨tag, htag, behind, rfl⟩

/-- Only a read is for some tags and not for others. -/
theorem exists_read_of_not_mem (h : tag ∉ a.tags) : ∃ r, a = read r ∧ tag ∉ r.tags := by
  cases a with
  | skip => exact absurd (by cases tag <;> decide) h
  | read r => exact ⟨r, rfl, h⟩

/-- An attempt fails and takes nothing where no tag of its own stands. -/
theorem run_of_not_meets (h : ¬a.Meets bs) : ∃ e, a.run.on bs = (.error e, bs) := by
  rcases Cursor.noTag_or_exists_code bs with ⟨e, hnone⟩ | ⟨tag, behind, rfl⟩
  · exact ⟨e, a.run_of_noTag hnone⟩
  · obtain ⟨r, rfl, htag⟩ := exists_read_of_not_mem (mt meets_code.2 h)
    exact ⟨_, r.checks_read.otherTag htag⟩

/-! ### Behind a tag of its own -/

theorem body_of_short (h : behind.length < [4, Bytes.number (behind.take 4)].sum) :
    (Cursor.body tag).on (tag.code :: behind) =
      (.error .unexpectedEnd, behindWhole [4, Bytes.number (behind.take 4)] behind) := by
  rw [Cursor.body, on_bind_of_on (Cursor.expect_cons tag behind)]
  exact needs_sized behind h

/-- Where the parts are not all there, those that are whole are taken. -/
theorem run_of_short (htag : tag ∈ a.tags) (h : behind.length < (a.widths tag behind).sum) :
    a.run.on (tag.code :: behind) =
      (.error .unexpectedEnd, behindWhole (a.widths tag behind) behind) := by
  cases a with
  | skip =>
    -- the tag is taken before its width is looked up
    have hone : (discard (Cursor.take 1) : Read Unit).on (tag.code :: behind) = (.ok (), behind) :=
      Cursor.discard_take_one_eq_ok_iff.2 rfl
    change behind.length < (tag.partWidths behind).sum at h
    change Cursor.skip.on _ = (_, behindWhole (tag.partWidths behind) behind)
    rw [Cursor.skip, on_bind_of_on (Cursor.peek_cons tag behind), on_bind_of_on hone]
    cases hwidth : tag.width? with
    | some width =>
      rw [Tag.partWidths_of_fixed hwidth] at h ⊢
      exact (needs_take width).bind behind h
    | none =>
      rw [Tag.partWidths_of_framed hwidth] at h ⊢
      exact needs_sized.bind behind h
  | read r =>
    cases r with
    -- an item that is its tag is never short
    | null | optionNone =>
      obtain rfl := List.mem_singleton.1 htag
      exact absurd h (Nat.not_lt_zero _)
    | bool =>
      rcases List.mem_cons.1 htag with rfl | htag
      · exact absurd h (Nat.not_lt_zero _)
      · obtain rfl := List.mem_singleton.1 htag
        exact absurd h (Nat.not_lt_zero _)
    | u64 | s64 | f64 =>
      obtain rfl := List.mem_singleton.1 htag
      refine (on_bind_of_on (Cursor.expect_cons _ behind)).trans ?_
      exact (needs_number 8).bind behind h
    | timestamp | duration =>
      obtain rfl := List.mem_singleton.1 htag
      refine (on_bind_of_on (Cursor.expect_cons _ behind)).trans ?_
      exact needs_numbers behind h
    | string =>
      obtain rfl := List.mem_singleton.1 htag
      refine (on_bind_of_on (Cursor.expect_cons _ behind)).trans ?_
      exact needs_sized.bind behind h
    | bytes | list | map =>
      obtain rfl := List.mem_singleton.1 htag
      exact body_of_short h
    | option =>
      rcases List.mem_cons.1 htag with rfl | htag
      · exact absurd h (Nat.not_lt_zero _)
      · obtain rfl := List.mem_singleton.1 htag
        refine (on_bind_of_on (Cursor.peek_cons _ behind)).trans ?_
        exact on_bind_of_error (body_of_short h)
    | variant =>
      obtain rfl := List.mem_singleton.1 htag
      exact on_bind_of_error (body_of_short h)

/-- Parts that are all there are the data of an item. -/
theorem exists_item_of_whole (htag : tag ∈ a.tags)
    (h : (a.widths tag behind).sum ≤ behind.length) :
    ∃ data, Delimited (tag.code :: data) ∧
      behind = data ++ behindWhole (a.widths tag behind) behind := by
  rw [behindWhole_of_sum_le h]
  rw [sum_widths htag] at h ⊢
  cases hwidth : tag.width? with
  | some width =>
    rw [Tag.partWidths_of_fixed hwidth, List.sum_singleton] at h ⊢
    refine ⟨behind.take width, .fixed ?_, (List.take_append_drop width behind).symm⟩
    rw [hwidth, List.length_take_of_le h]
  | none =>
    rw [Tag.partWidths_of_framed hwidth, List.sum_cons, List.sum_singleton] at h ⊢
    have hbody : Bytes.number (behind.take 4) ≤ (behind.drop 4).length := by
      rw [List.length_drop]
      omega
    -- the length and the body can be read, so that they are written as a length and a body are
    have hsized := (on_bind_of_on (Cursor.number_of_le (by omega))).trans (Cursor.take_of_le hbody)
    obtain ⟨hfits, hbs⟩ := Cursor.sized_eq_ok_iff.1 hsized
    refine ⟨_, .framed hwidth hfits, ?_⟩
    rw [← List.drop_drop]
    exact hbs.trans (List.append_assoc _ _ _).symm

/-- An item is passed over, or read, or refused as malformed, and is taken whole. -/
theorem run_of_item (htag : tag ∈ a.tags) (hitem : Delimited (tag.code :: data)) (rest : Bytes) :
    (∃ answer, a.run.on (tag.code :: data ++ rest) = (.ok answer, rest)) ∨
      ∃ r e, a = read r ∧ r.Malformed (tag.code :: data) e ∧
        a.run.on (tag.code :: data ++ rest) = (.error e, rest) := by
  cases a with
  | skip => exact .inl ⟨(), Cursor.skip_eq_ok_iff.2 ⟨_, hitem, rfl⟩⟩
  | read r =>
    rcases TypedRead.takes_of_mem_tags htag hitem rest with hok | ⟨e, hmalformed, herror⟩
    · exact .inl hok
    · exact .inr ⟨r, e, rfl, hmalformed, herror⟩

/-- Behind a tag of its own an attempt takes the parts that are whole, whatever it answers. -/
theorem left_of_tag (htag : tag ∈ a.tags) (behind : Bytes) :
    (a.run.on (tag.code :: behind)).2 = behindWhole (a.widths tag behind) behind := by
  rcases Nat.lt_or_ge behind.length (a.widths tag behind).sum with hshort | hwhole
  · rw [run_of_short htag hshort]
  · obtain ⟨data, hitem, hbehind⟩ := exists_item_of_whole htag hwhole
    generalize behindWhole (a.widths tag behind) behind = rest at hbehind
    subst hbehind
    rcases run_of_item htag hitem rest with ⟨answer, hok⟩ | ⟨r, e, -, -, herror⟩
    · exact congrArg Prod.snd hok
    · exact congrArg Prod.snd herror

/-! ### All failures -/

theorem Fails.run_eq (h : a.Fails bs e rest) : a.run.on bs = (.error e, rest) := by
  cases h with
  | noTag h => exact a.run_of_noTag h
  | @otherTag r found behind h => exact r.checks_read.otherTag h
  | short htag h => exact run_of_short htag h
  | malformed hitem h => exact TypedRead.on_of_malformed hitem h rest

theorem fails_of_run (h : a.run.on bs = (.error e, rest)) : a.Fails bs e rest := by
  rcases Cursor.noTag_or_exists_code bs with ⟨e', hnone⟩ | ⟨tag, behind, rfl⟩
  · rw [a.run_of_noTag hnone] at h
    cases h
    exact .noTag hnone
  by_cases htag : tag ∈ a.tags
  · rcases Nat.lt_or_ge behind.length (a.widths tag behind).sum with hshort | hwhole
    · rw [run_of_short htag hshort] at h
      cases h
      exact .short htag hshort
    · obtain ⟨data, hitem, hbehind⟩ := exists_item_of_whole htag hwhole
      rw [← left_of_tag htag behind, h] at hbehind
      subst hbehind
      rcases run_of_item htag hitem rest with ⟨answer, hok⟩ | ⟨r, e', rfl, hmalformed, herror⟩
      · cases h.symm.trans hok
      · cases h.symm.trans herror
        exact .malformed hitem hmalformed
  · obtain ⟨r, rfl, hother⟩ := exists_read_of_not_mem htag
    cases h.symm.trans (r.checks_read.otherTag hother)
    exact .otherTag hother

theorem run_eq_error_iff : a.run.on bs = (.error e, rest) ↔ a.Fails bs e rest :=
  ⟨fails_of_run, Fails.run_eq⟩

/-- A failed attempt keeps the unread bytes iff no tag of its own stands at their front. -/
theorem kept_iff_not_meets (h : a.run.on bs = (.error e, rest)) : rest = bs ↔ ¬a.Meets bs := by
  constructor
  · -- behind a tag there is less than with it
    rintro rfl ⟨tag, htag, behind, rfl⟩
    have hleft := left_of_tag htag behind
    rw [h] at hleft
    have hle := length_behindWhole_le (a.widths tag behind) behind
    rw [← hleft, List.length_cons] at hle
    omega
  · intro hmeets
    obtain ⟨e', hkept⟩ := run_of_not_meets hmeets
    cases h.symm.trans hkept
    rfl

/-- What is unread after some attempts, one after the other, whatever they have answered. -/
def unreadAfter (before : List Attempt) (bs : Bytes) : Bytes :=
  before.foldl (fun bs b => (b.run.on bs).2) bs

/-- Attempts that do not meet their tags leave everything to the one after them. -/
theorem unreadAfter_of_not_meets {before : List Attempt} (h : ∀ b ∈ before, ¬b.Meets bs) :
    unreadAfter before bs = bs := by
  induction before with
  | nil => rfl
  | cons b before ih =>
    obtain ⟨hb, hbefore⟩ := List.forall_mem_cons.1 h
    obtain ⟨e, hkept⟩ := run_of_not_meets hb
    rw [unreadAfter, List.foldl_cons, hkept]
    exact ih hbefore

/-- Attempts fail in the ways of `Fails` and in no other. One that does not meet a tag of its own
always fails and takes nothing, so that the next is answered as if it were the first; and only such
a one keeps what was unread when it fails. Behind its tag an attempt leaves what stands behind the
parts that are whole, whether it fails or not. -/
theorem failed_keeps_iff (a : Attempt) (bs : Bytes) :
    (∀ e rest, a.run.on bs = (.error e, rest) ↔ a.Fails bs e rest) ∧
      (¬a.Meets bs → ∃ e, a.run.on bs = (.error e, bs)) ∧
      (∀ before, (∀ b ∈ before, ¬b.Meets bs) → a.run.on (unreadAfter before bs) = a.run.on bs) ∧
      (∀ e rest, a.run.on bs = (.error e, rest) → (rest = bs ↔ ¬a.Meets bs)) ∧
      ∀ tag ∈ a.tags, ∀ behind, bs = tag.code :: behind →
        (a.run.on bs).2 = behindWhole (a.widths tag behind) behind := by
  refine ⟨fun e rest => run_eq_error_iff, run_of_not_meets, ?_, ?_, ?_⟩
  · intro before h
    rw [unreadAfter_of_not_meets h]
  · exact fun e rest h => kept_iff_not_meets h
  · rintro tag htag behind rfl
    exact left_of_tag htag behind

/-- A signed number is kept by the read of an unsigned one and then read as if that had not been
tried. A time cut off in its second number is not kept: its first number is taken by the read, and
the tag alone by the skip. -/
theorem failed_keeps_iff_of_signed :
    let signed : Bytes := [0x04, 7, 0, 0, 0, 0, 0, 0, 0]
    let cutOff : Bytes := [0x06, 1, 0, 0, 0, 0, 0, 0, 0, 0xca, 0x9a]
    ((∃ e, (read .u64).run.on signed = (.error e, signed)) ∧
        (read .s64).run.on (unreadAfter [read .u64] signed) = (.ok (7 : Int64), [])) ∧
      ((read .timestamp).run.on cutOff = (.error .unexpectedEnd, [0xca, 0x9a]) ∧
        (read .timestamp).Meets cutOff) ∧
      (skip.run.on cutOff).2 = [1, 0, 0, 0, 0, 0, 0, 0, 0xca, 0x9a] := by
  intro signed cutOff
  have hother : ¬(read .u64).Meets (Tag.s64.code :: signed.tail) := mt meets_code.1 (by decide)
  have hothers : ∀ b ∈ [read .u64], ¬b.Meets signed := List.forall_mem_singleton.2 hother
  obtain ⟨-, hkept, -⟩ := failed_keeps_iff (read .u64) signed
  obtain ⟨-, -, hretry, -⟩ := failed_keeps_iff (read .s64) signed
  obtain ⟨hfails, -, -, hkeeps, -⟩ := failed_keeps_iff (read .timestamp) cutOff
  obtain ⟨-, -, -, -, hleft⟩ := failed_keeps_iff skip cutOff
  have hshort : (read .timestamp).run.on cutOff = (.error .unexpectedEnd, [0xca, 0x9a]) :=
    (hfails _ _).2 (@Fails.short _ .timestamp cutOff.tail (List.mem_singleton_self _) (by decide))
  refine ⟨⟨hkept hother, (hretry _ hothers).trans (by rfl)⟩, ⟨hshort, ?_⟩, ?_⟩
  · exact Classical.not_not.1 (mt (hkeeps _ _ hshort).2 (by decide))
  · exact hleft .timestamp (by decide) _ rfl

/-- A number of which there is only the tag loses the tag, and bytes that are no text are lost with
their tag and their length. -/
theorem failed_read_loses_tag :
    ((read .u64).run.on [0x03] = (.error .unexpectedEnd, []) ∧
        (read .string).run.on [0x10, 1, 0, 0, 0, 0xff] = (.error .invalidUtf8, [])) ∧
      ¬∀ (a : Attempt) (bs rest : Bytes) (e : Error),
        a.run.on bs = (.error e, rest) → rest = bs := by
  have hnumber : (read .u64).run.on [0x03] = (.error .unexpectedEnd, []) := by rfl
  refine ⟨⟨hnumber, by rfl⟩, fun hkept => ?_⟩
  exact absurd (hkept _ _ _ _ hnumber) (by decide)

end Attempt

end Resumable.Wire
