import Resumable.Proofs.Wire.Writing

/-!
# Runs of a writer

A run gives a writer any commands in any order, and goes on after those that fail. A command that
fails changes nothing, so the writer always holds a coherent draft (`run_coherent`): the root is at
the bottom of the stack, every open scope starts behind its own tag and the room for its length, and
what is finished is a row of items.
-/

namespace Resumable.Wire

open Write

/-- A call of one of the operations of a writer. -/
inductive Command where
  | null
  | bool (b : Bool)
  | u64 (n : UInt64)
  | s64 (n : Int64)
  | f64 (bits : UInt64)
  | timestamp (secs : Int64) (nanos : UInt32)
  | duration (secs : Int64) (nanos : Int32)
  | optionNone
  | string (s : String)
  | bytes (data : Bytes)
  | listBegin
  | listEnd
  | mapBegin
  | mapEnd
  | optionBegin
  | optionEnd
  | variantBegin (name : String)
  | variantEnd

namespace Command

/-- What a command does. -/
def write : Command → Write Unit
  | null => Writer.null
  | bool b => Writer.bool b
  | u64 n => Writer.u64 n
  | s64 n => Writer.s64 n
  | f64 bits => Writer.f64 bits
  | timestamp secs nanos => Writer.timestamp secs nanos
  | duration secs nanos => Writer.duration secs nanos
  | optionNone => Writer.optionNone
  | string s => Writer.string s
  | bytes data => Writer.bytesItem data
  | listBegin => Writer.listBegin
  | listEnd => Writer.listEnd
  | mapBegin => Writer.mapBegin
  | mapEnd => Writer.mapEnd
  | optionBegin => Writer.optionBegin
  | optionEnd => Writer.optionEnd
  | variantBegin name => Writer.variantBegin name
  | variantEnd => Writer.variantEnd

/-- Whether the name of a variant that is opened fits the four bytes of its length. -/
def NameFits : Command → Prop
  | variantBegin name => (Bytes.ofText name).length ≤ maxLength
  | _ => True

instance : DecidablePred NameFits := fun c =>
  match c with
  | variantBegin name => inferInstanceAs (Decidable ((Bytes.ofText name).length ≤ maxLength))
  | null | bool _ | u64 _ | s64 _ | f64 _ | timestamp _ _ | duration _ _ | optionNone | string _
  | bytes _ | listBegin | listEnd | mapBegin | mapEnd | optionBegin | optionEnd | variantEnd =>
    isTrue trivial

/-- The writer after all commands, those that fail among them. -/
def run : List Command → Writer → Writer
  | [], w => w
  | c :: rest, w => run rest (c.write.on w).2

/-- The commands of a run that do not fail. -/
def accepted : List Command → Writer → List Command
  | [], _ => []
  | c :: rest, w =>
    match c.write.on w with
    | (.ok (), w') => c :: accepted rest w'
    | (.error _, w') => accepted rest w'

/-- The commands as one operation, which fails with the first of them that does. -/
def writeAll : List Command → Write Unit
  | [] => pure ()
  | c :: rest => do
    c.write
    writeAll rest

end Command

/-! ## Failing -/

/-- Whether an operation that fails leaves the writer as it was. -/
def Write.Atomic (op : Write Unit) : Prop :=
  ∀ (w w' : Writer) (e : Error), op.on w = (.error e, w') → w' = w

theorem atomic_step (f : Writer → Except Error Writer) : Atomic (Write.step f) := by
  intro w w' e h
  rw [Write.on, Write.step] at h
  rcases hf : f w with e' | found
  · rw [hf] at h
    exact (Prod.mk.inj h).2.symm
  · rw [hf] at h
    cases h

theorem atomic_guard {c : Prop} [Decidable c] {e : Error} {k : Unit → Write Unit} {x : Write Unit}
    (hx : Atomic x) : Atomic (if c then throw e >>= k else x) := by
  intro w w' e' h
  split at h
  · exact (Prod.mk.inj h).2.symm
  · exact hx w w' e' h

/-- A variant whose name fits is opened in one go: its name is admitted once it is open. -/
theorem atomic_variantBegin {name : String} (hname : (Bytes.ofText name).length ≤ maxLength) :
    Atomic (Writer.variantBegin name) := by
  intro w w' e h
  rcases on_bind_eq_error_iff.1 h with hopen | ⟨u, mid, hopen, hrest⟩
  · exact atomic_step _ w w' e hopen
  · obtain ⟨-, rfl⟩ := Writer.openScope_eq_ok_iff.1 hopen
    have hblob : (Writer.blob .string (Bytes.ofText name)).on (w.opened .variant .variant) =
        (.ok (), _) := Writer.blob_eq_ok_iff.2 ⟨hname, rfl, rfl⟩
    -- the name is admitted and the count is reset, so nothing fails behind the opening
    rcases on_bind_eq_error_iff.1 hrest with hfail | ⟨v, mid, -, hreset⟩
    · rw [hblob] at hfail
      cases hfail
    · cases hreset

namespace Command

/-- A command that fails changes nothing. -/
theorem atomic {c : Command} (hname : c.NameFits) : Atomic c.write := by
  cases c with
  | timestamp secs nanos => exact atomic_guard (atomic_step _)
  | duration secs nanos => exact atomic_guard (atomic_step _)
  | variantBegin name => exact atomic_variantBegin hname
  | _ => exact atomic_step _

/-- A run ends where it would without the commands that fail, and none of the others fails then. -/
theorem writeAll_accepted {commands : List Command} (hnames : ∀ c ∈ commands, c.NameFits)
    (w : Writer) : (writeAll (accepted commands w)).on w = (.ok (), run commands w) := by
  induction commands generalizing w with
  | nil => rfl
  | cons c rest ih =>
    obtain ⟨hname, hrest⟩ := List.forall_mem_cons.1 hnames
    rcases hc : c.write.on w with ⟨e | u, w'⟩
    · obtain rfl := atomic hname w w' e hc
      have hrun : run (c :: rest) w' = run rest w' := by rw [run, hc]
      have haccepted : accepted (c :: rest) w' = accepted rest w' := by rw [accepted, hc]
      rw [hrun, haccepted]
      exact ih hrest w'
    · have hrun : run (c :: rest) w = run rest w' := by rw [run, hc]
      have haccepted : accepted (c :: rest) w = c :: accepted rest w' := by rw [accepted, hc]
      rw [hrun, haccepted]
      exact on_bind_eq_ok_iff.2 ⟨(), w', hc, ih hrest w'⟩

/-- Commands of which none fails, run one after the other. -/
theorem run_of_writeAll {commands : List Command} {w w' : Writer} {u : Unit}
    (h : (writeAll commands).on w = (.ok u, w')) : run commands w = w' := by
  induction commands generalizing w with
  | nil => exact (on_pure_eq_ok_iff.1 h).2
  | cons c rest ih =>
    obtain ⟨v, mid, hc, hrest⟩ := on_bind_eq_ok_iff.1 h
    rw [run, hc]
    exact ih hrest

/-! ## What a run keeps -/

variable {d : Draft} {w' : Writer} {u : Unit}

/-- Writing an item without nested ones keeps a draft coherent. -/
theorem coherent_item (item : Item) (hd : d.Coherent) (h : item.write.on d.toWriter = (.ok u, w')) :
    ∃ d' : Draft, d'.Coherent ∧ w' = d'.toWriter := by
  obtain ⟨hallows, hitem, rfl⟩ := (Item.writesSelf item d w' u).1 h
  exact ⟨d.add item, hd.add hallows hitem, rfl⟩

/-- Opening an empty container keeps a draft coherent. -/
theorem coherent_open (part : Part) (hbody : part.body = []) (hcontents : part.contents = [])
    (hd : d.Coherent)
    (h : (Writer.openScope part.tag part.scope).on d.toWriter = (.ok u, w')) :
    ∃ d' : Draft, d'.Coherent ∧ w' = d'.toWriter := by
  obtain ⟨hallows, rfl⟩ := (Draft.openScope_eq_ok_iff hbody hcontents).1 h
  refine ⟨d.inside part, ⟨hd, hallows, ?_⟩, rfl⟩
  rw [hcontents]
  exact List.forall_mem_nil _

/-- Closing a container keeps a draft coherent: its item can be written where it was opened. -/
theorem coherent_close {expected : Scope} (hd : d.Coherent)
    (h : (Writer.closeScope expected).on d.toWriter = (.ok u, w')) :
    ∃ d' : Draft, d'.Coherent ∧ w' = d'.toWriter := by
  cases d with
  | root items =>
    obtain ⟨parent, rest, hbelow, -⟩ := Writer.closeScope_eq_ok_iff.1 h
    cases hbelow
  | inside outer part =>
    obtain ⟨houter, hallows, hcontents⟩ := hd
    obtain ⟨-, hle, item, hitem, rfl⟩ := (Draft.closeScope_inside_eq_ok_iff hallows).1 h
    have hwritable := (Part.writable_iff_of_closed? hitem).2 ⟨hle, hcontents⟩
    rw [← (Part.toBytes_of_closed? hitem).2] at hallows
    exact ⟨outer.add item, houter.add hallows hwritable, rfl⟩

/-- A command that succeeds on a coherent draft leaves one. -/
theorem coherent_write {c : Command} (hd : d.Coherent) (h : c.write.on d.toWriter = (.ok u, w')) :
    ∃ d' : Draft, d'.Coherent ∧ w' = d'.toWriter := by
  cases c with
  | null => exact coherent_item .null hd h
  | bool b => exact coherent_item (.bool b) hd h
  | u64 n => exact coherent_item (.u64 n) hd h
  | s64 n => exact coherent_item (.s64 n) hd h
  | f64 bits => exact coherent_item (.f64 bits) hd h
  | timestamp secs nanos => exact coherent_item (.timestamp secs nanos) hd h
  | duration secs nanos => exact coherent_item (.duration secs nanos) hd h
  | optionNone => exact coherent_item .optionNone hd h
  | string s => exact coherent_item (.string s) hd h
  | bytes data => exact coherent_item (.bytes data) hd h
  | listBegin => exact coherent_open (.list []) rfl rfl hd h
  | mapBegin => exact coherent_open (.map []) rfl rfl hd h
  | optionBegin => exact coherent_open (.option none) rfl rfl hd h
  | variantBegin name =>
    obtain ⟨-, hallows, rfl⟩ := Draft.variantBegin_eq_ok_iff.1 h
    exact ⟨d.inside (.variant name none), ⟨hd, hallows, nofun⟩, rfl⟩
  | listEnd | mapEnd | optionEnd | variantEnd => exact coherent_close hd h

/-- Whatever the commands are, the writer holds a coherent draft after them. -/
theorem run_coherent {commands : List Command} (hnames : ∀ c ∈ commands, c.NameFits)
    (hd : d.Coherent) : ∃ d' : Draft, d'.Coherent ∧ run commands d.toWriter = d'.toWriter := by
  induction commands generalizing d with
  | nil => exact ⟨d, hd, rfl⟩
  | cons c rest ih =>
    obtain ⟨hname, hrest⟩ := List.forall_mem_cons.1 hnames
    rw [run]
    rcases hc : c.write.on d.toWriter with ⟨e | u, w'⟩
    · -- a command that fails keeps the writer, and with it the draft
      obtain rfl := atomic hname _ w' e hc
      exact ih hrest hd
    · obtain ⟨d', hd', rfl⟩ := coherent_write hd hc
      exact ih hrest hd'

end Command

/-! ## Where scopes start -/

/-- The tag in front of a scope's length; the root has neither. -/
def Scope.tag? : Scope → Option Tag
  | root => none
  | list => some .list
  | map => some .map
  | option => some .optionSome
  | variant => some .variant

/-- Whether a scope starts within the bytes, behind its own tag and four bytes left zero. -/
def OpenScope.Placed (s : OpenScope) (bytes : Bytes) : Prop :=
  ∃ tag before body, s.scope.tag? = some tag ∧ s.start = before.length + 5 ∧
    bytes = before ++ (tag.code :: lengthBytes 0 ++ body)

/-- How the scopes of a writer stand in its bytes. -/
structure Writer.Nested (w : Writer) : Prop where
  /-- The root is at the bottom of the stack, and every scope above it has its place. -/
  root_below : ∃ inner root, w.stack = inner ++ [root] ∧ root.scope = .root ∧ root.start = 0 ∧
    ∀ s ∈ inner, s.Placed w.bytes
  /-- No scope starts before the one around it has room for its length. -/
  apart : w.stack.Pairwise fun inner outer => outer.start + 5 ≤ inner.start

/-- Whether the second writer is the first one with its innermost scope closed: the four zero bytes
in front of the scope are the length of what is behind them, and nothing else is changed. -/
def Writer.Patches (w w' : Writer) : Prop :=
  ∃ tag before body parent rest, w.top.scope.tag? = some tag ∧ w.top.start = before.length + 5 ∧
    w.bytes = before ++ (tag.code :: lengthBytes 0 ++ body) ∧ w.below = parent :: rest ∧
    w' = ⟨before ++ (tag.code :: lengthBytes body.length ++ body), parent.counted, rest⟩

theorem OpenScope.Placed.append {s : OpenScope} {bytes : Bytes} (h : s.Placed bytes)
    (more : Bytes) : s.Placed (bytes ++ more) := by
  obtain ⟨tag, before, body, htag, hstart, rfl⟩ := h
  refine ⟨tag, before, body ++ more, htag, hstart, ?_⟩
  simp

theorem Part.tag?_scope (part : Part) : part.scope.tag? = some part.tag := by
  cases part with
  | _ => rfl

namespace Draft

/-- Every scope starts within the bytes. -/
theorem start_le {d : Draft} {s : OpenScope} (hs : s ∈ d.toWriter.stack) :
    s.start ≤ d.toWriter.bytes.length := by
  induction d with
  | root items =>
    obtain rfl := List.mem_singleton.1 hs
    exact Nat.zero_le _
  | inside outer part ih =>
    have hbytes : (inside outer part).toWriter.bytes.length =
        outer.toWriter.bytes.length + (5 + part.body.length) := by
      rw [toWriter, List.length_append]
      simp [lengthBytes]
      omega
    rw [hbytes]
    rcases List.mem_cons.1 hs with rfl | hs
    · show outer.toWriter.bytes.length + 5 ≤ _
      omega
    · exact Nat.le_trans (ih hs) (Nat.le_add_right _ _)

theorem nested (d : Draft) : d.toWriter.Nested := by
  induction d with
  | root items =>
    refine ⟨⟨[], ⟨0, .root, items.length⟩, rfl, rfl, rfl, nofun⟩, ?_⟩
    exact List.pairwise_singleton _ _
  | inside outer part ih =>
    obtain ⟨⟨inner, root, hstack, hroot, hstart, hplaced⟩, hapart⟩ := ih
    have hcons : (inside outer part).toWriter.stack =
        (inside outer part).toWriter.top :: outer.toWriter.stack := rfl
    refine ⟨⟨(inside outer part).toWriter.top :: inner, root, ?_, hroot, hstart, ?_⟩, ?_⟩
    · rw [hcons, hstack, List.cons_append]
    · -- the scopes around keep their places while bytes are added behind them
      intro s hs
      rcases List.mem_cons.1 hs with rfl | hs
      · exact ⟨part.tag, outer.toWriter.bytes, part.body, part.tag?_scope, rfl, rfl⟩
      · exact (hplaced s hs).append _
    · rw [hcons, List.pairwise_cons]
      refine ⟨?_, hapart⟩
      intro s hs
      exact Nat.add_le_add_right (start_le hs) 5

theorem patches_of_closeScope {d : Draft} {expected : Scope} {w' : Writer} {u : Unit}
    (h : (Writer.closeScope expected).on d.toWriter = (.ok u, w')) : d.toWriter.Patches w' := by
  obtain ⟨parent, rest, hbelow, -, -, -, rfl⟩ := Writer.closeScope_eq_ok_iff.1 h
  cases d with
  | root items => cases hbelow
  | inside outer part =>
    refine ⟨part.tag, outer.toWriter.bytes, part.body, parent, rest, part.tag?_scope, rfl, rfl,
      hbelow, ?_⟩
    rw [toWriter, patched_eq]
    rfl

theorem finish_eq_ok {d : Draft} {bs : Bytes} (hd : d.Coherent) (h : d.toWriter.finish = .ok bs) :
    ∃ items : List Item, (∀ item ∈ items, item.Writable) ∧ bs = Item.listBytes items := by
  cases d with
  | root items => exact ⟨items, hd, (Except.ok.inj h).symm⟩
  | inside outer part => cases h

end Draft

namespace Command

/-- What holds of every run of a writer, whatever the commands and however many of them fail. -/
theorem run_nested_items (commands : List Command) (hnames : ∀ c ∈ commands, c.NameFits) :
    -- a command that fails changes nothing, so a run ends as it does without those that fail
    (∀ c ∈ commands, Atomic c.write) ∧
    (writeAll (accepted commands .empty)).on .empty = (.ok (), run commands .empty) ∧
    run (accepted commands .empty) .empty = run commands .empty ∧
    -- scopes stand where their lengths will be put, and closing one puts its length there
    (run commands .empty).Nested ∧
    (∀ expected w', (Writer.closeScope expected).on (run commands .empty) = (.ok (), w') →
      (run commands .empty).Patches w') ∧
    -- what is finished is a row of whole items, and reading gives them back
    ∀ bs, (run commands .empty).finish = .ok bs → ∃ items : List Item,
      (∀ item ∈ items, item.Writable) ∧ bs = Item.listBytes items ∧
        Item.readAll bs = .ok items := by
  have hwriteAll := writeAll_accepted hnames .empty
  obtain ⟨d, hd, hrun⟩ := run_coherent (d := .root []) hnames (List.forall_mem_nil _)
  have hempty : (Draft.root []).toWriter = Writer.empty := rfl
  rw [hempty] at hrun
  refine ⟨fun c hc => atomic (hnames c hc), hwriteAll, run_of_writeAll hwriteAll, ?_⟩
  rw [hrun]
  refine ⟨d.nested, fun expected w' h => Draft.patches_of_closeScope h, ?_⟩
  intro bs h
  obtain ⟨items, hwritable, rfl⟩ := Draft.finish_eq_ok hd h
  exact ⟨items, hwritable, rfl, Item.readAll_eq_ok_iff.2 ⟨hwritable, rfl⟩⟩

/-- A null item in a map, a second item in an entry and the end of a list that is not open all fail,
and what is left is a map with one entry. -/
theorem run_nested_items_of_failing :
    let commands : List Command :=
      [mapBegin, null, variantBegin "a", bool true, bool false, listEnd, variantEnd, mapEnd]
    (∀ c ∈ commands, c.NameFits) ∧
      run (accepted commands .empty) .empty = run commands .empty ∧
      (accepted commands .empty).length = 5 ∧
      (run commands .empty).finish = .ok (Item.map [("a", .bool true)]).toBytes := by
  have hnames : ∀ c ∈ [mapBegin, null, variantBegin "a", bool true, bool false, listEnd, variantEnd,
      mapEnd], c.NameFits := by decide
  exact ⟨hnames, (run_nested_items _ hnames).2.2.1, by decide, rfl⟩

end Command

end Resumable.Wire
