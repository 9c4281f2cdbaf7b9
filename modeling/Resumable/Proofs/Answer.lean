/-!
# Answers that may be errors

What it takes for a sequence of steps that may fail to give an answer, with and without a state that
the steps change.
-/

namespace Resumable

variable {ε α β : Type}

/-- A sequence gives an answer as both of its steps do. -/
theorem bind_eq_ok_iff {x : Except ε α} {f : α → Except ε β} {b : β} :
    x >>= f = .ok b ↔ ∃ a, x = .ok a ∧ f a = .ok b := by
  cases x with
  | error e =>
    constructor
    · intro h
      cases h
    · rintro ⟨a, ha, -⟩
      cases ha
  | ok a =>
    constructor
    · intro h
      exact ⟨a, rfl, h⟩
    · rintro ⟨a', ha, h⟩
      obtain rfl := Except.ok.inj ha
      exact h

/-- A sequence fails with its first step or with its second. -/
theorem bind_eq_error_iff {x : Except ε α} {f : α → Except ε β} {e : ε} :
    x >>= f = .error e ↔ x = .error e ∨ ∃ a, x = .ok a ∧ f a = .error e := by
  cases x with
  | error e' =>
    constructor
    · intro h
      cases h
      exact .inl rfl
    · rintro (h | ⟨a, h, -⟩)
      · cases h
        rfl
      · cases h
  | ok a =>
    constructor
    · intro h
      exact .inr ⟨a, rfl, h⟩
    · rintro (h | ⟨a', h, hf⟩)
      · cases h
      · cases h
        exact hf

theorem pure_eq_ok_iff {a b : α} : (pure a : Except ε α) = .ok b ↔ a = b := by
  show Except.ok a = Except.ok b ↔ _
  rw [Except.ok.injEq]

/-- A step behind a check. -/
theorem guard_eq_ok_iff {c : Prop} [Decidable c] {e : ε} {k : Unit → Except ε α}
    {x : Except ε α} {b : α} :
    (if c then throw e >>= k else x) = .ok b ↔ ¬c ∧ x = .ok b := by
  split
  · rename_i hc
    constructor
    · intro h
      cases h
    · rintro ⟨hnot, -⟩
      exact absurd hc hnot
  · rename_i hc
    exact ⟨fun h => ⟨hc, h⟩, fun h => h.2⟩

/-- A step that only turns the answer of another into its own fails as that one does. -/
theorem bind_pure_eq_error_iff {x : Except ε α} {f : α → β} {e : ε} :
    (x >>= fun a => pure (f a)) = .error e ↔ x = .error e := by
  rw [bind_eq_error_iff]
  constructor
  · rintro (h | ⟨a, -, h⟩)
    · exact h
    · cases h
  · exact .inl

/-- An answer that is there unless a condition refuses it. -/
theorem refusal_eq_ok_iff {c : Prop} [Decidable c] {e : ε} {a b : α} :
    (if c then .error e else .ok a : Except ε α) = .ok b ↔ ¬c ∧ b = a := by
  split
  · rename_i hc
    exact ⟨nofun, fun h => absurd hc h.1⟩
  · rename_i hc
    rw [Except.ok.injEq, and_iff_right hc]
    exact eq_comm

theorem refusal_eq_error_iff {c : Prop} [Decidable c] {e e' : ε} {a : α} :
    (if c then .error e else .ok a : Except ε α) = .error e' ↔ c ∧ e' = e := by
  split
  · rename_i hc
    rw [Except.error.injEq, and_iff_right hc]
    exact eq_comm
  · rename_i hc
    exact ⟨nofun, fun h => absurd h.1 hc⟩

theorem exists_error_iff {x : Except ε α} : (∃ e, x = .error e) ↔ ¬∃ a, x = .ok a := by
  cases x with
  | error e => exact ⟨nofun, fun _ => ⟨e, rfl⟩⟩
  | ok a => exact ⟨nofun, fun h => absurd ⟨a, rfl⟩ h⟩

/-- Two steps give an answer if each does, where the second does for every answer of the first or
for none. -/
theorem exists_bind_eq_ok_iff {x : Except ε α} {f : α → Except ε β} {p : Prop}
    (hf : ∀ a, (∃ b, f a = .ok b) ↔ p) : (∃ b, x >>= f = .ok b) ↔ (∃ a, x = .ok a) ∧ p := by
  constructor
  · rintro ⟨b, h⟩
    obtain ⟨a, ha, hb⟩ := bind_eq_ok_iff.1 h
    exact ⟨⟨a, ha⟩, (hf a).1 ⟨b, hb⟩⟩
  · rintro ⟨⟨a, ha⟩, hp⟩
    obtain ⟨b, hb⟩ := (hf a).2 hp
    exact ⟨b, bind_eq_ok_iff.2 ⟨a, ha, hb⟩⟩

theorem exists_pure_eq_ok_iff {a : α} : (∃ b, (pure a : Except ε α) = .ok b) ↔ True :=
  ⟨fun _ => trivial, fun _ => ⟨a, rfl⟩⟩

/-- A step behind which nothing can fail. -/
theorem exists_bind_pure_eq_ok_iff {x : Except ε α} {f : α → β} :
    (∃ b, (x >>= fun a => pure (f a)) = .ok b) ↔ ∃ a, x = .ok a := by
  rw [exists_bind_eq_ok_iff fun _ => exists_pure_eq_ok_iff, and_true]

/-- Only errors are changed. -/
theorem mapError_eq_ok_iff {ε' : Type} {f : ε → ε'} {x : Except ε α} {a : α} :
    x.mapError f = .ok a ↔ x = .ok a := by
  cases x with
  | error e => exact ⟨nofun, nofun⟩
  | ok a' =>
    show Except.ok a' = Except.ok a ↔ _
    rw [Except.ok.injEq, Except.ok.injEq]

theorem mapError_eq_error_iff {ε' : Type} {f : ε → ε'} {x : Except ε α} {e' : ε'} :
    x.mapError f = .error e' ↔ ∃ e, x = .error e ∧ e' = f e := by
  cases x with
  | error e =>
    show Except.error (f e) = Except.error e' ↔ _
    rw [Except.error.injEq]
    constructor
    · intro h
      exact ⟨e, rfl, h.symm⟩
    · rintro ⟨_, h, rfl⟩
      cases h
      rfl
  | ok a => exact ⟨nofun, nofun⟩

/-! ## One step for each member of a list -/

theorem mapM_cons_eq_ok_iff {f : α → Except ε β} {x : α} {xs : List α} {ys : List β} :
    (x :: xs).mapM f = .ok ys ↔ ∃ y rest, ys = y :: rest ∧ f x = .ok y ∧ xs.mapM f = .ok rest := by
  rw [List.mapM_cons, bind_eq_ok_iff]
  constructor
  · rintro ⟨y, hy, h⟩
    obtain ⟨rest, hrest, h⟩ := bind_eq_ok_iff.1 h
    exact ⟨y, rest, (pure_eq_ok_iff.1 h).symm, hy, hrest⟩
  · rintro ⟨y, rest, rfl, hy, hrest⟩
    exact ⟨y, hy, bind_eq_ok_iff.2 ⟨rest, hrest, rfl⟩⟩

/-- Every member has an answer among the answers. -/
theorem exists_answer_of_mapM {f : α → Except ε β} {xs : List α} {ys : List β}
    (h : xs.mapM f = .ok ys) : ∀ x ∈ xs, ∃ y ∈ ys, f x = .ok y := by
  induction xs generalizing ys with
  | nil => exact nofun
  | cons x xs ih =>
    obtain ⟨y, rest, rfl, hy, hrest⟩ := mapM_cons_eq_ok_iff.1 h
    refine List.forall_mem_cons.2 ⟨⟨y, List.mem_cons_self, hy⟩, ?_⟩
    intro x' hx'
    obtain ⟨y', hmem, hy'⟩ := ih hrest x' hx'
    exact ⟨y', List.mem_cons_of_mem _ hmem, hy'⟩

/-- Every answer is the one of a member. -/
theorem exists_member_of_mapM {f : α → Except ε β} {xs : List α} {ys : List β}
    (h : xs.mapM f = .ok ys) : ∀ y ∈ ys, ∃ x ∈ xs, f x = .ok y := by
  induction xs generalizing ys with
  | nil =>
    obtain rfl := pure_eq_ok_iff.1 h
    exact nofun
  | cons x xs ih =>
    obtain ⟨y, rest, rfl, hy, hrest⟩ := mapM_cons_eq_ok_iff.1 h
    refine List.forall_mem_cons.2 ⟨⟨x, List.mem_cons_self, hy⟩, ?_⟩
    intro y' hy'
    obtain ⟨x', hmem, hx'⟩ := ih hrest y' hy'
    exact ⟨x', List.mem_cons_of_mem _ hmem, hx'⟩

/-- All members have answers exactly if each has one. -/
theorem exists_mapM_eq_ok_iff {f : α → Except ε β} {xs : List α} :
    (∃ ys, xs.mapM f = .ok ys) ↔ ∀ x ∈ xs, ∃ y, f x = .ok y := by
  constructor
  · rintro ⟨ys, h⟩ x hx
    obtain ⟨y, -, hy⟩ := exists_answer_of_mapM h x hx
    exact ⟨y, hy⟩
  · intro h
    induction xs with
    | nil => exact ⟨[], rfl⟩
    | cons x xs ih =>
      obtain ⟨⟨y, hy⟩, hrest⟩ := List.forall_mem_cons.1 h
      obtain ⟨ys, hys⟩ := ih hrest
      exact ⟨y :: ys, mapM_cons_eq_ok_iff.2 ⟨y, ys, rfl, hy, hys⟩⟩

/-- The answers stand at the places of the members. -/
theorem mapM_eq_ok_iff_getElem? {f : α → Except ε β} {xs : List α} {ys : List β} :
    xs.mapM f = .ok ys ↔ ys.length = xs.length ∧
      ∀ i < xs.length, ∃ y, ys[i]? = some y ∧ xs[i]?.map f = some (.ok y) := by
  induction xs generalizing ys with
  | nil =>
    rw [List.mapM_nil, pure_eq_ok_iff, List.length_nil, List.length_eq_zero_iff]
    exact ⟨fun h => ⟨h.symm, nofun⟩, fun h => h.1.symm⟩
  | cons x xs ih =>
    rw [mapM_cons_eq_ok_iff]
    constructor
    · rintro ⟨y, rest, rfl, hy, hrest⟩
      obtain ⟨hlength, hat⟩ := ih.1 hrest
      refine ⟨congrArg (· + 1) hlength, fun i hi => ?_⟩
      cases i with
      | zero => exact ⟨y, rfl, congrArg some hy⟩
      | succ i => exact hat i (Nat.lt_of_succ_lt_succ hi)
    · rintro ⟨hlength, hat⟩
      obtain ⟨y, hy, hx⟩ := hat 0 (Nat.succ_pos _)
      cases ys with
      | nil => cases hy
      | cons first rest =>
        obtain rfl := Option.some.inj hy
        refine ⟨first, rest, rfl, Option.some.inj hx, ih.2 ⟨Nat.succ.inj hlength, ?_⟩⟩
        exact fun i hi => hat (i + 1) (Nat.succ_lt_succ hi)

/-- What fails fails at the first member that has no answer. -/
theorem mapM_eq_error_iff {f : α → Except ε β} {xs : List α} {e : ε} :
    xs.mapM f = .error e ↔ ∃ i : Nat, xs[i]?.map f = some (.error e) ∧
      ∀ j < i, ∃ y, xs[j]?.map f = some (.ok y) := by
  induction xs with
  | nil =>
    constructor
    · intro h
      cases h
    · rintro ⟨i, hi, -⟩
      cases hi
  | cons x xs ih =>
    rw [List.mapM_cons, bind_eq_error_iff]
    constructor
    · rintro (hx | ⟨y, hy, h⟩)
      · exact ⟨0, congrArg some hx, nofun⟩
      · obtain ⟨i, he, hbefore⟩ := ih.1 (bind_pure_eq_error_iff.1 h)
        refine ⟨i + 1, he, fun j hj => ?_⟩
        cases j with
        | zero => exact ⟨y, congrArg some hy⟩
        | succ j => exact hbefore j (Nat.lt_of_succ_lt_succ hj)
    · rintro ⟨i, he, hbefore⟩
      cases i with
      | zero => exact .inl (Option.some.inj he)
      | succ i =>
        obtain ⟨y, hy⟩ := hbefore 0 (Nat.succ_pos i)
        refine .inr ⟨y, Option.some.inj hy, bind_pure_eq_error_iff.2 (ih.2 ⟨i, he, ?_⟩)⟩
        exact fun j hj => hbefore (j + 1) (Nat.succ_lt_succ hj)

/-- What fails fails at a member. -/
theorem exists_failing_of_mapM {f : α → Except ε β} {xs : List α} {e : ε}
    (h : xs.mapM f = .error e) : ∃ x ∈ xs, f x = .error e := by
  obtain ⟨i, he, -⟩ := mapM_eq_error_iff.1 h
  obtain ⟨x, hx, hfx⟩ := Option.map_eq_some_iff.1 he
  exact ⟨x, List.mem_of_getElem? hx, hfx⟩

/-- What takes every answer back to its member takes the answers back to the list. -/
theorem mapM_eq_ok_of_inverse {f : α → Except ε β} {g : β → Except ε α} {xs : List α}
    {ys : List β} (h : xs.mapM f = .ok ys)
    (hinverse : ∀ x ∈ xs, ∀ y ∈ ys, f x = .ok y → g y = .ok x) : ys.mapM g = .ok xs := by
  induction xs generalizing ys with
  | nil =>
    obtain rfl := pure_eq_ok_iff.1 h
    rfl
  | cons x xs ih =>
    obtain ⟨y, rest, rfl, hy, hrest⟩ := mapM_cons_eq_ok_iff.1 h
    have hback := hinverse x List.mem_cons_self y List.mem_cons_self hy
    refine mapM_cons_eq_ok_iff.2 ⟨x, xs, rfl, hback, ih hrest ?_⟩
    intro x' hx' y' hy'
    exact hinverse x' (List.mem_cons_of_mem _ hx') y' (List.mem_cons_of_mem _ hy')

/-- The answers of a list are gathered one by one, the last one first. -/
theorem mapM_eq_ok_iff_foldlM {f : α → Except ε β} {xs : List α} {ys : List β} :
    xs.mapM f = .ok ys ↔
      xs.foldlM (fun acc x => do return (← f x) :: acc) [] = .ok ys.reverse := by
  rw [List.mapM_eq_reverse_foldlM_cons]
  simp only [map_eq_pure_bind]
  rw [bind_eq_ok_iff]
  constructor
  · rintro ⟨acc, hacc, h⟩
    rw [← pure_eq_ok_iff.1 h, List.reverse_reverse]
    exact hacc
  · intro h
    exact ⟨ys.reverse, h, pure_eq_ok_iff.2 (List.reverse_reverse ys)⟩

/-! ## Steps that change a state -/

variable {σ : Type} {s s' : σ}

/-- A sequence gives an answer as both of its steps do, one in the state the other leaves. -/
theorem stateful_bind_eq_ok_iff {x : ExceptT ε (StateM σ) α} {f : α → ExceptT ε (StateM σ) β}
    {b : β} : (x >>= f) s = (.ok b, s') ↔ ∃ a mid, x s = (.ok a, mid) ∧ f a mid = (.ok b, s') := by
  show ExceptT.bind x f s = _ ↔ _
  simp only [ExceptT.bind, ExceptT.mk, bind, StateT.bind]
  rcases x s with ⟨e | a, mid⟩
  · constructor
    · intro h
      cases h
    · rintro ⟨a, mid, h, -⟩
      cases h
  · constructor
    · intro h
      exact ⟨a, mid, rfl, h⟩
    · rintro ⟨a', mid', h, hf⟩
      cases h
      exact hf

/-- A sequence fails with its first step, or with its second in the state the first leaves. -/
theorem stateful_bind_eq_error_iff {x : ExceptT ε (StateM σ) α} {f : α → ExceptT ε (StateM σ) β}
    {e : ε} : (x >>= f) s = (.error e, s') ↔
      x s = (.error e, s') ∨ ∃ a mid, x s = (.ok a, mid) ∧ f a mid = (.error e, s') := by
  show ExceptT.bind x f s = _ ↔ _
  simp only [ExceptT.bind, ExceptT.mk, bind, StateT.bind]
  rcases x s with ⟨e' | a, mid⟩
  · constructor
    · intro h
      cases h
      exact .inl rfl
    · rintro (h | ⟨a, mid, h, -⟩)
      · cases h
        rfl
      · cases h
  · constructor
    · intro h
      exact .inr ⟨a, mid, rfl, h⟩
    · rintro (h | ⟨a', mid', h, hf⟩)
      · cases h
      · cases h
        exact hf

theorem stateful_pure_eq_ok_iff {a b : α} :
    (pure a : ExceptT ε (StateM σ) α) s = (.ok b, s') ↔ a = b ∧ s = s' := by
  show ((Except.ok a : Except ε α), s) = _ ↔ _
  rw [Prod.mk.injEq, Except.ok.injEq]

theorem stateful_throw_eq_ok_iff {e : ε} {b : α} :
    (throw e : ExceptT ε (StateM σ) α) s = (.ok b, s') ↔ False := by
  show ((Except.error e : Except ε α), s) = _ ↔ _
  simp

/-- A step behind a check of what is known before. -/
theorem stateful_guard_eq_ok_iff {c : Prop} [Decidable c] {e : ε}
    {k : Unit → ExceptT ε (StateM σ) α} {x : ExceptT ε (StateM σ) α} {b : α} :
    (if c then throw e >>= k else x) s = (.ok b, s') ↔ ¬c ∧ x s = (.ok b, s') := by
  split
  · rename_i hc
    rw [stateful_bind_eq_ok_iff]
    simp [hc, stateful_throw_eq_ok_iff]
  · rename_i hc
    simp [hc]

end Resumable
