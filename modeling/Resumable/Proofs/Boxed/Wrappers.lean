import Resumable.Proofs.Boxed.Capabilities

/-!
# Optional values and references

A value in a wrapper, a present optional value or a reference, offers the forms of the value itself,
so that wrappers do not show in what is boxed. A target of an optional type takes null as the absent
value and leaves everything else to the target inside (`Boxed.unbox_optional`). Both hold however
deep the wrappers are nested, so that what comes back whole comes back whole from inside them
(`Forms.wrappers_transparent`).
-/

namespace Resumable

/-! ## Wrapped values -/

/-- What may stand around a value, with the name of the type that this makes. -/
inductive Wrapper where
  /-- A present optional value. -/
  | present (typeName : String)
  | reference (typeName : String)

/-- The forms of a value with one wrapper around it. -/
def Wrapper.around (f : Forms) : Wrapper → Forms
  | present typeName => .optional typeName (some f)
  | reference typeName => .reference typeName f

namespace Forms

/-- The forms of a value in wrappers, the innermost first. -/
def wrapped (f : Forms) (wrappers : List Wrapper) : Forms := wrappers.foldl Wrapper.around f

/-- The same forms under another name of the type. -/
def named (f : Forms) (typeName : String) : Forms := { f with typeName }

/-- A wrapped value differs from the value in the name of its type only. -/
theorem wrapped_eq (f : Forms) (wrappers : List Wrapper) :
    f.wrapped wrappers = f.named (f.wrapped wrappers).typeName := by
  induction wrappers generalizing f with
  | nil => rfl
  | cons wrapper rest ih =>
    show (wrapper.around f).wrapped rest = _
    rw [ih]
    cases wrapper <;> rfl

/-- The name of a value's type shows in one error only, which names it. -/
theorem box_named (f : Forms) (typeName : String) :
    (f.named typeName).box = f.box ∨
      f.box = .error (.unsupportedType f.typeName) ∧
        (f.named typeName).box = .error (.unsupportedType typeName) := by
  cases hboxed : f.boxed with
  | some boxed =>
    left
    simp only [box, named, hboxed]
  | none =>
    have hbox : (f.named typeName).box = (f.named typeName).value.bind Value.encode :=
      box_of_not_boxed hboxed
    -- the capabilities are the same ones, whatever the type is called
    have hfirst : (f.named typeName).first? = f.first? := rfl
    have hanswer : (f.named typeName).answer? = f.answer? := by
      funext c
      cases c <;> rfl
    rw [hbox, box_of_not_boxed hboxed, value_eq, value_eq f, hfirst, hanswer]
    cases f.first?.bind f.answer? with
    | some answer => exact .inl rfl
    | none => exact .inr ⟨rfl, rfl⟩

theorem box_wrapped (f : Forms) (wrappers : List Wrapper) :
    (f.wrapped wrappers).box = f.box ∨
      f.box = .error (.unsupportedType f.typeName) ∧
        (f.wrapped wrappers).box = .error (.unsupportedType (f.wrapped wrappers).typeName) := by
  rw [wrapped_eq]
  exact f.box_named _

end Forms

/-! ## Optional types -/

theorem Value.isNull_iff {v : Value} : v.isNull = true ↔ v.shape = .empty := by
  cases v <;> simp [Value.isNull, Value.shape]

/-- An answer that is mapped is mapped behind the failure that stands for none. -/
theorem elim_error_map {α β ε : Type} (answer : Option α) (f : α → β) (e : ε) :
    (answer.map f).elim (.error e : Except ε β) .ok =
      (answer.elim (.error e) .ok : Except ε α).map f := by
  cases answer <;> rfl

/-- A target of an optional type takes null as the absent value; all else is taken as the target
inside takes it. -/
theorem Boxed.unbox_optional {α : Type} (t : Target α) (boxed : Boxed) :
    boxed.unbox t.optional =
      if boxed.shape = .empty then .ok none else (boxed.unbox t).map some := by
  cases hdecode : boxed.decode with
  | error e =>
    have hshape : boxed.shape ≠ .empty := by
      intro hempty
      rw [Boxed.decode, if_pos hempty] at hdecode
      cases hdecode
    rw [if_neg hshape, Boxed.unbox, Boxed.unbox, hdecode]
    rfl
  | ok v =>
    rw [Boxed.unbox, Boxed.unbox, hdecode, Boxed.shape_of_decode hdecode]
    cases hnull : v.isNull with
    | true =>
      rw [if_pos (Value.isNull_iff.1 hnull)]
      simp [bind, Except.bind, hnull, Target.optional]
    | false =>
      have hshape : v.shape ≠ .empty := by
        rw [Ne, ← Value.isNull_iff, hnull]
        exact Bool.false_ne_true
      have hkind : t.optional.kind = t.kind := rfl
      have hvalue : t.optional.ofValue = fun v => (t.ofValue v).map some := rfl
      have hconvert : t.optional.convert v = (t.convert v).map (·.map some) := by
        cases v <;> rfl
      rw [if_neg hshape]
      simp only [bind, Except.bind, hnull, Bool.false_eq_true, if_false, hkind, hvalue, hconvert]
      -- whichever way the value goes, the target inside is asked, and its answer is mapped
      split
      · exact elim_error_map ..
      · cases t.convert v with
        | some answer => rfl
        | none =>
          cases v.narrow t.kind with
          | error e => rfl
          | ok narrowed =>
            show (narrowed.bind (Option.map some ∘ t.ofValue)).elim _ _ = _
            rw [← Option.map_bind, elim_error_map]

/-- An optional type, so many times over. -/
def Nested (α : Type) : Nat → Type
  | 0 => α
  | depth + 1 => Option (Nested α depth)

/-- A value that is present at every depth. -/
def Nested.present {α : Type} (a : α) : (depth : Nat) → Nested α depth
  | 0 => a
  | depth + 1 => some (present a depth)

/-- The value that is absent at the outermost depth. -/
def Nested.absent {α : Type} (depth : Nat) : Nested α (depth + 1) := none

/-- The target of an optional type so many times over. -/
def Target.nested {α : Type} (t : Target α) : (depth : Nat) → Target (Nested α depth)
  | 0 => t
  | depth + 1 => (t.nested depth).optional

/-- At any depth, null is the value that is absent outermost, and all else is taken as the target
inside takes it. -/
theorem Boxed.unbox_nested {α : Type} (t : Target α) (boxed : Boxed) (depth : Nat) :
    boxed.unbox (t.nested (depth + 1)) =
      if boxed.shape = .empty then .ok (Nested.absent depth)
      else (boxed.unbox t).map (Nested.present · (depth + 1)) := by
  induction depth with
  | zero => exact boxed.unbox_optional t
  | succ depth ih =>
    refine (boxed.unbox_optional _).trans ?_
    rw [ih]
    split
    · rfl
    · cases boxed.unbox t <;> rfl

/-! ## Values that come back -/

/-- Whether a value with these forms is boxed, and unboxed as `a`. -/
def Forms.ComesBack {α : Type} (f : Forms) (t : Target α) (a : α) : Prop :=
  ∃ boxed, f.box = .ok boxed ∧ boxed.unbox t = .ok a

/-- Wrappers around a value do not show in what it is boxed as, but for the name of its type in the
error that there is nothing to box. An optional target, to any depth, takes null as absent and takes
all else as the target inside does. So an optional value comes back if it is absent, and if it is
present with a value that comes back and is not boxed as null. -/
theorem Forms.wrappers_transparent {α : Type} (f : Forms) (t : Target α) :
    (∀ wrappers, (f.wrapped wrappers).box = f.box ∨
      f.box = .error (.unsupportedType f.typeName) ∧
        (f.wrapped wrappers).box = .error (.unsupportedType (f.wrapped wrappers).typeName)) ∧
    (∀ boxed : Boxed, boxed.unbox t.optional =
      if boxed.shape = .empty then .ok none else (boxed.unbox t).map some) ∧
    (∀ (boxed : Boxed) (depth : Nat), boxed.unbox (t.nested (depth + 1)) =
      if boxed.shape = .empty then .ok (Nested.absent depth)
      else (boxed.unbox t).map (Nested.present · (depth + 1))) ∧
    (∀ typeName, (Forms.optional typeName none).ComesBack t.optional none) ∧
    ∀ a typeName, f.ComesBack t a → (∀ boxed, f.box = .ok boxed → boxed.shape ≠ .empty) →
      (Forms.optional typeName (some f)).ComesBack t.optional (some a) := by
  refine ⟨f.box_wrapped, Boxed.unbox_optional t, Boxed.unbox_nested t, ?_, ?_⟩
  · intro typeName
    exact ⟨.null, rfl, Boxed.unbox_optional t .null⟩
  · rintro a typeName ⟨boxed, hbox, hunbox⟩ hshape
    refine ⟨boxed, ?_, ?_⟩
    · rcases f.box_wrapped [.present typeName] with hsame | ⟨herror, -⟩
      · exact hsame.trans hbox
      · rw [herror] at hbox
        cases hbox
    · rw [Boxed.unbox_optional, if_neg (hshape boxed hbox), hunbox]
      rfl

/-- A text comes back, so that a present optional text does. -/
theorem Forms.wrappers_transparent_of_string :
    (Forms.string "a").ComesBack Target.string "a" ∧
      (∀ boxed, (Forms.string "a").box = .ok boxed → boxed.shape ≠ .empty) ∧
      (Forms.optional "Name" (some (Forms.string "a"))).ComesBack Target.string.optional
        (some "a") := by
  have hbox : (Forms.string "a").box = .ok ⟨.string, (Wire.Item.string "a").toBytes⟩ :=
    Value.encode_of_toItem? (v := .string "a") rfl (by decide)
  have hback : (Forms.string "a").ComesBack Target.string "a" := ⟨_, hbox, rfl⟩
  have hshape : ∀ boxed, (Forms.string "a").box = .ok boxed → boxed.shape ≠ .empty := by
    intro boxed h
    rw [hbox] at h
    cases h
    exact nofun
  exact ⟨hback, hshape,
    (Forms.wrappers_transparent (Forms.string "a") Target.string).2.2.2.2 "a" "Name" hback hshape⟩

end Resumable
