/-!
# Values under keys

A map from texts to values is the list of its fields in the order of their keys, one for each key.
The type holds no other list: each field carries the proof that its key comes after the key in front
of it.
-/

namespace Resumable

/-- Values under ascending keys, which come after a given one if there is one. -/
inductive Keyed (α : Type) : (after : Option String) → Type where
  | nil {after : Option String} : Keyed α after
  | cons {after : Option String} (key : String) (value : α) (lt : ∀ before ∈ after, before < key)
      (rest : Keyed α (some key)) : Keyed α after

namespace Keyed

variable {α β : Type} {after : Option String}

/-- The fields in the order of their keys. -/
def toList {after : Option String} : Keyed α after → List (String × α)
  | nil => []
  | cons key value _ rest => (key, value) :: rest.toList

/-- What is made of the fields, in the order of their keys. -/
abbrev map (f : String × α → β) (fields : Keyed α after) : List β := fields.toList.map f

/-- The value under a key. -/
def get? (key : String) (fields : Keyed α after) : Option α := fields.toList.lookup key

theorem forall_mem_some_lt {key other : String} (h : other < key) :
    ∀ before ∈ some other, before < key := by
  intro before hbefore
  cases hbefore
  exact h

/-- A key that is neither in front of another nor the same comes after it. -/
theorem lt_of_not_lt {key other : String} (hlt : ¬key < other) (hne : ¬key = other) :
    other < key :=
  Std.lt_of_le_of_ne (String.not_lt.1 hlt) (Ne.symm hne)

/-- Puts a field in its place, over one of the same key. -/
def insert (key : String) (value : α) {after : Option String}
    (lt : ∀ before ∈ after, before < key) : Keyed α after → Keyed α after
  | nil => cons key value lt nil
  | cons k v ltk rest =>
    if hlt : key < k then cons key value lt (cons k v (forall_mem_some_lt hlt) rest)
    else if heq : key = k then cons k value ltk rest
    else cons k v ltk (rest.insert key value (forall_mem_some_lt (lt_of_not_lt hlt heq)))

/-- Adds a field, over one of the same key. -/
def add (fields : Keyed α none) (field : String × α) : Keyed α none :=
  fields.insert field.1 field.2 nofun

/-- The fields of a list; of two with one key the later stands. -/
def ofList (fields : List (String × α)) : Keyed α none := fields.foldl add nil

instance : Coe (List (String × α)) (Keyed α none) := ⟨ofList⟩

end Keyed

end Resumable
