import Resumable.Failure.Basic
import Resumable.Ids

/-!
# Residents

The table of what is kept in memory between requests, each entry under an id of its own. Ids come
from a generator that others draw from too, so registration passes over ids that are in use; a table
of n entries makes it draw at most n + 1 times.
-/

namespace Resumable

/-- A table of residents by id. -/
structure Residents (ρ : Type) where
  entries : List (UInt64 × ρ)

namespace Residents

variable {ρ : Type}

/-- The table without entries. -/
def empty : Residents ρ := ⟨[]⟩

/-- Whether an id is in use. -/
def contains (table : Residents ρ) (id : UInt64) : Bool := table.entries.any (·.1 == id)

/-- The number of entries. -/
def size (table : Residents ρ) : Nat := table.entries.length

/-- Whether there are no entries. -/
def isEmpty (table : Residents ρ) : Bool := table.entries.isEmpty

/-- Enters a resident under the next id that is not in use. -/
def register (table : Residents ρ) (resident : ρ) (ids : Ids) : UInt64 × Residents ρ × Ids :=
  let (id, ids) := ids.drawFree table.contains table.size
  (id, ⟨table.entries ++ [(id, resident)]⟩, ids)

/-- The resident of an id. -/
def find? (table : Residents ρ) (id : UInt64) : Option ρ := table.entries.lookup id

/-- The resident of an id, or the failure that there is none. -/
def find (table : Residents ρ) (id : UInt64) : Except Failure.Nature ρ :=
  match table.find? id with
  | some resident => .ok resident
  | none => .error (.noInstance id)

/-- The table without the entry of an id. -/
def erase (table : Residents ρ) (id : UInt64) : Residents ρ :=
  ⟨table.entries.filter (·.1 != id)⟩

/-- Removes the entry of an id: the resident, if there was one, and the table without it. -/
def delete (table : Residents ρ) (id : UInt64) : Option ρ × Residents ρ :=
  (table.find? id, table.erase id)

/-- Puts another resident under an id that is in use. -/
def replace (table : Residents ρ) (id : UInt64) (resident : ρ) : Residents ρ :=
  ⟨table.entries.map fun entry => if entry.1 == id then (id, resident) else entry⟩

/-- Empties the table: the residents to be terminated, one for each entry, and the empty table. -/
def close (table : Residents ρ) : List ρ × Residents ρ := (table.entries.map (·.2), empty)

end Residents

end Resumable
