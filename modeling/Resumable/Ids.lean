/-!
# Identifiers

Correlation ids and instance ids come from one generator, which counts up from where it starts and
wraps around at the end of the 64-bit range.
-/

namespace Resumable

/-- A generator of identifiers, by the next one it will give. -/
structure Ids where
  upcoming : UInt64
  deriving DecidableEq, Repr

namespace Ids

/-- A generator whose first identifier is given. -/
def startingAt (first : UInt64) : Ids := ⟨first⟩

/-- Draws an identifier. -/
def draw (ids : Ids) : UInt64 × Ids := (ids.upcoming, ⟨ids.upcoming + 1⟩)

/-- Draws so many identifiers, in order. -/
def drawMany : (count : Nat) → Ids → List UInt64 × Ids
  | 0, ids => ([], ids)
  | count + 1, ids =>
    let (id, ids) := ids.draw
    let (more, ids) := drawMany count ids
    (id :: more, ids)

/-- Draws until an identifier is not taken, at most `retries` times more than once. -/
def drawFree (taken : UInt64 → Bool) : (retries : Nat) → Ids → UInt64 × Ids
  | 0, ids => ids.draw
  | retries + 1, ids =>
    if taken ids.draw.1 then drawFree taken retries ids.draw.2 else ids.draw

end Ids

end Resumable
