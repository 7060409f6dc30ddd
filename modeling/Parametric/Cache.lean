import Parametric.Entity

/-!
# Caches

A cache holds a bounded number of entries for a limited time. When a new key meets a full cache the
entry that was used least recently makes room. Keys belong to objects, so that all entries of an
object can be dropped together. A cache only saves work: nothing may depend on what it still holds.

Times are readings of a clock in milliseconds; an entry from the future has age zero.
-/

namespace Parametric

/-- Keys that belong to an object. -/
class Owned (κ : Type) where
  owner : κ → ObjectId

/-- A cached value with the time it was stored. -/
structure Cached (ν : Type) where
  value : ν
  storedAt : Nat
deriving DecidableEq

/-- A cache with its entries, the order of their last use and its counts. -/
structure Cache (κ ν : Type) [Ord κ] where
  /-- The age from which an entry counts as gone. -/
  life : Nat
  /-- The number of entries, at least one. -/
  capacity : Nat
  entries : Table κ (Cached ν)
  /-- The keys, the one used least recently first. -/
  order : List κ
  hits : Nat
  misses : Nat

namespace Cache

variable {κ ν : Type} [Ord κ] [Std.TransOrd κ] [DecidableEq κ]

def new (life capacity : Nat) : Cache κ ν :=
  ⟨life, max capacity 1, ∅, [], 0, 0⟩

/-- The number of entries, those included that are gone but not yet dropped. -/
def size (c : Cache κ ν) : Nat := c.entries.size

/-- Drop an entry: its value, and the cache without it. -/
def remove (c : Cache κ ν) (key : κ) : Option ν × Cache κ ν :=
  match c.entries[key]? with
  | none => (none, c)
  | some e =>
    (some e.value, { c with entries := c.entries.erase key, order := c.order.filter (· ≠ key) })

/-- Look a key up at the time `now`. A live entry becomes the most recent one; one that is gone is
dropped. -/
def get (c : Cache κ ν) (key : κ) (now : Nat) : Option ν × Cache κ ν :=
  match c.entries[key]? with
  | none => (none, { c with misses := c.misses + 1 })
  | some e =>
    if c.life ≤ now - e.storedAt then
      let c := (c.remove key).2
      (none, { c with misses := c.misses + 1 })
    else
      (some e.value,
        { c with order := c.order.filter (· ≠ key) ++ [key], hits := c.hits + 1 })

/-- Drop the least recent entries until there is room for one more. -/
def makeRoom (capacity : Nat) (entries : Table κ (Cached ν)) :
    List κ → Table κ (Cached ν) × List κ
  | [] => (entries, [])
  | key :: order =>
    if entries.size < capacity then (entries, key :: order)
    else makeRoom capacity (entries.erase key) order

/-- Store a value at the time `now`, as the most recent entry. -/
def insert (c : Cache κ ν) (key : κ) (value : ν) (now : Nat) : Cache κ ν :=
  let (entries, order) :=
    if c.entries.contains key then (c.entries, c.order.filter (· ≠ key))
    else makeRoom c.capacity c.entries c.order
  { c with entries := entries.insert key ⟨value, now⟩, order := order ++ [key] }

/-- Drop the entries of an object: how many they were, and the cache without them. -/
def dropOwner [Owned κ] (c : Cache κ ν) (object : ObjectId) : Nat × Cache κ ν :=
  let kept := c.entries.filter fun key _ => Owned.owner key ≠ object
  (c.entries.size - kept.size,
    { c with entries := kept, order := c.order.filter (Owned.owner · ≠ object) })

/-- Drop all entries; the counts stay. -/
def clear (c : Cache κ ν) : Cache κ ν := { c with entries := ∅, order := [] }

end Cache

end Parametric
