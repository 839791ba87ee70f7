import Reckoner.Table

/-!
# A cache that forgets what was used longest ago

A cache holds at most as many entries as its capacity, which is at least one. Reading an entry and
putting one are uses; when a new entry does not fit, the entry is dropped whose last use lies furthest
back.

Requests are numbered by ticks. The tick of the last use of a key stands beside its value, and a second
table leads from the ticks back to the keys, so the key to drop is the one of the least tick.
-/

namespace Reckoner

/-- Entries with the ticks of their last use. -/
structure RecencyCache (α β : Type) where
  capacity : Nat
  /-- The value of each key, and the tick of its last use. -/
  entries : Table α (β × Nat)
  /-- The key that was last used at each tick. -/
  order : Table Nat α
  /-- The tick of the last request. -/
  tick : Nat

namespace RecencyCache

variable {α β : Type}

/-- The cache without entries; a capacity of zero counts as one. -/
def ofCapacity (capacity : Nat) : RecencyCache α β := ⟨max capacity 1, .empty, .empty, 0⟩

/-- The number of entries. -/
def size (c : RecencyCache α β) : Nat := c.entries.size

/-- Whether there is no entry. -/
def isEmpty (c : RecencyCache α β) : Bool := c.entries.isEmpty

/-- Drops all entries, and begins to count ticks anew. -/
def clear (c : RecencyCache α β) : RecencyCache α β :=
  { c with entries := .empty, order := .empty, tick := 0 }

/-- The cache at the next tick. -/
def next (c : RecencyCache α β) : RecencyCache α β := { c with tick := c.tick + 1 }

variable [DecidableEq α]

/-- Whether a key is present. Asking is not a use. -/
def contains (c : RecencyCache α β) (a : α) : Bool := c.entries.contains a

/-- The value of a key, which is used now if it is present. -/
def get (c : RecencyCache α β) (a : α) : Option β × RecencyCache α β :=
  let c := c.next
  match c.entries.get? a with
  | none => (none, c)
  | some (b, used) =>
    let order := match c.order.get? used with
      | some owned => (c.order.erase used).insert c.tick owned
      | none => c.order
    (some b, { c with entries := c.entries.insert a (b, c.tick), order })

/-- Drops the key of the least tick, and gives it back. -/
def evict (c : RecencyCache α β) : Option α × RecencyCache α β :=
  match c.order.first? with
  | none => (none, c)
  | some (used, oldest) =>
    (some oldest, { c with entries := c.entries.erase oldest, order := c.order.erase used })

/-- Makes room for a key: takes away the tick of its last use, or else drops another key if the cache is
full. Gives the dropped key back. -/
def makeRoom (c : RecencyCache α β) (a : α) : Option α × RecencyCache α β :=
  match c.entries.get? a with
  | some (_, used) => (none, { c with order := c.order.erase used })
  | none => if c.capacity ≤ c.size then c.evict else (none, c)

/-- Sets the value of a key, which is used now. If the key is new and the cache is full, the key that
was used longest ago is dropped and given back. -/
def put (c : RecencyCache α β) (a : α) (b : β) : Option α × RecencyCache α β :=
  let (evicted, c) := c.next.makeRoom a
  (evicted, { c with
    entries := c.entries.insert a (b, c.tick)
    order := c.order.insert c.tick a })

end RecencyCache

end Reckoner
