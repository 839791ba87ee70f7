import Reckoner.Notebook.RecencyCache
import Reckoner.Statement.Parser

/-!
# Reading lines only once

A line reader reads lines into statements and remembers what it has read most recently, so that the
lines of a document that did not change are not read again. Lines are trimmed first. A line that has
no meaning is not remembered.

What is remembered never differs from what reading again would give, so the memory shows only in the
counters, and in the number of the reading that each line carries.
-/

namespace Reckoner

/-- A line that has been read. -/
structure ReadLine (K : Type) where
  /-- The text without blanks around it. -/
  source : String
  statement : Statement K
  /-- The number of the reading that gave the statement, counted from zero. -/
  reading : Nat
deriving Repr

/-- How the memory of a line reader has been used. -/
structure ReadCounters where
  hits : Nat := 0
  misses : Nat := 0
  evictions : Nat := 0
  failures : Nat := 0
deriving DecidableEq, Repr

/-- How often a line was actually read. -/
def ReadCounters.readings (n : ReadCounters) : Nat := n.misses

/-- A reader with its memory. -/
structure LineReader (K : Type) where
  cache : RecencyCache String (ReadLine K)
  counters : ReadCounters
  maxDepth : Nat

namespace LineReader

variable {K : Type}

/-- A reader that remembers nothing yet. -/
def new (capacity maxDepth : Nat) : LineReader K := ⟨.ofCapacity capacity, {}, maxDepth⟩

/-- Whether the line is remembered. -/
def isCached (reader : LineReader K) (text : String) : Bool :=
  reader.cache.contains (Text.trim text)

variable [Scalar K]

/-- Reads a trimmed line that is not remembered. -/
def readAnew (reader : LineReader K) (key : String) :
    Except ParseError (ReadLine K) × LineReader K :=
  let n := reader.counters
  match Statement.ofText reader.maxDepth key with
  | .error e =>
    (.error e, { reader with counters := { n with misses := n.misses + 1, failures := n.failures + 1 } })
  | .ok statement =>
    let line := ⟨key, statement, n.misses⟩
    let (evicted, cache) := reader.cache.put key line
    let evictions := n.evictions + if evicted.isSome then 1 else 0
    (.ok line, { reader with cache, counters := { n with misses := n.misses + 1, evictions } })

/-- **Reads a line**, or remembers it. -/
def read (reader : LineReader K) (text : String) : Except ParseError (ReadLine K) × LineReader K :=
  let key := Text.trim text
  match reader.cache.get key with
  | (some line, cache) =>
    let n := reader.counters
    (.ok line, { reader with cache, counters := { n with hits := n.hits + 1 } })
  | (none, cache) => readAnew { reader with cache } key

end LineReader

end Reckoner
