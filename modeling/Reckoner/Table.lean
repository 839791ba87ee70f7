/-!
# Tables

A finite map from keys to values, kept as a list of pairs in the order in which the keys were first
put in. `insert` replaces the value of a key that is present and appends one that is not, so that keys
stay distinct.
-/

namespace Reckoner

/-- A finite map, in order of insertion. -/
structure Table (α β : Type) where
  entries : List (α × β)
deriving Repr

namespace Table

variable {α β : Type}

/-- The table without keys. -/
def empty : Table α β := ⟨[]⟩

/-- The number of keys. -/
def size (t : Table α β) : Nat := t.entries.length

/-- Whether there is no key. -/
def isEmpty (t : Table α β) : Bool := t.entries.isEmpty

/-- The entry with the least key. -/
def first? (t : Table Nat β) : Option (Nat × β) := t.entries.minOn? (·.1)

variable [DecidableEq α]

/-- The first value that stands beside a key. -/
def lookup (a : α) : List (α × β) → Option β
  | [] => none
  | (a', b) :: rest => if a' = a then some b else lookup a rest

/-- The value of a key. -/
def get? (t : Table α β) (a : α) : Option β := lookup a t.entries

/-- Whether a key is present. -/
def contains (t : Table α β) (a : α) : Bool := (t.get? a).isSome

/-- The entries with the value of a key set. -/
def insertEntry (a : α) (b : β) : List (α × β) → List (α × β)
  | [] => [(a, b)]
  | (a', b') :: rest => if a' = a then (a, b) :: rest else (a', b') :: insertEntry a b rest

/-- Sets the value of a key. -/
def insert (t : Table α β) (a : α) (b : β) : Table α β := ⟨insertEntry a b t.entries⟩

/-- Takes a key away. -/
def erase (t : Table α β) (a : α) : Table α β := ⟨t.entries.filter (·.1 ≠ a)⟩

/-- The table of a list of pairs; of two pairs with one key the later one counts. -/
def ofList (pairs : List (α × β)) : Table α β := pairs.foldl (fun t (a, b) ↦ t.insert a b) empty

/-! ### What a look-up finds -/

@[simp]
theorem get?_empty (a : α) : (empty : Table α β).get? a = none := rfl

theorem lookup_insertEntry (a c : α) (b : β) (entries : List (α × β)) :
    lookup c (insertEntry a b entries) = if c = a then some b else lookup c entries := by
  induction entries with
  | nil => simp [insertEntry, lookup, eq_comm]
  | cons e rest ih =>
    obtain ⟨a', b'⟩ := e
    by_cases h : a' = a
    · subst h
      by_cases h' : a' = c <;> simp [insertEntry, lookup, h', eq_comm (a := c)]
    · by_cases h' : a' = c
      · subst h'
        simp [insertEntry, lookup, h]
      · simp [insertEntry, lookup, h, h', ih]

theorem get?_insert (t : Table α β) (a c : α) (b : β) :
    (t.insert a b).get? c = if c = a then some b else t.get? c :=
  lookup_insertEntry a c b t.entries

@[simp]
theorem get?_insert_self (t : Table α β) (a : α) (b : β) : (t.insert a b).get? a = some b := by
  simp [get?_insert]

theorem lookup_filter_ne (a c : α) (entries : List (α × β)) :
    lookup c (entries.filter (·.1 ≠ a)) = if c = a then none else lookup c entries := by
  induction entries with
  | nil => simp [lookup]
  | cons e rest ih =>
    obtain ⟨a', b⟩ := e
    by_cases h : a' = a
    · rw [List.filter_cons_of_neg (by simp [h]), ih, lookup]
      by_cases h' : c = a <;> simp [h, h', eq_comm (a := a)]
    · rw [List.filter_cons_of_pos (by simpa using h), lookup, lookup, ih]
      by_cases h' : a' = c
      · subst h'
        simp [h]
      · simp [h']

theorem get?_erase (t : Table α β) (a c : α) :
    (t.erase a).get? c = if c = a then none else t.get? c :=
  lookup_filter_ne a c t.entries

end Table

end Reckoner
