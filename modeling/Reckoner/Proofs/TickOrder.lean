import Reckoner.Notebook.RecencyCache
import Reckoner.Proofs.DistinctKeys
import Reckoner.Proofs.Recency

/-!
# Ticks tell the order of use

A cache keeps its entries in no order. What it knows of their use are ticks, which stand in two tables,
beside the values and as keys that lead back to the keys of the entries. Here it is shown that such a
cache does what a list does that is kept in the order of use (`Simulates`).

The link is one list of stamped entries, in which the ticks descend and no key stands twice: each of the
two tables holds what this list says, in whatever order (`Mirrors`). A use takes the entry of its key
out of the list and puts it in front with a tick that is greater than all others; in the tables, one
entry is replaced and a tick goes over to another one (`Mirrors.use`). The last entry of the list is the
one of the least tick (`Mirrors.evict`).
-/

namespace Reckoner

namespace RecencyCache

/-- An entry with the tick of its last use. -/
structure Stamped (α β : Type) where
  tick : Nat
  key : α
  value : β

namespace Stamped

variable {α β : Type}

/-- The entry without its tick. -/
def pair (u : Stamped α β) : α × β := (u.key, u.value)

/-- How the entry stands among the values. -/
def entry (u : Stamped α β) : α × β × Nat := (u.key, u.value, u.tick)

/-- How the entry stands among the ticks. -/
def mark (u : Stamped α β) : Nat × α := (u.tick, u.key)

end Stamped

variable {α β : Type} {c : RecencyCache α β} {uses : List (Stamped α β)} {a : α} {b : β} {n : Nat}

/-- **Both tables of a cache hold the same uses**, given with descending ticks. -/
structure Mirrors (c : RecencyCache α β) (uses : List (Stamped α β)) : Prop where
  capacity_pos : 0 < c.capacity
  descending : uses.Pairwise fun u v ↦ v.tick < u.tick
  le_tick : ∀ u ∈ uses, u.tick ≤ c.tick
  nodup : (uses.map Stamped.key).Nodup
  entries : c.entries.entries.Perm (uses.map Stamped.entry)
  order : c.order.entries.Perm (uses.map Stamped.mark)

theorem mirrors_empty {capacity : Nat} (hcapacity : 0 < capacity) (tick : Nat) :
    (⟨capacity, .empty, .empty, tick⟩ : RecencyCache α β).Mirrors [] where
  capacity_pos := hcapacity
  descending := .nil
  le_tick := nofun
  nodup := .nil
  entries := .nil
  order := .nil

namespace Mirrors

/-! ### What the tables hold -/

theorem nodup_tick (h : c.Mirrors uses) : (uses.map Stamped.tick).Nodup :=
  List.pairwise_map.2 (h.descending.imp Nat.ne_of_gt)

theorem distinct_entries (h : c.Mirrors uses) : c.entries.Distinct := by
  have hkeys := h.entries.map Prod.fst
  rw [List.map_map] at hkeys
  exact hkeys.nodup_iff.2 h.nodup

theorem distinct_order (h : c.Mirrors uses) : c.order.Distinct := by
  have hticks := h.order.map Prod.fst
  rw [List.map_map] at hticks
  exact hticks.nodup_iff.2 h.nodup_tick

/-- A cache has as many entries as uses are mirrored. -/
theorem size_eq (h : c.Mirrors uses) : c.size = uses.length :=
  h.entries.length_eq.trans (List.length_map _)

variable [DecidableEq α]

/-- A key has the value and the tick of its use. -/
theorem get?_entries (h : c.Mirrors uses) :
    c.entries.get? a = some (b, n) ↔ ⟨n, a, b⟩ ∈ uses := by
  rw [h.distinct_entries.get?_eq_some_iff, h.entries.mem_iff, List.mem_map]
  constructor
  · rintro ⟨u, hu, heq⟩
    cases heq
    exact hu
  · exact fun hu ↦ ⟨_, hu, rfl⟩

omit [DecidableEq α] in
/-- A tick leads back to the key of its use. -/
theorem get?_order (h : c.Mirrors uses) :
    c.order.get? n = some a ↔ ∃ b, ⟨n, a, b⟩ ∈ uses := by
  rw [h.distinct_order.get?_eq_some_iff, h.order.mem_iff, List.mem_map]
  constructor
  · rintro ⟨u, hu, heq⟩
    cases heq
    exact ⟨u.value, hu⟩
  · rintro ⟨b, hu⟩
    exact ⟨_, hu, rfl⟩

/-- **The two tables mirror each other.** -/
theorem get?_order_iff (h : c.Mirrors uses) :
    c.order.get? n = some a ↔ ∃ b, c.entries.get? a = some (b, n) := by
  rw [h.get?_order]
  exact exists_congr fun b ↦ h.get?_entries.symm

theorem get?_entries_eq_none (h : c.Mirrors uses) :
    c.entries.get? a = none ↔ a ∉ uses.map Stamped.key := by
  rw [← not_iff_not, not_not, ← Ne, ← Option.isSome_iff_ne_none, Table.isSome_get?_iff,
    (h.entries.map Prod.fst).mem_iff, List.map_map]
  rfl

/-! ### Uses -/

omit [DecidableEq α] in
/-- Time passes without a use. -/
theorem next (h : c.Mirrors uses) : c.next.Mirrors uses :=
  { h with le_tick := fun u hu ↦ Nat.le_succ_of_le (h.le_tick u hu) }

omit [DecidableEq α] in
theorem lt_tick_next (h : c.Mirrors uses) : ∀ u ∈ uses, u.tick < c.next.tick :=
  fun u hu ↦ Nat.lt_succ_of_le (h.le_tick u hu)

/-- Without the tick of a key, the ticks are those of the other keys. -/
theorem erase_order (h : c.Mirrors uses) {u : Stamped α β} (hu : u ∈ uses) :
    (c.order.erase u.tick).entries.Perm ((uses.filter (·.key ≠ u.key)).map Stamped.mark) := by
  have hsame : uses.filter (·.key ≠ u.key) = uses.filter (·.tick ≠ u.tick) := by
    refine List.filter_congr fun v hv ↦ ?_
    have hiff : v.key = u.key ↔ v.tick = u.tick :=
      ⟨fun heq ↦ congrArg _ (List.inj_on_of_nodup_map h.nodup hv hu heq),
        fun heq ↦ congrArg _ (List.inj_on_of_nodup_map h.nodup_tick hv hu heq)⟩
    simp only [ne_eq, hiff]
  have hfilter := h.order.filter (·.1 ≠ u.tick)
  rw [List.filter_map] at hfilter
  rw [hsame]
  exact hfilter

/-- Without the ticks of a key that is new, nothing is missing. -/
theorem filter_key_eq (ha : a ∉ uses.map Stamped.key) : uses.filter (·.key ≠ a) = uses :=
  List.filter_eq_self.2 fun u hu ↦
    decide_eq_true fun heq ↦ ha (List.mem_map.2 ⟨u, hu, heq⟩)

/-- **A use**: the entry of the key is set, and the newest tick leads to it. -/
theorem use (h : c.Mirrors uses) (hnew : ∀ u ∈ uses, u.tick < c.tick) (a : α) (b : β)
    {order : Table Nat α}
    (horder : order.entries.Perm ((uses.filter (·.key ≠ a)).map Stamped.mark)) :
    (⟨c.capacity, c.entries.insert a (b, c.tick), order.insert c.tick a, c.tick⟩ :
      RecencyCache α β).Mirrors (⟨c.tick, a, b⟩ :: uses.filter (·.key ≠ a)) where
  capacity_pos := h.capacity_pos
  descending := .cons (fun u hu ↦ hnew u (List.mem_of_mem_filter hu)) (h.descending.filter _)
  le_tick u hu := by
    rcases List.mem_cons.1 hu with rfl | hu
    · exact Nat.le_refl _
    · exact h.le_tick u (List.mem_of_mem_filter hu)
  nodup := by
    rw [List.map_cons, List.nodup_cons]
    refine ⟨fun hmem ↦ ?_, h.nodup.sublist (List.filter_sublist.map _)⟩
    obtain ⟨u, hu, hkey⟩ := List.mem_map.1 hmem
    exact of_decide_eq_true (List.mem_filter.1 hu).2 hkey
  entries := by
    have hothers := h.entries.filter (·.1 ≠ a)
    rw [List.filter_map] at hothers
    exact (h.distinct_entries.perm_insert a (b, c.tick)).trans (hothers.cons _)
  order := by
    have hticks := horder.map Prod.fst
    rw [List.map_map] at hticks
    have hdistinct : order.Distinct :=
      hticks.nodup_iff.2 (h.nodup_tick.sublist (List.filter_sublist.map _))
    -- The tick is a new one, so there is nothing to take away.
    have hsame : order.entries.filter (·.1 ≠ c.tick) = order.entries := by
      refine List.filter_eq_self.2 fun e he ↦ decide_eq_true fun heq ↦ ?_
      obtain ⟨u, hu, rfl⟩ := List.mem_map.1 (horder.mem_iff.1 he)
      exact (hnew u (List.mem_of_mem_filter hu)).ne heq
    have hinsert := hdistinct.perm_insert c.tick a
    rw [Table.erase, hsame] at hinsert
    exact hinsert.trans (horder.cons _)

/-- The key that was used longest ago is the one of the least tick. -/
theorem evict_eq {init : List (Stamped α β)} {last : Stamped α β}
    (h : c.Mirrors (init ++ [last])) :
    c.evict = (some last.key,
      { c with entries := c.entries.erase last.key, order := c.order.erase last.tick }) := by
  have hlater : ∀ u ∈ init, last.tick < u.tick := fun u hu ↦
    (List.pairwise_append.1 h.descending).2.2 u hu last (List.mem_singleton_self _)
  have hfirst : c.order.first? = some last.mark := by
    refine Table.first?_eq_some
      (h.order.mem_iff.2 (List.mem_map_of_mem (by simp))) fun e he hne ↦ ?_
    obtain ⟨u, hu, rfl⟩ := List.mem_map.1 (h.order.mem_iff.1 he)
    rcases List.mem_append.1 hu with hu | hu
    · exact hlater u hu
    · exact absurd (congrArg Stamped.mark (List.mem_singleton.1 hu)) hne
  rw [RecencyCache.evict, hfirst]
  rfl

/-- Without it, the other uses are left. -/
theorem evict {init : List (Stamped α β)} {last : Stamped α β} (h : c.Mirrors (init ++ [last])) :
    c.evict.2.Mirrors init := by
  have hinit : (init ++ [last]).filter (·.key ≠ last.key) = init := by
    have hnodup := h.nodup
    rw [List.map_append, List.map_singleton, ← List.concat_eq_append, List.nodup_concat] at hnodup
    rw [List.filter_append, filter_key_eq hnodup.1, List.filter_cons_of_neg (by simp),
      List.filter_nil, List.append_nil]
  have hothers := h.entries.filter (·.1 ≠ last.key)
  have hticks := h.erase_order (u := last) (by simp)
  rw [List.filter_map] at hothers
  rw [hinit] at hticks
  rw [h.evict_eq]
  constructor
  case capacity_pos => exact h.capacity_pos
  case descending => exact (List.pairwise_append.1 h.descending).1
  case le_tick => exact fun u hu ↦ h.le_tick u (List.mem_append_left _ hu)
  case nodup => exact h.nodup.sublist ((List.sublist_append_left _ _).map _)
  case entries =>
    rw [← hinit]
    exact hothers
  case order => exact hticks

/-! ### Requests -/

theorem get_of_notMem (h : c.Mirrors uses) (ha : a ∉ uses.map Stamped.key) :
    c.get a = (none, c.next) := by
  have hentry := h.get?_entries_eq_none.2 ha
  simp only [RecencyCache.get, RecencyCache.next, hentry]

/-- Reading a key that is present is a use of it. -/
theorem get_of_mem (h : c.Mirrors uses) (hu : ⟨n, a, b⟩ ∈ uses) :
    (c.get a).1 = some b ∧
      (c.get a).2.Mirrors (⟨c.next.tick, a, b⟩ :: uses.filter (·.key ≠ a)) := by
  have hget : c.get a = (some b, ⟨c.capacity, c.entries.insert a (b, c.next.tick),
      (c.order.erase n).insert c.next.tick a, c.next.tick⟩) := by
    simp only [RecencyCache.get, RecencyCache.next, h.get?_entries.2 hu, h.get?_order.2 ⟨b, hu⟩]
  rw [hget]
  exact ⟨rfl, h.next.use h.lt_tick_next a b (h.erase_order hu)⟩

/-- Putting an entry is a use of its key. If the key is present, or there is room, nothing is dropped. -/
theorem put_of_room (h : c.Mirrors uses)
    (hroom : a ∈ uses.map Stamped.key ∨ uses.length < c.capacity) (b : β) :
    (c.put a b).1 = none ∧
      (c.put a b).2.Mirrors (⟨c.next.tick, a, b⟩ :: uses.filter (·.key ≠ a)) := by
  cases hentry : c.entries.get? a with
  | some e =>
    have hmake : c.next.makeRoom a = (none, { c.next with order := c.order.erase e.2 }) := by
      simp only [makeRoom, RecencyCache.next, hentry]
    rw [put, hmake]
    exact ⟨rfl, h.next.use h.lt_tick_next a b (h.erase_order (h.get?_entries.1 hentry))⟩
  | none =>
    have ha := h.get?_entries_eq_none.1 hentry
    have hfree : ¬c.next.capacity ≤ c.next.size := by
      rw [h.next.size_eq]
      exact Nat.not_le.2 (hroom.resolve_left ha)
    have hmake : c.next.makeRoom a = (none, c.next) := by
      rw [makeRoom, show c.next.entries.get? a = none from hentry]
      exact if_neg hfree
    rw [put, hmake]
    refine ⟨rfl, h.next.use h.lt_tick_next a b ?_⟩
    rw [filter_key_eq ha]
    exact h.order

/-- If the key is new and the cache is full, the use that lies furthest back is dropped. -/
theorem put_of_full {init : List (Stamped α β)} {last : Stamped α β}
    (h : c.Mirrors (init ++ [last])) (ha : a ∉ (init ++ [last]).map Stamped.key)
    (hfull : c.capacity ≤ (init ++ [last]).length) (b : β) :
    (c.put a b).1 = some last.key ∧
      (c.put a b).2.Mirrors (⟨c.next.tick, a, b⟩ :: init) := by
  have hmake : c.next.makeRoom a = c.next.evict := by
    have hfull' : c.next.capacity ≤ c.next.size := h.next.size_eq ▸ hfull
    rw [makeRoom, show c.next.entries.get? a = none from h.get?_entries_eq_none.2 ha]
    exact if_pos hfull'
  rw [List.map_append, List.mem_append, not_or] at ha
  have hrest := h.next.evict
  have hnew : ∀ u ∈ init, u.tick < c.next.tick :=
    fun u hu ↦ h.lt_tick_next u (List.mem_append_left _ hu)
  have horder : c.next.evict.2.order.entries.Perm
      ((init.filter (·.key ≠ a)).map Stamped.mark) := by
    rw [filter_key_eq ha.1]
    exact hrest.order
  rw [put, hmake]
  rw [h.next.evict_eq] at hrest horder ⊢
  have huse := hrest.use hnew a b horder
  rw [filter_key_eq ha.1] at huse
  exact ⟨rfl, huse⟩

end Mirrors

/-! ### The capacity -/

section Capacity

variable [DecidableEq α]

theorem capacity_get (c : RecencyCache α β) (a : α) : (c.get a).2.capacity = c.capacity := by
  simp only [get]
  split <;> rfl

/-- Making room changes nothing but the tables. -/
theorem makeRoom_eq (c : RecencyCache α β) (a : α) :
    ∃ entries order, (c.makeRoom a).2 = { c with entries, order } := by
  rw [makeRoom]
  split
  · exact ⟨_, _, rfl⟩
  · split
    · rw [evict]
      split <;> exact ⟨_, _, rfl⟩
    · exact ⟨_, _, rfl⟩

theorem capacity_put (c : RecencyCache α β) (a : α) (b : β) :
    (c.put a b).2.capacity = c.capacity := by
  obtain ⟨entries, order, hroom⟩ := c.next.makeRoom_eq a
  show (c.next.makeRoom a).2.capacity = _
  rw [hroom]
  rfl

end Capacity

/-! ### The simulation -/

/-- **A cache stands for a list**: its uses, with descending ticks, are the entries of the list. -/
def Simulates (c : RecencyCache α β) (l : RecencyList α β) : Prop :=
  ∃ uses, c.Mirrors uses ∧ l = ⟨c.capacity, uses.map Stamped.pair⟩

theorem keys_map_pair (capacity : Nat) (uses : List (Stamped α β)) :
    (RecencyList.mk capacity (uses.map Stamped.pair)).keys = uses.map Stamped.key := by
  rw [RecencyList.keys, List.map_map]
  rfl

theorem simulates_ofCapacity (capacity : Nat) :
    (ofCapacity capacity : RecencyCache α β).Simulates (.ofCapacity capacity) :=
  ⟨[], mirrors_empty (Nat.lt_of_lt_of_le Nat.zero_lt_one (Nat.le_max_right _ 1)) 0, rfl⟩

namespace Simulates

variable {l : RecencyList α β}

theorem capacity_eq (h : c.Simulates l) : c.capacity = l.capacity := by
  obtain ⟨uses, -, rfl⟩ := h
  rfl

theorem size_eq (h : c.Simulates l) : c.size = l.size := by
  obtain ⟨uses, h, rfl⟩ := h
  rw [h.size_eq]
  exact (List.length_map _).symm

theorem next (h : c.Simulates l) : c.next.Simulates l := by
  obtain ⟨uses, h, rfl⟩ := h
  exact ⟨uses, h.next, rfl⟩

theorem clear (h : c.Simulates l) : c.clear.Simulates l.clear := by
  obtain ⟨uses, h, rfl⟩ := h
  exact ⟨[], mirrors_empty h.capacity_pos 0, rfl⟩

variable [DecidableEq α]

theorem contains_eq (h : c.Simulates l) (a : α) : c.contains a = l.contains a := by
  obtain ⟨uses, h, rfl⟩ := h
  rw [Bool.eq_iff_iff, RecencyList.contains_iff, keys_map_pair, contains, Table.contains,
    Option.isSome_iff_ne_none, Ne, h.get?_entries_eq_none, not_not]

/-- **Both read the same**, and the cache still stands for the list. -/
theorem get (h : c.Simulates l) (a : α) :
    (c.get a).1 = (l.get a).1 ∧ (c.get a).2.Simulates (l.get a).2 := by
  obtain ⟨uses, h, rfl⟩ := h
  rcases RecencyList.get_cases ⟨c.capacity, uses.map Stamped.pair⟩ a with
    ⟨hnone, hlist⟩ | ⟨b, hmem, hlist⟩
  · rw [keys_map_pair] at hnone
    rw [h.get_of_notMem hnone, hlist]
    exact ⟨rfl, uses, h.next, rfl⟩
  · obtain ⟨u, hu, heq⟩ := List.mem_map.1 hmem
    cases heq
    obtain ⟨hvalue, huses⟩ := h.get_of_mem hu
    rw [hvalue, hlist]
    refine ⟨rfl, _, huses, ?_⟩
    rw [capacity_get, List.map_cons, RecencyList.without, List.filter_map]
    rfl

/-- **Both drop the same when an entry is put**, and the cache still stands for the list. -/
theorem put (h : c.Simulates l) (a : α) (b : β) :
    (c.put a b).1 = (l.put a b).1 ∧ (c.put a b).2.Simulates (l.put a b).2 := by
  obtain ⟨uses, h, rfl⟩ := h
  have hsize : RecencyList.size ⟨c.capacity, uses.map Stamped.pair⟩ = uses.length :=
    List.length_map _
  rcases RecencyList.put_cases ⟨c.capacity, uses.map Stamped.pair⟩ a b with
    ⟨hroom, hlist⟩ | ⟨hnew, hfull, hlist⟩
  · rw [keys_map_pair, hsize] at hroom
    obtain ⟨hdropped, huses⟩ := h.put_of_room hroom b
    rw [hdropped, hlist]
    refine ⟨rfl, _, huses, ?_⟩
    rw [capacity_put, List.map_cons, RecencyList.without, List.filter_map]
    rfl
  · rw [keys_map_pair] at hnew
    rw [hsize] at hfull
    -- There is an entry to drop, since the capacity is not zero.
    obtain rfl | ⟨init, last, rfl⟩ := List.eq_nil_or_concat' uses
    · exact absurd hfull (Nat.not_le.2 h.capacity_pos)
    obtain ⟨hdropped, huses⟩ := h.put_of_full hnew hfull b
    rw [hdropped, hlist, keys_map_pair, List.map_append, List.map_singleton, List.getLast?_concat]
    refine ⟨rfl, _, huses, ?_⟩
    rw [capacity_put, List.map_append, List.map_singleton, List.dropLast_concat]
    rfl

end Simulates

/-! ### Keys and values of a cache -/

/-- The keys that are present, in no particular order. -/
def keys (c : RecencyCache α β) : List α := c.entries.entries.map Prod.fst

section Keys

variable [DecidableEq α]

theorem contains_iff : c.contains a = true ↔ a ∈ c.keys := Table.isSome_get?_iff

/-- **What a reading can do.** It finds nothing, and only time passes; or it finds the value of the
key. -/
theorem get_cases (c : RecencyCache α β) (a : α) :
    (a ∉ c.keys ∧ c.get a = (none, c.next)) ∨ (a ∈ c.keys ∧ ∃ b, (c.get a).1 = some b) := by
  rw [← contains_iff, contains, Table.contains]
  cases hentry : c.entries.get? a with
  | none => exact .inl ⟨Bool.false_ne_true, by simp only [get, next, hentry]⟩
  | some e => exact .inr ⟨rfl, e.1, by simp only [get, next, hentry]⟩

theorem mem_keys_of_get (hget : (c.get a).1 = some b) : a ∈ c.keys := by
  rcases c.get_cases a with ⟨-, hnone⟩ | ⟨ha, -⟩
  · rw [hnone] at hget
    contradiction
  · exact ha

end Keys

/-- **A cache that follows the uses of keys** stands for a list that does. -/
def Tracks [DecidableEq α] (c : RecencyCache α β) (uses : List α) (latest : α → Option β) : Prop :=
  ∃ l, c.Simulates l ∧ l.Tracks uses latest

namespace Tracks

variable [DecidableEq α] {used : List α} {latest : α → Option β}

theorem size_eq (h : c.Tracks used latest) : c.size = min c.capacity used.toFinset.card := by
  obtain ⟨l, hl, h⟩ := h
  rw [hl.size_eq, hl.capacity_eq, h.size_eq]

theorem contains_iff (h : c.Tracks used latest) :
    c.contains a = true ↔ a ∈ used ∧ (used.takeWhile (· ≠ a)).toFinset.card < c.capacity := by
  obtain ⟨l, hl, h⟩ := h
  rw [hl.contains_eq, hl.capacity_eq, h.contains_iff]

theorem get_eq (h : c.Tracks used latest) (a : α) :
    (c.get a).1 = if c.contains a then latest a else none := by
  obtain ⟨l, hl, h⟩ := h
  rw [(hl.get a).1, hl.contains_eq, h.get_eq]

theorem next (h : c.Tracks used latest) : c.next.Tracks used latest := by
  obtain ⟨l, hl, h⟩ := h
  exact ⟨l, hl.next, h⟩

/-- A reading that finds something is a use. -/
theorem get (h : c.Tracks used latest) (hget : (c.get a).1 = some b) :
    (c.get a).2.Tracks (a :: used) latest ∧ (c.get a).2.size = c.size := by
  obtain ⟨l, hl, h⟩ := h
  obtain ⟨hanswer, hafter⟩ := hl.get a
  rw [hanswer] at hget
  exact ⟨⟨_, hafter, h.get hget⟩, hafter.size_eq.trans ((h.size_get hget).trans hl.size_eq.symm)⟩

/-- Putting is a use, and makes the value the latest one of its key. -/
theorem put (h : c.Tracks used latest) (a : α) (b : β) :
    (c.put a b).2.Tracks (a :: used) (Function.update latest a (some b)) := by
  obtain ⟨l, hl, h⟩ := h
  exact ⟨_, (hl.put a b).2, h.put a b⟩

/-- Putting a new key adds an entry, for which another one may be dropped. -/
theorem size_put (h : c.Tracks used latest) (ha : a ∉ c.keys) (b : β) :
    (c.put a b).2.size + (if (c.put a b).1.isSome then 1 else 0) = c.size + 1 := by
  obtain ⟨l, hl, h⟩ := h
  have ha' : a ∉ l.keys := by
    rwa [← RecencyList.contains_iff, ← hl.contains_eq, RecencyCache.contains_iff]
  rw [(hl.put a b).1, (hl.put a b).2.size_eq, hl.size_eq]
  exact RecencyList.size_put h.capacity_pos ha' b

end Tracks

theorem tracks_ofCapacity [DecidableEq α] (capacity : Nat) (latest : α → Option β) :
    (ofCapacity capacity : RecencyCache α β).Tracks [] latest :=
  ⟨_, simulates_ofCapacity capacity,
    RecencyList.tracks_nil (Nat.lt_of_lt_of_le Nat.zero_lt_one (Nat.le_max_right _ 1)) rfl _⟩

end RecencyCache

end Reckoner
