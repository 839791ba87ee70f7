import Reckoner.Proofs.TickOrder

/-!
# A cache holds what was used last

The laws of a cache (`RecencyCache.Exact`) are stated for its trace, which is everything that it has been
asked and has answered since it was made. Two runs stand behind them. In one a list is asked, which is
kept in the order of use, and the keys and values that it holds are those of its trace (`Follows`). In
the other one a cache is asked the same, and answers the same (`simulates_run`): so the two have one
trace, and what the list holds is what the cache holds.
-/

namespace Reckoner

namespace RecencyCache

/-- A request to a cache. -/
inductive Request (α β : Type) where
  | get (a : α)
  | put (a : α) (b : β)
  | contains (a : α)
  | clear

/-- What a cache answers. -/
inductive Answer (α β : Type) where
  | value (found : Option β)
  | evicted (dropped : Option α)
  | present (found : Bool)
  | cleared

/-- A request that has been answered. -/
structure Step (α β : Type) where
  request : Request α β
  answer : Answer α β

namespace Step

variable {α β : Type}

/-- The key that a step uses: one that is put, or one whose value is found. -/
def use? : Step α β → Option α
  | ⟨.put a _, _⟩ => some a
  | ⟨.get a, .value (some _)⟩ => some a
  | _ => none

/-- The entry that a step puts. -/
def put? : Step α β → Option (α × β)
  | ⟨.put a b, _⟩ => some (a, b)
  | _ => none

/-- Whether a step drops all entries. -/
def clears : Step α β → Bool
  | ⟨.clear, _⟩ => true
  | _ => false

end Step

end RecencyCache

open RecencyCache (Request Answer Step)

variable {α β γ : Type}

/-! ### Traces -/

/-- What is asked, with all that it has been asked and has answered, the last step first. -/
structure Trace (γ α β : Type) where
  cache : γ
  steps : List (Step α β)

namespace Trace

/-- The trace after one more request. -/
def ask (perform : γ → Request α β → Answer α β × γ) (t : Trace γ α β) (request : Request α β) :
    Trace γ α β :=
  ⟨(perform t.cache request).2, ⟨request, (perform t.cache request).1⟩ :: t.steps⟩

/-- **The trace of some requests.** -/
def run (perform : γ → Request α β → Answer α β × γ) (start : γ) (requests : List (Request α β)) :
    Trace γ α β :=
  requests.foldl (ask perform) ⟨start, []⟩

theorem run_concat (perform : γ → Request α β → Answer α β × γ) (start : γ)
    (requests : List (Request α β)) (request : Request α β) :
    run perform start (requests ++ [request]) = (run perform start requests).ask perform request :=
  List.foldl_concat ..

/-- The steps since the entries were dropped for the last time. -/
def sinceClear (t : Trace γ α β) : List (Step α β) := t.steps.takeWhile (!·.clears)

/-- The keys that have been used since then, the last one first. -/
def uses (t : Trace γ α β) : List α := t.sinceClear.filterMap Step.use?

/-- The entries that have been put since then, the last one first. -/
def puts (t : Trace γ α β) : List (α × β) := t.sinceClear.filterMap Step.put?

/-- The value of a key that has been put last. -/
def latest [DecidableEq α] (t : Trace γ α β) (a : α) : Option β := t.puts.lookup a

section

variable (perform : γ → Request α β → Answer α β × γ) (t : Trace γ α β) (request : Request α β)

theorem sinceClear_ask (h : request ≠ .clear) :
    (t.ask perform request).sinceClear =
      ⟨request, (perform t.cache request).1⟩ :: t.sinceClear := by
  rw [sinceClear, ask, List.takeWhile_cons_of_pos, sinceClear]
  cases request with
  | clear => exact absurd rfl h
  | _ => rfl

theorem uses_ask (h : request ≠ .clear) :
    (t.ask perform request).uses =
      (Step.use? ⟨request, (perform t.cache request).1⟩).toList ++ t.uses := by
  rw [uses, sinceClear_ask perform t request h, List.filterMap_cons, uses]
  split <;> rename_i heq <;> rw [heq] <;> rfl

theorem puts_ask (h : request ≠ .clear) :
    (t.ask perform request).puts =
      (Step.put? ⟨request, (perform t.cache request).1⟩).toList ++ t.puts := by
  rw [puts, sinceClear_ask perform t request h, List.filterMap_cons, puts]
  split <;> rename_i heq <;> rw [heq] <;> rfl

theorem latest_ask_put [DecidableEq α] (a : α) (b : β) :
    (t.ask perform (.put a b)).latest = Function.update t.latest a (some b) := by
  have hputs : (t.ask perform (.put a b)).puts = (a, b) :: t.puts :=
    t.puts_ask perform (.put a b) nofun
  funext k
  by_cases h : k = a
  · rw [h, Function.update_self, latest, hputs, List.lookup_cons_self]
  · rw [Function.update_of_ne h, latest, hputs, List.lookup_cons, beq_false_of_ne h]
    rfl

end

end Trace

/-! ### Requests to a list -/

namespace RecencyList

variable [DecidableEq α] {capacity : Nat} {t : Trace (RecencyList α β) α β}

/-- Performs a request: the answer, and the list after it. -/
def perform (l : RecencyList α β) : Request α β → Answer α β × RecencyList α β
  | .get a => (.value (l.get a).1, (l.get a).2)
  | .put a b => (.evicted (l.put a b).1, (l.put a b).2)
  | .contains a => (.present (l.contains a), l)
  | .clear => (.cleared, l.clear)

theorem capacity_perform (l : RecencyList α β) (request : Request α β) :
    (l.perform request).2.capacity = l.capacity := by
  cases request with
  | get a => rcases l.get_cases a with ⟨-, heq⟩ | ⟨b, -, heq⟩ <;> rw [perform, heq]
  | put a b => rcases l.put_cases a b with ⟨-, heq⟩ | ⟨-, -, heq⟩ <;> rw [perform, heq]
  | contains a => rfl
  | clear => rfl

/-- The trace of some requests to a new list. -/
def run (capacity : Nat) (requests : List (Request α β)) : Trace (RecencyList α β) α β :=
  .run perform (.ofCapacity capacity) requests

/-- The invariant of traces: the list follows the uses, which are those of the keys that have been
put. -/
structure Follows (capacity : Nat) (t : Trace (RecencyList α β) α β) : Prop where
  tracks : t.cache.Tracks t.uses t.latest
  capacity_eq : t.cache.capacity = max capacity 1
  mem_uses : ∀ a, a ∈ t.uses ↔ ∃ b, (a, b) ∈ t.puts

theorem follows_nil (capacity : Nat) :
    Follows capacity (run capacity [] : Trace (RecencyList α β) α β) where
  tracks := tracks_nil (Nat.lt_of_lt_of_le Nat.zero_lt_one (Nat.le_max_right _ 1)) rfl _
  capacity_eq := rfl
  mem_uses _ := iff_of_false List.not_mem_nil fun ⟨_, h⟩ ↦ List.not_mem_nil h

theorem Follows.ask (h : Follows capacity t) (request : Request α β) :
    Follows capacity (t.ask perform request) := by
  have hcapacity : (t.ask perform request).cache.capacity = max capacity 1 :=
    (t.cache.capacity_perform request).trans h.capacity_eq
  -- A request that is no use and does not clear leaves everything as it was.
  have hsame (hcache : (t.ask perform request).cache = t.cache)
      (huses : (t.ask perform request).uses = t.uses)
      (hputs : (t.ask perform request).puts = t.puts) :
      Follows capacity (t.ask perform request) := by
    have hlatest : (t.ask perform request).latest = t.latest := funext fun a ↦ by
      rw [Trace.latest, Trace.latest, hputs]
    refine ⟨?_, hcapacity, ?_⟩
    · rw [hcache, huses, hlatest]
      exact h.tracks
    · rw [huses, hputs]
      exact h.mem_uses
  cases request with
  | get a =>
    have huses := t.uses_ask perform (.get a) nofun
    have hputs : (t.ask perform (.get a)).puts = t.puts := t.puts_ask perform (.get a) nofun
    rcases t.cache.get_cases a with ⟨-, hget⟩ | ⟨b, hmem, hget⟩
    · refine hsame ?_ ?_ hputs
      · rw [Trace.ask, perform, hget]
      · rw [huses, perform, hget]
        rfl
    · have huse : (t.ask perform (.get a)).uses = a :: t.uses := by
        rw [huses, perform, hget]
        rfl
      have hlatest : (t.ask perform (.get a)).latest = t.latest := funext fun a' ↦ by
        rw [Trace.latest, Trace.latest, hputs]
      have ha : a ∈ t.cache.keys := List.mem_map.2 ⟨(a, b), hmem, rfl⟩
      have hused := (h.tracks.contains_iff.1 (contains_iff.2 ha)).1
      refine ⟨?_, hcapacity, fun a' ↦ ?_⟩
      · rw [huse, hlatest]
        exact h.tracks.get (congrArg Prod.fst hget)
      · rw [huse, hputs, ← h.mem_uses, List.mem_cons, or_iff_right_of_imp]
        rintro rfl
        exact hused
  | put a b =>
    have huses : (t.ask perform (.put a b)).uses = a :: t.uses :=
      t.uses_ask perform (.put a b) nofun
    have hputs : (t.ask perform (.put a b)).puts = (a, b) :: t.puts :=
      t.puts_ask perform (.put a b) nofun
    refine ⟨?_, hcapacity, fun a' ↦ ?_⟩
    · rw [huses, Trace.latest_ask_put]
      exact h.tracks.put a b
    · rw [huses, hputs, List.mem_cons, h.mem_uses]
      simp only [List.mem_cons, Prod.mk.injEq, exists_or, exists_and_left, exists_eq, and_true]
  | contains a =>
    exact hsame rfl (t.uses_ask perform (.contains a) nofun)
      (t.puts_ask perform (.contains a) nofun)
  | clear =>
    have huses : (t.ask perform .clear).uses = [] := rfl
    have hputs : (t.ask perform .clear).puts = [] := rfl
    refine ⟨?_, hcapacity, fun a ↦ by simp [huses, hputs]⟩
    have hpos : 0 < t.cache.clear.capacity := h.tracks.capacity_pos
    rw [huses]
    exact tracks_nil hpos rfl _

theorem follows_run (capacity : Nat) (requests : List (Request α β)) :
    Follows capacity (run capacity requests) := by
  induction requests using List.reverseRecOn with
  | nil => exact follows_nil capacity
  | append_singleton requests request ih =>
    rw [run, Trace.run_concat]
    exact ih.ask request

end RecencyList

/-! ### Requests to a cache -/

namespace RecencyCache

variable [DecidableEq α]

/-- Performs a request: the answer, and the cache after it. -/
def perform (c : RecencyCache α β) : Request α β → Answer α β × RecencyCache α β
  | .get a => (.value (c.get a).1, (c.get a).2)
  | .put a b => (.evicted (c.put a b).1, (c.put a b).2)
  | .contains a => (.present (c.contains a), c)
  | .clear => (.cleared, c.clear)

/-- **The trace of some requests** to a new cache. -/
def run (capacity : Nat) (requests : List (Request α β)) : Trace (RecencyCache α β) α β :=
  .run perform (.ofCapacity capacity) requests

/-- **One request**: the cache answers as the list does, and still stands for it. -/
theorem Simulates.perform {c : RecencyCache α β} {l : RecencyList α β} (h : c.Simulates l)
    (request : Request α β) :
    (c.perform request).1 = (l.perform request).1 ∧
      (c.perform request).2.Simulates (l.perform request).2 := by
  cases request with
  | get a =>
    obtain ⟨hanswer, hafter⟩ := h.get a
    exact ⟨congrArg Answer.value hanswer, hafter⟩
  | put a b =>
    obtain ⟨hanswer, hafter⟩ := h.put a b
    exact ⟨congrArg Answer.evicted hanswer, hafter⟩
  | contains a => exact ⟨congrArg Answer.present (h.contains_eq a), h⟩
  | clear => exact ⟨rfl, h.clear⟩

/-- **All requests**: a cache and a list that are asked the same answer the same. -/
theorem simulates_run (capacity : Nat) (requests : List (Request α β)) :
    (run capacity requests).cache.Simulates (RecencyList.run capacity requests).cache ∧
      (run capacity requests).steps = (RecencyList.run capacity requests).steps := by
  induction requests using List.reverseRecOn with
  | nil => exact ⟨simulates_ofCapacity capacity, rfl⟩
  | append_singleton requests request ih =>
    obtain ⟨hsimulates, hsteps⟩ := ih
    obtain ⟨hanswer, hafter⟩ := hsimulates.perform request
    rw [run, RecencyList.run, Trace.run_concat, Trace.run_concat]
    exact ⟨hafter, congrArg₂ List.cons (congrArg (Step.mk request) hanswer) hsteps⟩

/-! ### Ticks -/

/-- A request takes at most one tick. -/
theorem tick_perform_le (c : RecencyCache α β) (request : Request α β) :
    (c.perform request).2.tick ≤ c.tick + 1 := by
  cases request with
  | get a =>
    simp only [perform, get]
    split <;> exact Nat.le_refl _
  | put a b =>
    obtain ⟨entries, order, hroom⟩ := c.next.makeRoom_eq a
    show (c.next.makeRoom a).2.tick ≤ _
    rw [hroom]
    exact Nat.le_refl _
  | contains a => exact Nat.le_succ _
  | clear => exact Nat.zero_le _

theorem tick_run_le (capacity : Nat) (requests : List (Request α β)) :
    (run capacity requests).cache.tick ≤ (run capacity requests).steps.length := by
  induction requests using List.reverseRecOn with
  | nil => exact Nat.le_refl 0
  | append_singleton requests request ih =>
    rw [run, Trace.run_concat]
    exact (tick_perform_le _ request).trans (Nat.succ_le_succ ih)

/-! ### The laws -/

/-- **The laws of a cache**, in terms of what it has been asked. -/
structure Exact (capacity : Nat) (t : Trace (RecencyCache α β) α β) : Prop where
  /-- A key is present if it has been put, and fewer distinct other keys than the capacity have been
  used since its own last use. -/
  contains : ∀ a, t.cache.contains a = true ↔
    (∃ b, (a, b) ∈ t.puts) ∧ (t.uses.takeWhile (· ≠ a)).toFinset.card < max capacity 1
  /-- A key that is present has the value that was put last, and no other key has one. -/
  get : ∀ a, (t.cache.get a).1 = if t.cache.contains a then t.latest a else none
  /-- As many keys are present as have been put, up to the capacity. -/
  size : t.cache.size = min (max capacity 1) (t.puts.map Prod.fst).toFinset.card
  /-- Putting a key drops one exactly if the key is new and the cache is full, and then the present
  one whose last use lies furthest back. -/
  put : ∀ a b k, (t.cache.put a b).1 = some k ↔
    (t.cache.contains a = false ∧ t.cache.size = max capacity 1) ∧
      t.cache.contains k = true ∧ ∀ k', t.cache.contains k' = true → t.uses.idxOf k' ≤ t.uses.idxOf k
  /-- Asking whether a key is present changes nothing. -/
  contains_keeps : ∀ a, (t.ask perform (.contains a)).cache = t.cache
  /-- Reading a key that is not present changes neither entries nor ticks of uses. -/
  get_keeps : ∀ a, t.cache.contains a = false →
    (t.ask perform (.get a)).cache.entries = t.cache.entries ∧
      (t.ask perform (.get a)).cache.order = t.cache.order
  /-- The two tables mirror each other: a tick leads to the key whose last use it belongs to. -/
  mirrored : ∀ n a, t.cache.order.get? n = some a ↔ ∃ b, t.cache.entries.get? a = some (b, n)
  /-- There are at most as many ticks as requests: the ticks of fewer than `2 ^ 64` requests are numbers
  of 64 bits. -/
  tick_le : t.cache.tick ≤ t.steps.length

/-- **A cache holds exactly what was used last**, whatever it is asked, and in whatever order. A
capacity of zero counts as one. -/
theorem exact_run (capacity : Nat) (requests : List (Request α β)) :
    Exact capacity (run capacity requests) := by
  have htick := tick_run_le capacity requests
  have hl := RecencyList.follows_run capacity requests
  obtain ⟨h, hsteps⟩ := simulates_run capacity requests
  generalize run capacity requests = t at h hsteps htick ⊢
  generalize RecencyList.run capacity requests = t' at hl h hsteps
  obtain ⟨c, steps⟩ := t
  obtain ⟨l, steps'⟩ := t'
  obtain rfl : steps = steps' := hsteps
  constructor
  case contains =>
    intro a
    rw [h.contains_eq, hl.tracks.contains_iff, hl.mem_uses, hl.capacity_eq]
    rfl
  case get =>
    intro a
    rw [(h.get a).1, h.contains_eq]
    exact hl.tracks.get_eq a
  case size =>
    have hkeys : (Trace.uses ⟨l, steps⟩).toFinset =
        ((Trace.puts ⟨l, steps⟩).map Prod.fst).toFinset := by
      ext a
      simp [hl.mem_uses]
    rw [h.size_eq, hl.tracks.size_eq, hl.capacity_eq, hkeys]
    rfl
  case put =>
    intro a b k
    rw [(h.put a b).1, hl.tracks.put_eq_some_iff, hl.capacity_eq]
    simp only [h.contains_eq, h.size_eq]
    rfl
  case contains_keeps => exact fun _ ↦ rfl
  case get_keeps =>
    intro a ha
    rcases c.get_cases a with ⟨-, hget⟩ | ⟨hkey, -⟩
    · rw [Trace.ask, perform, hget]
      exact ⟨rfl, rfl⟩
    · rw [RecencyCache.contains_iff.2 hkey] at ha
      contradiction
  case mirrored =>
    obtain ⟨uses, hmirrors, -⟩ := h
    exact fun _ _ ↦ hmirrors.get?_order_iff
  case tick_le => exact htick

end RecencyCache

end Reckoner
