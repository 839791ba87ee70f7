import Mathlib.Data.Finset.Card
import Mathlib.Data.List.Basic

/-!
# What was used last

A cache that keeps its entries in one list, in the order of their last use (`RecencyList`), is simple:
what is used goes to the front, and what does not fit falls off the end. Which keys it holds is decided
by the uses of keys alone, in the order in which they happened. Bring the keys that have been used into
the order of their last use (`recency`); then the list holds the first of them, as many as its capacity
allows, in this order. From this one equation (`Tracks.keys_eq`) the rest is read off: a key is present
exactly if fewer distinct other keys than the capacity have been used since its own last use, and what
is dropped is the present key whose last use lies furthest back.

Both kinds of use do the same to the keys, a reading that finds something and a putting, whether or
not something has to be dropped: the key goes to the front, and what exceeds the capacity is cut off
(`take_recency_cons`).
-/

namespace Reckoner

/-! ### Keys in the order of their last use -/

section

variable {α : Type} [DecidableEq α] {uses : List α} {a : α} {n : Nat}

/-- The keys that have been used, in the order of their last use, the last one first. The uses are
given in the same direction, with all repetitions. -/
def recency : List α → List α
  | [] => []
  | a :: uses => a :: (recency uses).filter (· ≠ a)

@[simp]
theorem mem_recency : a ∈ recency uses ↔ a ∈ uses := by
  induction uses with
  | nil => rfl
  | cons b uses ih =>
    by_cases h : a = b <;> simp [recency, h, ih]

/-- The order of the keys is the one of their last uses. -/
theorem pairwise_recency (uses : List α) :
    (recency uses).Pairwise fun a b ↦ uses.idxOf a < uses.idxOf b := by
  induction uses with
  | nil => exact .nil
  | cons a uses ih =>
    have hne : ∀ b ∈ (recency uses).filter (· ≠ a), (a :: uses).idxOf b = uses.idxOf b + 1 := by
      intro b hb
      have hb : b ≠ a := by simpa using (List.mem_filter.1 hb).2
      exact List.idxOf_cons_ne uses hb.symm
    refine .cons (fun b hb ↦ ?_) ?_
    · rw [List.idxOf_cons_self, hne b hb]
      omega
    · refine (ih.filter _).imp_of_mem fun hb hc hlt ↦ ?_
      rw [hne _ hb, hne _ hc]
      omega

theorem nodup_recency (uses : List α) : (recency uses).Nodup :=
  (pairwise_recency uses).imp fun h heq ↦ h.ne (congrArg uses.idxOf heq)

theorem length_recency (uses : List α) : (recency uses).length = uses.toFinset.card := by
  rw [← List.toFinset_card_of_nodup (nodup_recency uses)]
  congr 1
  ext a
  simp

omit [DecidableEq α] in
/-- Cutting off at what fails the second test commutes with a filter that lets it pass. -/
theorem takeWhile_filter_of_imp {p q : α → Bool} (h : ∀ a, q a = false → p a = true) (l : List α) :
    (l.filter p).takeWhile q = (l.takeWhile q).filter p := by
  induction l with
  | nil => rfl
  | cons a l ih =>
    cases hq : q a with
    | false => simp [h a hq, hq]
    | true => cases hp : p a <;> simp [hp, hq, ih]

/-- The keys that stand before a key have been used after it, and no others have. -/
theorem takeWhile_recency (a : α) (uses : List α) :
    (recency uses).takeWhile (· ≠ a) = recency (uses.takeWhile (· ≠ a)) := by
  induction uses with
  | nil => rfl
  | cons b uses ih =>
    by_cases h : b = a
    · simp [recency, h]
    · have hpass : ∀ c, decide (c ≠ a) = false → decide (c ≠ b) = true := by
        intro c hc
        simp only [ne_eq, decide_not, Bool.not_eq_false', decide_eq_true_eq] at hc
        simpa [hc] using Ne.symm h
      rw [recency, List.takeWhile_cons_of_pos (by simpa using h), takeWhile_filter_of_imp hpass, ih,
        List.takeWhile_cons_of_pos (by simpa using h), recency]

theorem length_takeWhile_ne (a : α) (l : List α) : (l.takeWhile (· ≠ a)).length = l.idxOf a := by
  induction l with
  | nil => rfl
  | cons b l ih =>
    by_cases h : b = a
    · simp [h]
    · rw [List.takeWhile_cons_of_pos (by simpa using h), List.length_cons, ih,
        List.idxOf_cons_ne l h]

/-- Since the last use of a key, what stands in front of it has been used. -/
theorem takeWhile_ne_append {l : List α} (h : a ∉ l) (rest : List α) :
    (l ++ a :: rest).takeWhile (· ≠ a) = l := by
  have hne : ∀ b ∈ l, decide (b ≠ a) = true := fun b hb ↦ decide_eq_true fun heq ↦ h (heq ▸ hb)
  rw [List.takeWhile_append_of_pos hne, List.takeWhile_cons_of_neg (by simp), List.append_nil]

omit [DecidableEq α] in
/-- The last element of a strictly increasing list is its greatest. -/
theorem getLast?_eq_some_iff_of_pairwise {f : α → Nat} {l : List α}
    (h : l.Pairwise (f · < f ·)) {a : α} :
    l.getLast? = some a ↔ a ∈ l ∧ ∀ b ∈ l, f b ≤ f a := by
  rcases List.eq_nil_or_concat' l with rfl | ⟨init, last, rfl⟩
  · simp
  · have hsplit := List.pairwise_append.1 h
    have hlt : ∀ b ∈ init, f b < f last := fun b hb ↦ hsplit.2.2 b hb last List.mem_cons_self
    rw [List.getLast?_append, List.getLast?_singleton, Option.some_or, Option.some.injEq]
    constructor
    · rintro rfl
      refine ⟨by simp, fun b hb ↦ ?_⟩
      rcases List.mem_append.1 hb with hb | hb
      · exact (hlt b hb).le
      · rw [List.mem_singleton.1 hb]
    · rintro ⟨ha, hmax⟩
      rcases List.mem_append.1 ha with ha | ha
      · have hle := hmax last (by simp)
        exact absurd hle (hlt a ha).not_ge
      · exact (List.mem_singleton.1 ha).symm

/-- A key is among the first `n` exactly if fewer than `n` others have been used after it. -/
theorem mem_take_recency :
    a ∈ (recency uses).take n ↔
      a ∈ uses ∧ (uses.takeWhile (· ≠ a)).toFinset.card < n := by
  rw [← length_recency, ← takeWhile_recency, length_takeWhile_ne]
  constructor
  · intro h
    have ha := List.mem_of_mem_take h
    exact ⟨mem_recency.1 ha, (List.mem_take_iff_idxOf_lt ha).1 h⟩
  · rintro ⟨ha, hlt⟩
    exact (List.mem_take_iff_idxOf_lt (mem_recency.2 ha)).2 hlt

/-- Dropping one key makes room for at most one. -/
theorem length_le_filter_ne {l : List α} (h : l.Nodup) (a : α) :
    l.length ≤ (l.filter (· ≠ a)).length + 1 := by
  have herase : l.filter (· ≠ a) = l.erase a := by
    rw [h.erase_eq_filter]
    simp only [ne_eq, bne, beq_eq_decide, decide_not]
  rw [herase, List.length_erase]
  split <;> omega

/-- **What a use does to the first keys**: the key goes to their front, and what exceeds their number
is cut off. -/
theorem take_recency_cons (a : α) (uses : List α) {n : Nat} (hn : 0 < n) :
    (recency (a :: uses)).take n = (a :: ((recency uses).take n).filter (· ≠ a)).take n := by
  obtain ⟨m, rfl⟩ := Nat.exists_eq_succ_of_ne_zero hn.ne'
  rw [recency, List.take_succ_cons, List.take_succ_cons]
  congr 1
  -- Beyond the first `m + 1` keys nothing counts, since at most one of these is dropped.
  rcases Nat.lt_or_ge (recency uses).length (m + 1) with hlt | hge
  · rw [List.take_of_length_le hlt.le]
  · have hnodup := (nodup_recency uses).sublist (List.take_sublist (m + 1) (recency uses))
    have hlength := length_le_filter_ne hnodup a
    rw [List.length_take, Nat.min_eq_left hge] at hlength
    conv_lhs => rw [← List.take_append_drop (m + 1) (recency uses), List.filter_append]
    rw [List.take_append_of_le_length (by omega)]

end

/-! ### Entries in the order of their last use -/

/-- Entries in the order of their last use. -/
structure RecencyList (α β : Type) where
  capacity : Nat
  /-- The entries, most recently used first. -/
  entries : List (α × β)

namespace RecencyList

variable {α β : Type}

/-- The list without entries; a capacity of zero counts as one. -/
def ofCapacity (capacity : Nat) : RecencyList α β := ⟨max capacity 1, []⟩

/-- The number of entries. -/
def size (c : RecencyList α β) : Nat := c.entries.length

/-- Drops all entries. -/
def clear (c : RecencyList α β) : RecencyList α β := { c with entries := [] }

variable [DecidableEq α]

/-- Whether a key is present. Asking is not a use. -/
def contains (c : RecencyList α β) (a : α) : Bool := c.entries.any (·.1 = a)

/-- The entries but for the one of a key. -/
def without (c : RecencyList α β) (a : α) : List (α × β) := c.entries.filter (·.1 ≠ a)

/-- The value of a key, which becomes the most recently used one if it is present. -/
def get (c : RecencyList α β) (a : α) : Option β × RecencyList α β :=
  match c.entries.find? (·.1 = a) with
  | some (_, b) => (some b, { c with entries := (a, b) :: c.without a })
  | none => (none, c)

/-- Sets the value of a key, which becomes the most recently used one. If the key is new and the list
is full, the last key is dropped and given back. -/
def put (c : RecencyList α β) (a : α) (b : β) : Option α × RecencyList α β :=
  if c.contains a || c.size < c.capacity then
    (none, { c with entries := (a, b) :: c.without a })
  else
    (c.entries.getLast?.map (·.1), { c with entries := (a, b) :: c.entries.dropLast })

section

variable {c : RecencyList α β} {uses : List α} {latest : α → Option β} {a : α} {b : β}

omit [DecidableEq α] in
/-- The keys that are present, the one that was used last first. -/
def keys (c : RecencyList α β) : List α := c.entries.map Prod.fst

omit [DecidableEq α] in
theorem length_keys (c : RecencyList α β) : c.keys.length = c.size := List.length_map _

theorem contains_iff : c.contains a = true ↔ a ∈ c.keys := by
  simp [contains, keys]

theorem keys_without (c : RecencyList α β) (a : α) :
    (c.without a).map Prod.fst = c.keys.filter (· ≠ a) := by
  rw [without, keys, List.filter_map]
  rfl

/-- **What a reading can do.** It finds nothing and leaves the list alone, or it finds the value of
an entry, which comes to the front. -/
theorem get_cases (c : RecencyList α β) (a : α) :
    (a ∉ c.keys ∧ c.get a = (none, c)) ∨
      ∃ b, (a, b) ∈ c.entries ∧
        c.get a = (some b, { c with entries := (a, b) :: c.without a }) := by
  rw [get]
  split
  · rename_i a' b hfind
    obtain rfl : a' = a := by simpa using List.find?_some hfind
    exact .inr ⟨b, List.mem_of_find?_eq_some hfind, rfl⟩
  · rename_i hfind
    refine .inl ⟨fun ha ↦ ?_, rfl⟩
    obtain ⟨⟨a', b⟩, hmem, rfl⟩ := List.mem_map.1 ha
    simpa using List.find?_eq_none.1 hfind _ hmem

/-- **What a putting can do.** If the key is present or there is room, nothing is dropped; else the
last key is. -/
theorem put_cases (c : RecencyList α β) (a : α) (b : β) :
    ((a ∈ c.keys ∨ c.size < c.capacity) ∧
        c.put a b = (none, { c with entries := (a, b) :: c.without a })) ∨
      (a ∉ c.keys ∧ c.capacity ≤ c.size ∧
        c.put a b = (c.keys.getLast?, { c with entries := (a, b) :: c.entries.dropLast })) := by
  rw [put, keys, List.getLast?_map]
  by_cases ha : a ∈ c.keys
  · exact .inl ⟨.inl ha, if_pos (by simp [contains_iff.2 ha])⟩
  · have hcontains : c.contains a = false := Bool.eq_false_iff.2 fun h ↦ ha (contains_iff.1 h)
    by_cases hroom : c.size < c.capacity
    · exact .inl ⟨.inr hroom, if_pos (by simp [hroom])⟩
    · exact .inr ⟨ha, by omega, if_neg (by simp [hcontains, hroom])⟩

/-- **A list that follows the uses of keys.** Its keys are the ones that were used last, and their
values the latest ones. -/
structure Tracks (c : RecencyList α β) (uses : List α) (latest : α → Option β) : Prop where
  capacity_pos : 0 < c.capacity
  keys_eq : c.keys = (recency uses).take c.capacity
  latest_eq : ∀ a b, (a, b) ∈ c.entries → latest a = some b

theorem tracks_nil (hcapacity : 0 < c.capacity) (hentries : c.entries = [])
    (latest : α → Option β) : c.Tracks [] latest where
  capacity_pos := hcapacity
  keys_eq := by rw [keys, hentries, recency, List.map_nil, List.take_nil]
  latest_eq a b h := by
    rw [hentries] at h
    exact absurd h List.not_mem_nil

namespace Tracks

theorem size_eq (h : c.Tracks uses latest) : c.size = min c.capacity uses.toFinset.card := by
  rw [← length_keys, h.keys_eq, List.length_take, length_recency]

/-- A key is present exactly if fewer others than the capacity have been used after it. -/
theorem contains_iff (h : c.Tracks uses latest) :
    c.contains a = true ↔ a ∈ uses ∧ (uses.takeWhile (· ≠ a)).toFinset.card < c.capacity := by
  rw [RecencyList.contains_iff, h.keys_eq, mem_take_recency]

theorem get_eq (h : c.Tracks uses latest) (a : α) :
    (c.get a).1 = if c.contains a then latest a else none := by
  rcases c.get_cases a with ⟨hnone, hget⟩ | ⟨b, hmem, hget⟩
  · rw [hget, if_neg fun hc ↦ hnone (RecencyList.contains_iff.1 hc)]
  · have ha : a ∈ c.keys := List.mem_map.2 ⟨(a, b), hmem, rfl⟩
    rw [hget, if_pos (RecencyList.contains_iff.2 ha), h.latest_eq a b hmem]

/-- The keys after a use, if nothing has to be dropped. -/
theorem keys_of_room (h : c.Tracks uses latest) (b : β)
    (hroom : a ∈ c.keys ∨ c.size < c.capacity) :
    ({ c with entries := (a, b) :: c.without a } : RecencyList α β).keys =
      (recency (a :: uses)).take c.capacity := by
  rw [take_recency_cons a uses h.capacity_pos, ← h.keys_eq, keys, List.map_cons, keys_without,
    List.take_of_length_le]
  have hsize := h.size_eq
  rw [List.length_cons]
  rcases hroom with ha | hlt
  · have hfilter : (c.keys.filter (· ≠ a)).length < c.keys.length :=
      List.length_filter_lt_length_iff_exists.2 ⟨a, ha, by simp⟩
    rw [length_keys] at hfilter
    omega
  · have hfilter := List.length_filter_le (· ≠ a) c.keys
    rw [length_keys] at hfilter
    omega

/-- A reading that finds something is a use. -/
theorem get (h : c.Tracks uses latest) (hget : (c.get a).1 = some b) :
    (c.get a).2.Tracks (a :: uses) latest := by
  rcases c.get_cases a with ⟨-, heq⟩ | ⟨b', hmem, heq⟩
  · rw [heq] at hget
    contradiction
  · rw [heq]
    refine ⟨h.capacity_pos, h.keys_of_room b' (.inl (List.mem_map.2 ⟨_, hmem, rfl⟩)), ?_⟩
    intro a' b'' hmem'
    rcases List.mem_cons.1 hmem' with hpair | hmem'
    · obtain ⟨rfl, rfl⟩ := Prod.mk.inj hpair
      exact h.latest_eq _ _ hmem
    · exact h.latest_eq _ _ (List.mem_of_mem_filter hmem')

/-- Putting is a use, and makes the value the latest one of its key. -/
theorem put (h : c.Tracks uses latest) (a : α) (b : β) :
    (c.put a b).2.Tracks (a :: uses) (Function.update latest a (some b)) := by
  have hlatest : ∀ a' b', a' ≠ a → (a', b') ∈ c.entries →
      Function.update latest a (some b) a' = some b' := by
    intro a' b' hne hmem
    rw [Function.update_of_ne hne]
    exact h.latest_eq a' b' hmem
  rcases c.put_cases a b with ⟨hroom, heq⟩ | ⟨ha, hfull, heq⟩ <;> rw [heq]
  · refine ⟨h.capacity_pos, h.keys_of_room b hroom, fun a' b' hmem ↦ ?_⟩
    rcases List.mem_cons.1 hmem with hpair | hmem
    · obtain ⟨rfl, rfl⟩ := Prod.mk.inj hpair
      exact Function.update_self _ _ _
    · obtain ⟨hmem, hne⟩ := List.mem_filter.1 hmem
      exact hlatest a' b' (by simpa using hne) hmem
  · refine ⟨h.capacity_pos, ?_, fun a' b' hmem ↦ ?_⟩
    · -- The key is new, so the cut takes away the last key and nothing else.
      have hsame : c.keys.filter (· ≠ a) = c.keys := by
        refine List.filter_eq_self.2 fun a' ha' ↦ ?_
        simpa using fun heq : a' = a ↦ ha (heq ▸ ha')
      have hlength : c.keys.length = c.capacity := by
        have hsize := h.size_eq
        rw [length_keys]
        omega
      obtain ⟨m, hm⟩ := Nat.exists_eq_succ_of_ne_zero h.capacity_pos.ne'
      dsimp only
      rw [take_recency_cons a uses h.capacity_pos, ← h.keys_eq, hsame, hm, List.take_succ_cons,
        keys, List.map_cons, List.map_dropLast, List.dropLast_eq_take, ← keys, hlength, hm,
        Nat.succ_sub_one]
    · rcases List.mem_cons.1 hmem with hpair | hmem
      · obtain ⟨rfl, rfl⟩ := Prod.mk.inj hpair
        exact Function.update_self _ _ _
      · have hmem := List.dropLast_subset _ hmem
        refine hlatest a' b' (fun heq ↦ ha ?_) hmem
        exact List.mem_map.2 ⟨(a', b'), hmem, heq⟩

/-- Putting drops a key exactly if the key is new and the list is full, and then the present one whose
last use lies furthest back. -/
theorem put_eq_some_iff (h : c.Tracks uses latest) (a : α) (b : β) (k : α) :
    (c.put a b).1 = some k ↔
      (c.contains a = false ∧ c.size = c.capacity) ∧
        c.contains k = true ∧ ∀ k', c.contains k' = true → uses.idxOf k' ≤ uses.idxOf k := by
  have horder : c.keys.Pairwise (uses.idxOf · < uses.idxOf ·) := by
    rw [h.keys_eq]
    exact (pairwise_recency uses).sublist (List.take_sublist _ _)
  simp only [RecencyList.contains_iff, ← Bool.not_eq_true]
  rcases c.put_cases a b with ⟨hroom, heq⟩ | ⟨ha, hfull, heq⟩
  · rw [heq]
    refine iff_of_false nofun fun hk ↦ ?_
    rcases hroom with ha | hlt
    · exact hk.1.1 ha
    · exact hlt.ne hk.1.2
  · have hsize := h.size_eq
    have hcase : a ∉ c.keys ∧ c.size = c.capacity := ⟨ha, by omega⟩
    rw [heq, and_iff_right hcase]
    exact getLast?_eq_some_iff_of_pairwise horder

/-- A reading that finds something keeps the number of entries. -/
theorem size_get (h : c.Tracks uses latest) (hget : (c.get a).1 = some b) :
    (c.get a).2.size = c.size := by
  have hcapacity : (c.get a).2.capacity = c.capacity := by
    rcases c.get_cases a with ⟨-, heq⟩ | ⟨b, -, heq⟩ <;> rw [heq]
  have hused : a ∈ uses := by
    rw [h.get_eq] at hget
    split at hget
    · rename_i hc
      exact (h.contains_iff.1 hc).1
    · contradiction
  rw [(h.get hget).size_eq, h.size_eq, hcapacity, List.toFinset_cons,
    Finset.insert_eq_of_mem (List.mem_toFinset.2 hused)]

end Tracks

/-- Putting a new key adds an entry, for which another one may be dropped. -/
theorem size_put (hcapacity : 0 < c.capacity) (ha : a ∉ c.keys) (b : β) :
    (c.put a b).2.size + (if (c.put a b).1.isSome then 1 else 0) = c.size + 1 := by
  rcases c.put_cases a b with ⟨-, heq⟩ | ⟨-, hfull, heq⟩
  · have hsame : c.without a = c.entries := by
      refine List.filter_eq_self.2 fun e he ↦ ?_
      simpa using fun heq : e.1 = a ↦ ha (List.mem_map.2 ⟨e, he, heq⟩)
    rw [heq, hsame]
    rfl
  · have hne : c.keys ≠ [] := fun hnil ↦ by
      rw [← length_keys, hnil, List.length_nil] at hfull
      omega
    have hsome : c.keys.getLast?.isSome = true := by
      rw [List.getLast?_eq_some_getLast hne]
      rfl
    rw [heq, hsome, if_pos rfl]
    simp only [size, List.length_cons, List.length_dropLast]
    rw [← length_keys] at hfull
    simp only [keys, List.length_map] at hfull
    omega

end

end RecencyList

end Reckoner
