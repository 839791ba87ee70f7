import Mathlib.Data.List.Nodup
import Mathlib.Data.List.Perm.Basic
import Reckoner.Table

/-!
# Tables with distinct keys

Every table that is made by insertions has distinct keys. Then the order of its entries does not show:
the value of a key is the one that stands beside it (`Table.Distinct.get?_eq_some_iff`), setting a value
is taking the key away and putting it in front (`Table.Distinct.perm_insert`), and there is only one
entry that can be the first one (`Table.first?_eq_some`).
-/

namespace Reckoner

namespace Table

variable {α β : Type}

/-- **The keys of a table are distinct.** -/
def Distinct (t : Table α β) : Prop := (t.entries.map Prod.fst).Nodup

theorem distinct_empty : (empty : Table α β).Distinct := List.nodup_nil

variable [DecidableEq α] {t : Table α β} {entries : List (α × β)} {a : α}

theorem lookup_eq_none_iff : lookup a entries = none ↔ a ∉ entries.map Prod.fst := by
  induction entries with
  | nil => exact iff_of_true rfl List.not_mem_nil
  | cons e rest ih =>
    rw [lookup, List.map_cons, List.mem_cons, not_or, ← ih]
    by_cases h : e.1 = a
    · rw [if_pos h]
      exact iff_of_false (Option.some_ne_none _) fun hne ↦ hne.1 h.symm
    · rw [if_neg h]
      exact ⟨fun hrest ↦ ⟨Ne.symm h, hrest⟩, And.right⟩

theorem isSome_get?_iff : (t.get? a).isSome ↔ a ∈ t.entries.map Prod.fst := by
  rw [get?, Option.isSome_iff_ne_none, Ne, lookup_eq_none_iff, not_not]

/-- Setting the value of a key adds the key at the end, unless it is present. -/
theorem keys_insertEntry (a : α) (b : β) (entries : List (α × β)) :
    (insertEntry a b entries).map Prod.fst =
      if a ∈ entries.map Prod.fst then entries.map Prod.fst else entries.map Prod.fst ++ [a] := by
  induction entries with
  | nil => rfl
  | cons e rest ih =>
    rw [insertEntry, List.map_cons]
    by_cases h : e.1 = a
    · rw [if_pos h, if_pos (List.mem_cons.2 (.inl h.symm)), List.map_cons, h]
    · rw [if_neg h, List.map_cons, ih]
      by_cases hmem : a ∈ rest.map Prod.fst
      · rw [if_pos hmem, if_pos (List.mem_cons_of_mem e.1 hmem)]
      · have hne : a ∉ e.1 :: rest.map Prod.fst := by
          rw [List.mem_cons, not_or]
          exact ⟨Ne.symm h, hmem⟩
        rw [if_neg hmem, if_neg hne]
        rfl

/-- Insertions keep keys distinct. -/
theorem Distinct.insert (h : t.Distinct) (a : α) (b : β) : (t.insert a b).Distinct := by
  rw [Distinct, Table.insert, keys_insertEntry]
  split
  · exact h
  · rename_i hnew
    rw [← List.concat_eq_append]
    exact h.concat hnew

/-- So the keys of every table that is made of pairs are distinct. -/
theorem Distinct.foldl_insert (h : t.Distinct) (pairs : List (α × β)) :
    (pairs.foldl (fun t (a, b) ↦ t.insert a b) t).Distinct := by
  induction pairs generalizing t with
  | nil => exact h
  | cons e pairs ih => exact ih (h.insert e.1 e.2)

theorem distinct_ofList (pairs : List (α × β)) : (ofList pairs).Distinct :=
  distinct_empty.foldl_insert pairs

namespace Distinct

/-- The value of a key is the one that stands beside it. -/
theorem get?_eq_some_iff (h : t.Distinct) {b : β} : t.get? a = some b ↔ (a, b) ∈ t.entries := by
  obtain ⟨entries⟩ := t
  show lookup a entries = some b ↔ (a, b) ∈ entries
  induction entries with
  | nil => exact iff_of_false nofun List.not_mem_nil
  | cons e rest ih =>
    obtain ⟨a', b'⟩ := e
    obtain ⟨hnew, hrest⟩ := List.nodup_cons.1 h
    rw [lookup, List.mem_cons, Prod.mk.injEq]
    by_cases heq : a' = a
    · subst heq
      have hother : (a', b) ∉ rest := fun hmem ↦ hnew (List.mem_map.2 ⟨_, hmem, rfl⟩)
      rw [if_pos rfl, Option.some.injEq, or_iff_left hother]
      exact ⟨fun hb ↦ ⟨rfl, hb.symm⟩, fun hb ↦ hb.2.symm⟩
    · rw [if_neg heq, ih hrest]
      exact ⟨.inr, fun hmem ↦ hmem.resolve_left fun hsame ↦ heq hsame.1.symm⟩

/-- Up to the order, setting the value of a key is taking it away and putting it in front. -/
theorem perm_insert (h : t.Distinct) (a : α) (b : β) :
    (t.insert a b).entries.Perm ((a, b) :: (t.erase a).entries) := by
  obtain ⟨entries⟩ := t
  show (insertEntry a b entries).Perm ((a, b) :: entries.filter (·.1 ≠ a))
  induction entries with
  | nil => exact .refl _
  | cons e rest ih =>
    obtain ⟨hnew, hrest⟩ := List.nodup_cons.1 h
    rw [insertEntry]
    by_cases heq : e.1 = a
    · have hsame : rest.filter (·.1 ≠ a) = rest := by
        refine List.filter_eq_self.2 fun e' he' ↦ decide_eq_true fun heq' ↦ hnew ?_
        exact List.mem_map.2 ⟨e', he', heq'.trans heq.symm⟩
      rw [if_pos heq, List.filter_cons_of_neg (by simpa using heq), hsame]
    · rw [if_neg heq, List.filter_cons_of_pos (by simpa using heq)]
      exact ((ih hrest).cons e).trans (.swap _ _ _)

end Distinct

/-- The entry of a key that is less than all others is the first one. -/
theorem first?_eq_some {t : Table Nat β} {e : Nat × β} (he : e ∈ t.entries)
    (hleast : ∀ e' ∈ t.entries, e' ≠ e → e.1 < e'.1) : t.first? = some e := by
  obtain ⟨e', hfirst⟩ := Option.isSome_iff_exists.1 (List.isSome_minOn?_of_mem (f := (·.1)) he)
  have hle := List.apply_get_minOn?_le_of_mem (f := (·.1)) he
  simp only [hfirst, Option.get_some] at hle
  by_cases heq : e' = e
  · rw [first?, hfirst, heq]
  · exact absurd (hleast e' (List.minOn?_mem hfirst) heq) (Nat.not_lt.2 hle)

end Table

end Reckoner
