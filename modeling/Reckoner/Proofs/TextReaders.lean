import Mathlib
import Reckoner.Text.Reader

/-!
# What readers take

Equations for the readers of `Reckoner.Text.Reader`: what each of them does in front of characters that
it takes, and of characters that it refuses. A repetition is described by its steps
(`Reader.Repeats`), of which each takes something.
-/

namespace Reckoner.Text.Reader

variable {α β : Type} {p : Reader α} {cs rest : List Char} {a : α}

/-! ### Sequences and alternatives -/

theorem bind_eq (h : p cs = some (a, rest)) (f : α → Reader β) : (p >>= f) cs = f a rest := by
  change (p cs).bind _ = _
  rw [h]
  rfl

theorem bind_eq_none (h : p cs = none) (f : α → Reader β) : (p >>= f) cs = none := by
  change (p cs).bind _ = _
  rw [h]
  rfl

theorem map_eq (h : p cs = some (a, rest)) (f : α → β) : (f <$> p) cs = some (f a, rest) :=
  bind_eq h _

theorem map_eq_none (h : p cs = none) (f : α → β) : (f <$> p) cs = none :=
  bind_eq_none h _

theorem orElse_eq_left (h : p cs = some (a, rest)) (q : Reader α) : (p <|> q) cs = some (a, rest) := by
  change (p cs).orElse _ = _
  rw [h]
  rfl

theorem orElse_eq_right (h : p cs = none) (q : Reader α) : (p <|> q) cs = q cs := by
  change (p cs).orElse _ = _
  rw [h]
  rfl

theorem optional_eq_some (h : p cs = some (a, rest)) : optional p cs = some (some a, rest) :=
  orElse_eq_left (map_eq h some) _

theorem optional_eq_none (h : p cs = none) : optional p cs = some (none, cs) :=
  orElse_eq_right (map_eq_none h some) _

theorem whole?_eq_some (h : p cs = some (a, [])) : p.whole? cs = some a := by
  rw [whole?, h]

/-! ### Characters -/

variable {c d : Char} {test : Char → Bool}

theorem character_cons (h : test c = true) : character test (c :: cs) = some (c, cs) := if_pos h

theorem character_eq_none (h : ∀ c ∈ cs.head?, test c = false) : character test cs = none := by
  cases cs with
  | nil => rfl
  | cons c cs => exact if_neg (Bool.eq_false_iff.1 (h c rfl))

theorem exactly_cons : exactly c (c :: cs) = some ((), cs) :=
  bind_eq (character_cons (decide_eq_true rfl)) _

theorem exactly_eq_none (h : ∀ d ∈ cs.head?, d ≠ c) : exactly c cs = none :=
  bind_eq_none (character_eq_none fun d hd ↦ decide_eq_false (h d hd)) _

theorem row_append (front : List Char) : row front (front ++ rest) = some ((), rest) := by
  induction front with
  | nil => rfl
  | cons c front ih => exact (bind_eq exactly_cons _).trans ih

theorem row_cons_eq_none {front : List Char} (h : ∀ d ∈ cs.head?, d ≠ c) :
    row (c :: front) cs = none :=
  bind_eq_none (exactly_eq_none h) _

/-- All characters up to one that fails the test, or up to the end. -/
theorem many_append {front : List Char} (hfront : ∀ c ∈ front, test c = true)
    (hrest : ∀ c ∈ rest.head?, test c = false) : many test (front ++ rest) = some (front, rest) := by
  have hstop : rest.takeWhile test = [] ∧ rest.dropWhile test = rest := by
    cases rest with
    | nil => exact ⟨rfl, rfl⟩
    | cons c rest =>
      have hc : ¬test c = true := Bool.eq_false_iff.1 (hrest c rfl)
      exact ⟨List.takeWhile_cons_of_neg hc, List.dropWhile_cons_of_neg hc⟩
  rw [many, List.takeWhile_append_of_pos hfront, List.dropWhile_append_of_pos hfront, hstop.1, hstop.2,
    List.append_nil]

theorem many_of_head (h : ∀ c ∈ rest.head?, test c = false) : many test rest = some ([], rest) :=
  many_append (List.forall_mem_nil _) h

theorem many1_append {front : List Char} (hne : front ≠ []) (hfront : ∀ c ∈ front, test c = true)
    (hrest : ∀ c ∈ rest.head?, test c = false) : many1 test (front ++ rest) = some (front, rest) := by
  rw [many1, bind_eq (many_append hfront hrest), List.isEmpty_eq_false_iff.2 hne]
  rfl

theorem times_append {front : List Char} (hfront : ∀ c ∈ front, test c = true) :
    times front.length test (front ++ rest) = some (front, rest) := by
  rw [times, List.take_left, List.drop_left]
  exact if_pos ⟨rfl, List.all_eq_true.2 hfront⟩

/-! ### Repetitions -/

/-- A reader takes these values one after another, with something for each of them, and then refuses. -/
inductive Repeats (p : Reader α) : List Char → List α → List Char → Prop
  | stop {cs : List Char} : p cs = none → Repeats p cs [] cs
  | more {cs rest last : List Char} {a : α} {as : List α} : p cs = some (a, rest) →
      rest.length < cs.length → Repeats p rest as last → Repeats p cs (a :: as) last

theorem Repeats.repeatUpTo_eq {as : List α} {last : List Char} (h : Repeats p cs as last) {n : ℕ}
    (hn : cs.length ≤ n) : repeatUpTo p n cs = some (as, last) := by
  induction h generalizing n with
  | stop hnone =>
    cases n with
    | zero => rfl
    | succ n => simp only [repeatUpTo, hnone]
  | more hsome hlt _ ih =>
    cases n with
    | zero => omega
    | succ n =>
      have hrest := ih (Nat.le_of_lt_succ (hlt.trans_le hn))
      simp only [repeatUpTo, hsome, hlt, if_true, hrest, Option.map_some]

theorem Repeats.repeated_eq {as : List α} {last : List Char} (h : Repeats p cs as last) :
    repeated p cs = some (as, last) :=
  h.repeatUpTo_eq le_rfl

theorem separated_eq {separator : Reader Unit} {as : List α} {last : List Char}
    (hfirst : p cs = some (a, rest)) (hmore : Repeats (do separator; p) rest as last) :
    separated p separator cs = some (a :: as, last) :=
  orElse_eq_left ((bind_eq hfirst _).trans (bind_eq hmore.repeated_eq _)) _

theorem separated_eq_nil {separator : Reader Unit} (h : p cs = none) :
    separated p separator cs = some ([], cs) :=
  orElse_eq_right (bind_eq_none h _) _

end Reckoner.Text.Reader
