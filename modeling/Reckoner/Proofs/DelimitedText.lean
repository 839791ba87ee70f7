import Reckoner.Proofs.UnitText

/-!
# Texts in front of a parenthesis that closes or a comma

No token goes on with a right parenthesis or a comma. So the characters in front of one are split into
the same tokens as on a line of their own (`Tokens.reads_of_ofChars`), unless a `#` among them turns it
into a part of a comment.

To find out where a token ends, at most two characters behind it are looked at. That a character ends
all tokens (`EndsToken`) is what these looks ask for, and to them such a character is the same as the
end of the line.
-/

namespace Reckoner

/-- **A character with which no token goes on**: no digit or other part of a name, no point or sign
within a number, and no second character of a mark. -/
structure EndsToken (d : Char) : Prop where
  isDigit_eq_false : Decimal.isDigit d = false
  isNamePart_eq_false : isNamePart d = false
  notMem : d ∉ ['.', '+', '-', '*', '=']

/-- A character that stands behind an argument or another expression in parentheses. -/
def Delimits (c : Char) : Prop := c = ')' ∨ c = ','

theorem Delimits.endsToken {d : Char} (hd : Delimits d) : EndsToken d where
  isDigit_eq_false := by rcases hd with rfl | rfl <;> decide
  isNamePart_eq_false := by rcases hd with rfl | rfl <;> decide +kernel
  notMem := by rcases hd with rfl | rfl <;> decide

/-- Whatever stands behind characters, a scan stops in front of one that fails the test. -/
theorem takeWhile_append_cons {α : Type} {p : α → Bool} {a : α} (ha : p a = false) (l rest : List α) :
    (l ++ a :: rest).takeWhile p = l.takeWhile p := by
  induction l with
  | nil => exact List.takeWhile_cons_of_neg (by simp [ha])
  | cons b l ih => rw [List.cons_append, List.takeWhile_cons, List.takeWhile_cons, ih]

/-! ### How much a token takes -/

theorem fractionDigits_le (cs : List Char) :
    (if (fractionDigits cs).isEmpty then 0 else (fractionDigits cs).length + 1) ≤ cs.length := by
  rw [fractionDigits.eq_def]
  split
  · rename_i ds
    split
    · exact Nat.zero_le _
    · exact Nat.succ_le_succ (List.takeWhile_prefix _).length_le
  · exact Nat.zero_le _

theorem exponentPart_le (cs : List Char) : (exponentPart cs).2 ≤ cs.length := by
  match cs with
  | [] => exact Nat.zero_le _
  | [_] => exact Nat.zero_le _
  | c :: sign :: cs =>
    have hsigned := (List.takeWhile_prefix Decimal.isDigit (l := cs)).length_le
    have hunsigned := (List.takeWhile_prefix Decimal.isDigit (l := sign :: cs)).length_le
    rw [List.length_cons] at hunsigned
    rw [exponentPart, List.length_cons, List.length_cons]
    by_cases h : sign = '+' ∨ sign = '-'
    · simp only [h, if_true]
      split
      · split
        · exact Nat.zero_le _
        · exact Nat.add_le_add_right hsigned 2
      · exact Nat.zero_le _
    · simp only [h, if_false]
      split
      · split
        · exact Nat.zero_le _
        · exact Nat.add_le_add_right hunsigned 1
      · exact Nat.zero_le _

theorem numeral_le (cs : List Char) : (numeral cs).2 ≤ cs.length := by
  have hwhole := (List.takeWhile_prefix Decimal.isDigit (l := cs)).length_le
  have hfraction := fractionDigits_le (cs.drop (cs.takeWhile Decimal.isDigit).length)
  rw [List.length_drop] at hfraction
  rw [numeral]
  dsimp only
  generalize (if (fractionDigits _).isEmpty then 0 else _) = taken at hfraction ⊢
  have hexponent := exponentPart_le (cs.drop ((cs.takeWhile Decimal.isDigit).length + taken))
  rw [List.length_drop] at hexponent
  omega

/-! ### Numbers -/

section

variable {d : Char} (hd : EndsToken d) (cs rest : List Char)

include hd

theorem fractionDigits_append : fractionDigits (cs ++ d :: rest) = fractionDigits cs := by
  cases cs with
  | nil =>
    have hpoint : d ≠ '.' := fun h ↦ hd.notMem (by simp [h])
    rw [List.nil_append, fractionDigits.eq_def]
    split
    · rename_i heq
      exact absurd (List.cons.inj heq).1 hpoint
    · rfl
  | cons c cs =>
    rw [List.cons_append, fractionDigits.eq_def, fractionDigits.eq_def (c :: cs)]
    split
    · rename_i heq
      cases heq
      exact takeWhile_append_cons hd.isDigit_eq_false cs rest
    · split
      · rename_i hne _ _ heq
        cases heq
        exact absurd rfl (hne _)
      · rfl

theorem exponentPart_append : exponentPart (cs ++ d :: rest) = exponentPart cs := by
  have hdigits (l : List Char) := takeWhile_append_cons hd.isDigit_eq_false l rest
  match cs with
  | [] =>
    -- The letter of an exponent is a part of a name.
    have hletter : ¬(d = 'e' ∨ d = 'E') := by
      have hpart := hd.isNamePart_eq_false
      rintro (rfl | rfl) <;> exact absurd hpart (by decide)
    rcases rest with - | ⟨c, rest⟩
    · rfl
    · rw [List.nil_append, exponentPart, if_neg hletter]
      rfl
  | [c] =>
    show exponentPart (c :: d :: rest) = (0, 0)
    have hsigned : ¬(d = '+' ∨ d = '-') := by
      rintro (rfl | rfl) <;> exact hd.notMem (by decide)
    have hnone : (d :: rest).takeWhile Decimal.isDigit = [] := hdigits []
    rw [exponentPart]
    simp only [hsigned, if_false, hnone, List.isEmpty_nil, if_true, ite_self]
  | c :: sign :: cs =>
    show exponentPart (c :: sign :: (cs ++ d :: rest)) = _
    rw [exponentPart, exponentPart]
    by_cases hsigned : sign = '+' ∨ sign = '-'
    · simp only [hsigned, if_true, hdigits]
    · have hunsigned : (sign :: (cs ++ d :: rest)).takeWhile Decimal.isDigit = _ :=
        hdigits (sign :: cs)
      simp only [hsigned, if_false, hunsigned]

theorem numeral_append : numeral (cs ++ d :: rest) = numeral cs := by
  have hwhole := (List.takeWhile_prefix Decimal.isDigit (l := cs)).length_le
  have hfraction := fractionDigits_le (cs.drop (cs.takeWhile Decimal.isDigit).length)
  rw [List.length_drop] at hfraction
  rw [numeral, numeral, takeWhile_append_cons hd.isDigit_eq_false]
  dsimp only
  rw [List.drop_append_of_le_length hwhole, fractionDigits_append hd, List.drop_append_of_le_length,
    exponentPart_append hd]
  omega

end

namespace Token

variable {K : Type}

theorem mark?_le {c : Char} {cs : List Char} {t : Token K} {n : Nat} (h : mark? c cs = some (t, n)) :
    n ≤ cs.length := by
  cases cs with
  | nil =>
    simp only [mark?, List.head?_nil, reduceCtorEq, if_false] at h
    split at h <;> cases h <;> exact Nat.le_refl 0
  | cons c' cs =>
    have hone : n ≤ 1 := by
      rw [mark?.eq_def] at h
      dsimp only at h
      split at h <;> (try split at h) <;> cases h <;> decide
    exact hone.trans (Nat.succ_le_succ (Nat.zero_le cs.length))

theorem mark?_append {c d : Char} (hd : EndsToken d) (cs rest : List Char) :
    mark? (K := K) c (cs ++ d :: rest) = mark? c cs := by
  cases cs with
  | nil =>
    have hstar : d ≠ '*' := fun h ↦ hd.notMem (by simp [h])
    have hequal : d ≠ '=' := fun h ↦ hd.notMem (by simp [h])
    simp only [mark?, List.nil_append, List.head?_cons, List.head?_nil, Option.some.injEq, hstar,
      hequal, reduceCtorEq, if_false]
  | cons c' cs => rfl

variable [Scalar K]

theorem lexeme?_le {c : Char} {cs : List Char} {t : Token K} {n : Nat}
    (h : lexeme? c cs = some (t, n)) : n ≤ cs.length := by
  rw [lexeme?] at h
  split at h
  · have hle := numeral_le (c :: cs)
    rw [List.length_cons] at hle
    have hn : (numeral (c :: cs)).2 - 1 = n := congrArg Prod.snd (Option.some.inj h)
    omega
  · split at h
    · cases h
      exact (List.takeWhile_prefix _).length_le
    · exact mark?_le h

/-- The token with which a text begins does not depend on what stands behind the text, if that begins
with a character that ends tokens. -/
theorem lexeme?_append {d : Char} (hd : EndsToken d) (c : Char) (cs rest : List Char) :
    lexeme? (K := K) c (cs ++ d :: rest) = lexeme? c cs := by
  have hhead : (cs ++ d :: rest).head?.any Decimal.isDigit = cs.head?.any Decimal.isDigit := by
    cases cs with
    | nil => exact hd.isDigit_eq_false
    | cons c' cs => rfl
  have hnumeral : numeral (c :: (cs ++ d :: rest)) = numeral (c :: cs) :=
    numeral_append hd (c :: cs) rest
  rw [lexeme?, lexeme?, hhead, hnumeral, takeWhile_append_cons hd.isNamePart_eq_false,
    mark?_append hd]

end Token

namespace Tokens

variable {K : Type} [Scalar K]

/-- **A text is split in front of a delimiter as on a line of its own**, if it has no comment. -/
theorem reads_of_ofChars {d : Char} (hd : Delimits d) {cs : List Char} (rest : List Char)
    (hsharp : '#' ∉ cs) {column : Nat} {w : List (Token K)} (h : ofChars column cs = .ofList w) :
    Reads cs w (d :: rest) := by
  induction hn : cs.length using Nat.strongRecOn generalizing cs column w with
  | ind n ih =>
    cases cs with
    | nil =>
      cases w with
      | nil => exact reads_nil _
      | cons t w => rw [ofChars] at h; contradiction
    | cons c cs =>
      obtain ⟨hc, hcs⟩ := not_or.1 (mt List.mem_cons.2 hsharp)
      rw [ofChars] at h
      split at h
      · rename_i hblank
        exact (reads_blank hblank _).append (ih cs.length (hn ▸ Nat.lt_succ_self _) hcs h rfl)
      · rename_i hblank
        rw [if_neg (Ne.symm hc)] at h
        split at h
        · cases w <;> contradiction
        · rename_i t taken hlexeme
          cases w with
          | nil => contradiction
          | cons t' w =>
            obtain ⟨rfl, hmore⟩ := Tokens.more.inj h
            have hle := Token.lexeme?_le hlexeme
            have hfirst : Reads (c :: cs.take taken) [t] (cs.drop taken ++ d :: rest) := by
              refine reads_of_lexeme? (Bool.eq_false_iff.2 hblank) (Ne.symm hc) ?_
              rw [← List.append_assoc, List.take_append_drop, Token.lexeme?_append hd.endsToken, hlexeme,
                List.length_take_of_le hle]
            have hlt : (cs.drop taken).length < n := by
              rw [← hn, List.length_drop, List.length_cons]
              omega
            have hrest := ih _ hlt (fun hmem ↦ hcs (List.mem_of_mem_drop hmem)) hmore rfl
            have hboth := hfirst.append hrest
            rwa [List.cons_append, List.take_append_drop] at hboth

end Tokens

end Reckoner
