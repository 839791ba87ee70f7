import Reckoner.Proofs.CollectedNumerals
import Reckoner.Proofs.Comments

/-!
# How tokens are spelled

Every token that is taken off the front of a text is spelled by the characters that are taken
(`Token.spelled_of_lexeme?`): a number by a decimal literal, a name by itself, the mark of conversion
by one of its words, and the other marks as messages write them. So a token has characters, and none
of them is blank (`Token.Spelled.ne_nil`, `Token.Spelled.isBlank_eq_false`).

For numbers this rests on what is collected for them: it is a literal, and the literal denotes the
number (`Token.exists_number`). For marks it is a case for each of them.
-/

namespace Reckoner

namespace Token

/-- **The spellings of a token.** A number is spelled as a decimal literal, which is the text of a
double and denotes the number. A name is a word that is read as a name. The mark of conversion is
spelled as one of two words, and every other mark as messages write it. -/
def Spelled (slice : List Char) : Token Float → Prop
  | number x => ∃ l : Decimal.Literal, slice = l.chars ∧ Double.ofText? l.text = some x
  | name text => isName text = true ∧ slice = text.toList
  | into => slice = "to".toList ∨ slice = "in".toList
  | t => slice = t.text.toList

end Token

/-! ### Characters that are not blank -/

theorem isBlank_eq_false_of_isNamePart {c : Char} (h : isNamePart c = true) :
    Text.isBlank c = false :=
  Bool.eq_false_iff.2 fun hblank ↦
    Bool.eq_false_iff.1 (endsToken_of_isBlank hblank).isNamePart_eq_false h

/-- The characters of the marks and of the words of conversion, and those of numbers that are no
digits. -/
def fixedChars : List Char := ['.', 'e', 'E', 't', 'o', 'i', 'n'] ++ Token.markStarts

theorem isBlank_eq_false_of_mem {c : Char} (h : c ∈ fixedChars) : Text.isBlank c = false := by
  have hall : fixedChars.all (!Text.isBlank ·) = true := by decide +kernel
  simpa using List.all_eq_true.1 hall c h

namespace Decimal

theorem ExponentText.isBlank_eq_false (e : ExponentText) :
    ∀ c ∈ e.chars, Text.isBlank c = false := by
  have hletter : Text.isBlank e.letter = false := by
    rcases e.letter_eq with h | h <;> exact isBlank_eq_false_of_mem (h ▸ by decide)
  have hsign : ∀ c ∈ signChars e.sign, Text.isBlank c = false := by
    have hfixed : signChars e.sign ⊆ fixedChars := by
      rcases e.sign with - | - | - <;> decide
    exact fun c hc ↦ isBlank_eq_false_of_mem (hfixed hc)
  refine List.forall_mem_cons.2 ⟨hletter, List.forall_mem_append.2 ⟨hsign, fun c hc ↦ ?_⟩⟩
  exact (not_isBlank_of_isDigit (e.isDigit_of_mem c hc)).1

theorem Literal.isBlank_eq_false (l : Literal) : ∀ c ∈ l.chars, Text.isBlank c = false := by
  have hwhole : ∀ c ∈ l.whole, Text.isBlank c = false :=
    fun c hc ↦ (not_isBlank_of_isDigit (l.isDigit_of_mem_whole c hc)).1
  have hfraction : ∀ c ∈ fractionPart l.fraction, Text.isBlank c = false := by
    rw [fractionPart]
    split
    · exact List.forall_mem_nil _
    · refine List.forall_mem_cons.2 ⟨isBlank_eq_false_of_mem (by decide), fun c hc ↦ ?_⟩
      exact (not_isBlank_of_isDigit (l.isDigit_of_mem_fraction c hc)).1
  have hexponent : ∀ c ∈ l.exponentChars, Text.isBlank c = false := by
    rw [Literal.exponentChars]
    cases l.exponent with
    | none => exact List.forall_mem_nil _
    | some e => exact e.isBlank_eq_false
  exact List.forall_mem_append.2 ⟨List.forall_mem_append.2 ⟨hwhole, hfraction⟩, hexponent⟩

end Decimal

/-! ### Tokens and their characters -/

namespace Token

variable {slice : List Char} {t : Token Float}

/-- Marks have characters, all of which are fixed. -/
theorem Spelled.of_isMark (h : t.Spelled slice) (hmark : t.isMark = true) :
    slice ≠ [] ∧ slice ⊆ fixedChars := by
  cases t with
  | number x => contradiction
  | name text => contradiction
  | into =>
    simp only [Spelled, String.reduceToList] at h
    rcases h with rfl | rfl <;> exact ⟨List.cons_ne_nil _ _, by decide⟩
  | _ =>
    simp only [Spelled, text, String.reduceToList] at h
    rw [h]
    exact ⟨List.cons_ne_nil _ _, by decide⟩

/-- Every token has characters. -/
theorem Spelled.ne_nil (h : t.Spelled slice) : slice ≠ [] := by
  cases t with
  | number x =>
    obtain ⟨l, rfl, -⟩ := h
    exact l.chars_ne_nil
  | name text =>
    obtain ⟨hname, rfl⟩ := h
    obtain ⟨c, cs, htext, -⟩ := exists_cons_of_isName (K := Float) hname
    rw [htext, String.toList_ofList]
    exact List.cons_ne_nil c cs
  | _ => exact (h.of_isMark rfl).1

/-- None of the characters of a token is blank. -/
theorem Spelled.isBlank_eq_false (h : t.Spelled slice) : ∀ c ∈ slice, Text.isBlank c = false := by
  cases t with
  | number x =>
    obtain ⟨l, rfl, -⟩ := h
    exact l.isBlank_eq_false
  | name text =>
    obtain ⟨hname, rfl⟩ := h
    simp only [isName, Bool.and_eq_true] at hname
    obtain ⟨⟨⟨-, hparts⟩, -⟩, -⟩ := hname
    exact fun c hc ↦ isBlank_eq_false_of_isNamePart (List.all_eq_true.1 hparts c hc)
  | _ => exact fun c hc ↦ isBlank_eq_false_of_mem ((h.of_isMark rfl).2 hc)

/-- A word is spelled as it is. -/
theorem spelled_ofWord {c : Char} {cs : List Char} (hstart : isNameStart c = true)
    (hparts : ∀ d ∈ cs, isNamePart d = true) :
    (ofWord (String.ofList (c :: cs))).Spelled (c :: cs) := by
  have hchars (word : String) (h : String.ofList (c :: cs) = word) : c :: cs = word.toList := by
    rw [← h, String.toList_ofList]
  rw [ofWord]
  split
  · rename_i hword
    exact hword.imp (hchars _) (hchars _)
  · rename_i hword
    obtain ⟨hto, hin⟩ := not_or.1 hword
    have hall : (c :: cs).all isNamePart = true :=
      List.all_eq_true.2 (List.forall_mem_cons.2 ⟨isNamePart_of_isNameStart hstart, hparts⟩)
    refine ⟨?_, hchars _ rfl⟩
    rw [isName, String.toList_ofList, hall, bne_iff_ne.2 hto, bne_iff_ne.2 hin, List.head?_cons,
      Option.any_some, hstart]
    rfl

/-- A mark is spelled by its first character, and by the second one if that is taken. -/
theorem spelled_of_mark? {c : Char} {rest : List Char} {taken : Nat}
    (h : mark? c rest = some (t, taken)) : t.Spelled (c :: rest.take taken) := by
  have hsecond {d : Char} (hd : rest.head? = some d) : rest.take 1 = [d] := by
    obtain ⟨ds, rfl⟩ := List.head?_eq_some_iff.1 hd
    rfl
  rw [mark?.eq_def] at h
  dsimp only at h
  split at h <;> (try split at h) <;> cases h <;>
    simp only [Spelled, text, String.reduceToList, List.take_zero]
  -- What is left are the marks of two characters.
  all_goals exact congrArg (List.cons _) (hsecond ‹_›)

/-- **The token of a number is what its characters are read as** once they have been collected, and
they are never refused. -/
theorem exists_number {c : Char} {rest : List Char} (h : Decimal.startsNumber c rest = true) :
    ∃ x taken, lexeme? c rest = some (.number x, taken) ∧
      c :: rest.take taken = (c :: rest).take (numeral (c :: rest)).2 ∧
      Double.ofText? (String.ofList (c :: rest.take taken)) = some x ∧
      (number x).Spelled (c :: rest.take taken) := by
  obtain ⟨l, behind, hchars, hnumeral⟩ := Decimal.exists_literal h
  obtain ⟨d, ds, hcons⟩ := List.exists_cons_of_ne_nil l.chars_ne_nil
  have hlength : l.chars.length = ds.length + 1 := by rw [hcons, List.length_cons]
  have htake : (c :: rest).take (ds.length + 1) = l.chars := by
    rw [hchars, ← hlength, List.take_left]
  have hread : Double.ofText? (String.ofList l.chars) = some l.value.toFloat := l.ofText?_text
  rw [Decimal.startsNumber] at h
  refine ⟨l.value.toFloat, ds.length, ?_, ?_, ?_, l, htake, hread⟩
  · rw [lexeme?, h, if_pos rfl, hnumeral, hlength]
    rfl
  · rw [hnumeral, hlength, List.take_succ_cons]
  · rw [← List.take_succ_cons, htake, hread]

/-- **What is taken for a token spells the token.** -/
theorem spelled_of_lexeme? {c : Char} {rest : List Char} {taken : Nat}
    (h : lexeme? c rest = some (t, taken)) : t.Spelled (c :: rest.take taken) := by
  cases hnumber : Decimal.startsNumber c rest with
  | true =>
    obtain ⟨x, taken', hlexeme, -, -, hspelled⟩ := exists_number hnumber
    cases h.symm.trans hlexeme
    exact hspelled
  | false =>
    rw [Decimal.startsNumber] at hnumber
    rw [lexeme?, hnumber, if_neg Bool.false_ne_true] at h
    split at h
    · rename_i hstart
      cases h
      rw [← List.prefix_iff_eq_take.1 (List.takeWhile_prefix _)]
      exact spelled_ofWord hstart fun d hd ↦ List.mem_takeWhile_imp hd
    · exact spelled_of_mark? h

end Token

end Reckoner
