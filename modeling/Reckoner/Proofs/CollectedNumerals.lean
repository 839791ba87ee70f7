import Reckoner.Proofs.DelimitedText
import Reckoner.Proofs.NumberText

/-!
# The numeral at the front of a text

A number is cut off a text by looking ahead, and its digits are valued while they are cut off. This
is the same as collecting its characters first and reading them as the text of a double afterwards:
what is cut off is a decimal literal (`Decimal.exists_literal`), and a literal is never refused as the
text of a double, but denotes the value it was given (`Decimal.Literal.ofText?_text`).

The parts of a numeral are optional, and each is taken only if it is complete: a point with a digit
behind it, the letter of an exponent with digits behind it or behind its sign. So there is one lemma
for each of them, which gives the part that is taken together with what is left.
-/

namespace Reckoner

namespace Decimal

/-! ### Literals as texts of doubles -/

theorem integerOfChars?_unsigned {digits : List Char} (hne : digits ≠ [])
    (h : ∀ c ∈ digits, isDigit c = true) :
    integerOfChars? digits = some (ofDigits digits : ℤ) := by
  have hnone : (digits.isEmpty || !digits.all isDigit) = false := by
    rw [List.isEmpty_eq_false_iff.2 hne, List.all_eq_true.2 h]
    rfl
  rw [integerOfChars?.eq_def]
  split
  rename_i negative unsigned hsign
  split at hsign
  · exact absurd (h '-' List.mem_cons_self) (by decide)
  · exact absurd (h '+' List.mem_cons_self) (by decide)
  · cases hsign
    rw [hnone]
    rfl

theorem ExponentText.exponentOfChars?_chars (e : ExponentText) :
    exponentOfChars? e.chars = some e.value := by
  obtain ⟨letter, sign, digits, hletter, hne, hdigits⟩ := e
  obtain ⟨hplus, hminus⟩ := integerOfChars?_digits hne hdigits
  have hread : exponentOfChars? (letter :: (signChars sign ++ digits)) =
      integerOfChars? (signChars sign ++ digits) :=
    if_pos hletter
  match sign with
  | none => exact hread.trans (integerOfChars?_unsigned hne hdigits)
  | some .plus => exact hread.trans hplus
  | some .minus => exact hread.trans hminus

namespace Literal

variable (l : Literal)

theorem exponentOfChars?_exponentChars :
    exponentOfChars? l.exponentChars = some (l.exponent.elim 0 ExponentText.value) := by
  rw [exponentChars]
  cases l.exponent with
  | none => rfl
  | some e => exact e.exponentOfChars?_chars

/-- **A literal is read as its value.** -/
theorem ofChars?_chars : ofChars? l.chars = some l.value := by
  have hletter : ∀ c ∈ l.exponentChars.head?, isDigit c = false ∧ c ≠ '.' := by
    intro c hc
    rcases l.head?_exponentChars c hc with rfl | rfl <;> decide
  by_cases hwhole : l.whole = []
  · -- Without digits in front of the point there are some behind it.
    have hne : l.fraction ≠ [] := by
      have h := l.digits_ne_nil
      rwa [hwhole, List.nil_append] at h
    have hstop : ∀ c ∈ l.exponentChars.head?, isDigit c = false := fun c hc ↦ (hletter c hc).1
    have htake : (l.fraction ++ l.exponentChars).takeWhile isDigit = l.fraction :=
      takeWhile_digits l.isDigit_of_mem_fraction hstop
    have hdrop : (l.fraction ++ l.exponentChars).dropWhile isDigit = l.exponentChars :=
      dropWhile_digits l.isDigit_of_mem_fraction hstop
    have hchars : l.chars = '.' :: (l.fraction ++ l.exponentChars) := by
      rw [chars, hwhole, fractionPart_of_ne_nil hne]
      rfl
    have hnone : l.chars.takeWhile isDigit = [] := by rw [hchars]; rfl
    have hall : l.chars.dropWhile isDigit = '.' :: (l.fraction ++ l.exponentChars) := by
      rw [hchars]
      rfl
    rw [ofChars?]
    simp only [hnone, hall, htake, hdrop, List.isEmpty_eq_false_iff.2 hne, Bool.and_false,
      Bool.false_eq_true, if_false]
    rw [l.exponentOfChars?_exponentChars, value, hwhole]
    rfl
  · have hwritten : Written l.whole l.fraction :=
      ⟨hwhole, l.isDigit_of_mem_whole, l.isDigit_of_mem_fraction⟩
    rw [chars, hwritten.ofChars?_append _ hletter, l.exponentOfChars?_exponentChars]
    rfl

/-- **The text of a literal is the text of a double**, the one nearest to its value. -/
theorem ofText?_text : Double.ofText? l.text = some l.value.toFloat := by
  obtain ⟨c, cs, hchars, hfirst⟩ := l.exists_cons
  have hfirst : isDigit c = true ∨ c = '.' := hfirst.imp_right And.left
  rw [text, hchars, ofText?_ofList hfirst, ofUnsigned?_cons hfirst, ← hchars, l.ofChars?_chars]
  rfl

theorem chars_ne_nil : l.chars ≠ [] := by
  obtain ⟨c, cs, hchars, -⟩ := l.exists_cons
  rw [hchars]
  exact List.cons_ne_nil c cs

end Literal

/-! ### What is cut off -/

/-- The digits behind a point are taken together with the point. -/
theorem exists_fractionPart (cs : List Char) : ∃ rest,
    cs = fractionPart (fractionDigits cs) ++ rest ∧ ∀ c ∈ fractionDigits cs, isDigit c = true := by
  rw [fractionDigits.eq_def]
  split
  · rename_i more
    by_cases hnil : more.takeWhile isDigit = []
    · rw [hnil]
      exact ⟨'.' :: more, rfl, List.forall_mem_nil _⟩
    · refine ⟨more.dropWhile isDigit, ?_, fun c hc ↦ List.mem_takeWhile_imp hc⟩
      rw [fractionPart_of_ne_nil hnil, List.cons_append, List.takeWhile_append_dropWhile]
  · exact ⟨cs, rfl, List.forall_mem_nil _⟩

/-- A letter and a sign, if there is one, begin an exponent exactly if digits follow. -/
theorem exists_exponentText_of_letter {letter : Char} (hletter : letter = 'e' ∨ letter = 'E')
    (sign : Option Sign) {body cs : List Char}
    (hcs : cs = letter :: (ExponentText.signChars sign ++ body))
    (hnone : body.takeWhile isDigit = [] → exponentPart cs = (0, 0)) :
    ∃ (e : Option ExponentText) (rest : List Char), cs = e.elim [] ExponentText.chars ++ rest ∧
      exponentPart cs = (e.elim 0 ExponentText.value, (e.elim [] ExponentText.chars).length) := by
  by_cases hnil : body.takeWhile isDigit = []
  · exact ⟨none, cs, rfl, hnone hnil⟩
  · let e : ExponentText :=
      ⟨letter, sign, body.takeWhile isDigit, hletter, hnil, fun c hc ↦ List.mem_takeWhile_imp hc⟩
    have hchars : cs = e.chars ++ body.dropWhile isDigit := by
      rw [hcs, ExponentText.chars, List.cons_append, List.append_assoc,
        List.takeWhile_append_dropWhile]
    have hstop : ∀ c ∈ (body.dropWhile isDigit).head?, isDigit c = false := by
      intro c hc
      have hnot := List.head?_dropWhile_not isDigit body
      rwa [Option.mem_def.1 hc] at hnot
    refine ⟨some e, body.dropWhile isDigit, hchars, ?_⟩
    rw [hchars, e.exponentPart_chars hstop]
    rfl

/-- The exponent with which a text begins, if it does, and what is left behind it. -/
theorem exists_exponentText (cs : List Char) :
    ∃ (e : Option ExponentText) (rest : List Char), cs = e.elim [] ExponentText.chars ++ rest ∧
      exponentPart cs = (e.elim 0 ExponentText.value, (e.elim [] ExponentText.chars).length) := by
  match cs with
  | [] => exact ⟨none, [], rfl, rfl⟩
  | [c] => exact ⟨none, [c], rfl, rfl⟩
  | letter :: c :: body =>
    by_cases hletter : letter = 'e' ∨ letter = 'E'
    · by_cases hplus : c = '+'
      · refine exists_exponentText_of_letter hletter (some .plus) (by rw [hplus]; rfl) fun hnil ↦ ?_
        simp only [exponentPart, hletter, hplus, hnil, true_or, if_true, List.isEmpty_nil]
      by_cases hminus : c = '-'
      · refine exists_exponentText_of_letter hletter (some .minus) (by rw [hminus]; rfl) fun hnil ↦ ?_
        simp only [exponentPart, hletter, hminus, hnil, or_true, if_true, List.isEmpty_nil]
      · refine exists_exponentText_of_letter hletter none rfl fun hnil ↦ ?_
        simp only [exponentPart, hletter, hplus, hminus, hnil, or_self, if_true, if_false,
          List.isEmpty_nil]
    · refine ⟨none, letter :: c :: body, rfl, ?_⟩
      rw [exponentPart, if_neg hletter]
      rfl

/-- Whether a number starts with the character `c`: a digit, or a point in front of a digit. -/
def startsNumber (c : Char) (rest : List Char) : Bool :=
  isDigit c || (c == '.' && rest.head?.any isDigit)

/-- Where a number starts, there are digits in front of the point or behind it. -/
theorem digits_ne_nil_of_startsNumber {c : Char} {cs : List Char} (h : startsNumber c cs = true) :
    (c :: cs).takeWhile isDigit ++
      fractionDigits ((c :: cs).drop ((c :: cs).takeWhile isDigit).length) ≠ [] := by
  cases hc : isDigit c with
  | true =>
    rw [List.takeWhile_cons_of_pos hc]
    exact List.cons_ne_nil _ _
  | false =>
    rw [startsNumber, hc, Bool.false_or, Bool.and_eq_true] at h
    obtain ⟨hpoint, hnext⟩ := h
    obtain rfl := eq_of_beq hpoint
    obtain ⟨d, hd, hdigit⟩ := (Option.any_eq_true _ _).1 hnext
    obtain ⟨ds, rfl⟩ := List.head?_eq_some_iff.1 hd
    show (d :: ds).takeWhile isDigit ≠ []
    rw [List.takeWhile_cons_of_pos hdigit]
    exact List.cons_ne_nil _ _

/-- **What is cut off as a number is a literal**, and its value is the one of the literal. -/
theorem exists_literal {c : Char} {cs : List Char} (h : startsNumber c cs = true) :
    ∃ (l : Literal) (rest : List Char),
      c :: cs = l.chars ++ rest ∧ numeral (c :: cs) = (l.value, l.chars.length) := by
  let whole := (c :: cs).takeWhile isDigit
  let more := (c :: cs).drop whole.length
  have hmore : c :: cs = whole ++ more := List.prefix_append_drop (List.takeWhile_prefix _)
  obtain ⟨behind, hbehind, hfraction⟩ := exists_fractionPart more
  obtain ⟨e, rest, hrest, hexponent⟩ := exists_exponentText behind
  let l : Literal := ⟨whole, fractionDigits more, e, digits_ne_nil_of_startsNumber h,
    fun c hc ↦ List.mem_takeWhile_imp hc, hfraction⟩
  have hchars : c :: cs = whole ++ fractionPart (fractionDigits more) ++ behind := by
    rw [List.append_assoc, ← hbehind, hmore]
  have htaken : (if (fractionDigits more).isEmpty then 0 else (fractionDigits more).length + 1) =
      (fractionPart (fractionDigits more)).length := by
    cases fractionDigits more <;> rfl
  have hdrop : (c :: cs).drop (whole.length + (fractionPart (fractionDigits more)).length) =
      behind := by
    rw [hchars, ← List.length_append, List.drop_left]
  refine ⟨l, rest, ?_, ?_⟩
  · rw [hchars, hrest, ← List.append_assoc]
    rfl
  · have hnumeral : numeral (c :: cs) =
        (⟨ofDigits (whole ++ fractionDigits more),
            (exponentPart behind).1 - (fractionDigits more).length⟩,
          whole.length + (fractionPart (fractionDigits more)).length + (exponentPart behind).2) := by
      rw [numeral, ← hdrop, ← htaken]
    rw [hnumeral, hexponent, ← List.length_append, ← List.length_append]
    rfl

end Decimal

end Reckoner
