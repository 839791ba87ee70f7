import Mathlib
import Reckoner.Proofs.DepthLimits
import Reckoner.Proofs.Printing

/-!
# Reading what has been written

The text of an expression is read as this expression (`Expr.ofText_text`): under a limit that is too low
as an expression that is too deep, and under all others as itself.

Between blanks every token stands for itself. For marks this is known, and for names it rests on the
classes of characters: what starts a name is neither blank nor a digit. The decimals that are written
for numbers have digits in front of a point and, if there is one, behind it, so all of their characters
belong to one token, which has the value of the whole text.
-/

open Filter

namespace Reckoner

/-! ### Classes of characters -/

namespace Text

/-- Characters of one table are not in another one if no two of their ranges meet. -/
theorem inRanges_eq_false {table table' : List (Nat × Nat)}
    (hapart : ∀ r ∈ table, ∀ s ∈ table', r.2 < s.1 ∨ s.2 < r.1) {c : Char}
    (hc : inRanges table c = true) : inRanges table' c = false := by
  obtain ⟨r, hr, hlow, hhigh⟩ := inRanges_iff.1 hc
  refine Bool.eq_false_iff.2 fun hc' ↦ ?_
  obtain ⟨s, hs, hlow', hhigh'⟩ := inRanges_iff.1 hc'
  have hrs := hapart r hr s hs
  omega

end Text

theorem Decimal.isDigit_iff {c : Char} : isDigit c = true ↔ 0x30 ≤ c.toNat ∧ c.toNat ≤ 0x39 := by
  rw [isDigit, Bool.and_eq_true, decide_eq_true_iff, decide_eq_true_iff]
  exact Iff.rfl

/-- A digit is neither blank nor the sign of a comment. -/
theorem Decimal.not_isBlank_of_isDigit {c : Char} (h : isDigit c = true) :
    Text.isBlank c = false ∧ c ≠ '#' := by
  obtain ⟨hlow, hhigh⟩ := isDigit_iff.1 h
  have hdigit : Text.inRanges [(0x30, 0x39)] c = true :=
    Text.inRanges_iff.2 ⟨_, List.mem_singleton_self _, hlow, hhigh⟩
  refine ⟨Text.inRanges_eq_false (by decide) hdigit, ?_⟩
  rintro rfl
  contradiction

theorem isNamePart_of_isNameStart {c : Char} (h : isNameStart c = true) : isNamePart c = true := by
  rcases Bool.or_eq_true_iff.1 h with h | h <;> simp [isNamePart, h]

/-- What starts a name starts no other token. -/
theorem not_isBlank_of_isNameStart {c : Char} (h : isNameStart c = true) :
    Text.isBlank c = false ∧ c ≠ '#' ∧ Decimal.isDigit c = false ∧ (c == '.') = false := by
  let starts := (0x5F, 0x5F) :: Text.alphabeticRanges
  let others := (0x23, 0x23) :: (0x2E, 0x2E) :: (0x30, 0x39) :: Text.blankRanges
  have hstart : Text.inRanges starts c = true := by
    rcases Bool.or_eq_true_iff.1 h with halphabetic | hline
    · obtain ⟨r, hr, hc⟩ := Text.inRanges_iff.1 halphabetic
      exact Text.inRanges_iff.2 ⟨r, List.mem_cons_of_mem _ hr, hc⟩
    · obtain rfl := eq_of_beq hline
      exact Text.inRanges_iff.2 ⟨_, List.mem_cons_self, by decide, by decide⟩
  have hapart : ∀ r ∈ starts, ∀ s ∈ others, r.2 < s.1 ∨ s.2 < r.1 := by decide +kernel
  have hother := Text.inRanges_eq_false hapart hstart
  have hnot : ∀ s ∈ others, ¬(s.1 ≤ c.toNat ∧ c.toNat ≤ s.2) :=
    fun s hs hc ↦ Bool.eq_false_iff.1 hother (Text.inRanges_iff.2 ⟨s, hs, hc⟩)
  refine ⟨Bool.eq_false_iff.2 fun hblank ↦ ?_, ?_, Bool.eq_false_iff.2 fun hdigit ↦ ?_,
    beq_eq_false_iff_ne.2 ?_⟩
  · obtain ⟨s, hs, hc⟩ := Text.inRanges_iff.1 hblank
    exact hnot s (by simp [others, hs]) hc
  · rintro rfl
    exact hnot (0x23, 0x23) (by simp [others]) (by decide)
  · exact hnot (0x30, 0x39) (by simp [others]) (Decimal.isDigit_iff.1 hdigit)
  · rintro rfl
    exact hnot (0x2E, 0x2E) (by simp [others]) (by decide)

/-! ### Written decimals -/

namespace Decimal

/-- A point and the digits behind it, if there are any. -/
def fractionPart (fraction : List Char) : List Char :=
  if fraction.isEmpty then [] else '.' :: fraction

/-- The digits in front of the point and behind it in the plain form of a decimal. -/
structure Written (whole fraction : List Char) : Prop where
  whole_ne_nil : whole ≠ []
  whole_digits : ∀ c ∈ whole, isDigit c = true
  fraction_digits : ∀ c ∈ fraction, isDigit c = true

theorem fractionPart_of_ne_nil {fraction : List Char} (h : fraction ≠ []) :
    fractionPart fraction = '.' :: fraction := by
  rw [fractionPart, List.isEmpty_eq_false_iff.2 h]
  rfl

theorem isDigit_of_mem_digitsOf {n : Nat} {c : Char} (h : c ∈ digitsOf n) : isDigit c = true := by
  have hdigit : c.isDigit = true := Nat.isDigit_of_mem_toDigits (by decide) (by decide) h
  rw [Char.isDigit, Bool.and_eq_true, decide_eq_true_iff, decide_eq_true_iff] at hdigit
  exact isDigit_iff.2 hdigit

theorem ofDigits_digitsOf (n : Nat) : ofDigits (digitsOf n) = n :=
  Nat.ofDigitChars_toDigits (by decide) (by decide)

theorem ofDigits_append_zeros (digits : List Char) (k : Nat) :
    ofDigits (digits ++ List.replicate k '0') = ofDigits digits * 10 ^ k := by
  induction k with
  | zero => rw [List.replicate_zero, List.append_nil, Nat.pow_zero, Nat.mul_one]
  | succ k ih =>
    have hlast (ds : List Char) : ofDigits (ds ++ ['0']) = 10 * ofDigits ds := List.foldl_concat ..
    rw [List.replicate_succ', ← List.append_assoc, hlast, ih, Nat.pow_succ, Nat.mul_comm,
      Nat.mul_assoc]

theorem ofDigits_zeros_append (k : Nat) (digits : List Char) :
    ofDigits (List.replicate k '0' ++ digits) = ofDigits digits := by
  have hzero : ofDigits (List.replicate k '0') = 0 := by
    have h := ofDigits_append_zeros [] k
    rwa [List.nil_append, show ofDigits [] = 0 from rfl, Nat.zero_mul] at h
  rw [ofDigits, List.foldl_append]
  exact congrArg (fun n ↦ digits.foldl _ n) hzero

/-- The plain form of a decimal has digits with the value of the decimal around a point. -/
theorem exists_written_eq (d : Decimal) : ∃ whole fraction, Written whole fraction ∧
    d.plain = String.ofList (whole ++ fractionPart fraction) ∧ 0 ≤ d.exponent + fraction.length ∧
    ofDigits (whole ++ fraction) = d.coefficient * 10 ^ (d.exponent + fraction.length).toNat := by
  have hdigits : ∀ c ∈ digitsOf d.coefficient, isDigit c = true :=
    fun c hc ↦ isDigit_of_mem_digitsOf hc
  have hne : digitsOf d.coefficient ≠ [] := Nat.toDigits_ne_nil
  have hzeros (n : Nat) : ∀ c ∈ List.replicate n '0', isDigit c = true := by
    intro c hc
    obtain rfl := List.eq_of_mem_replicate hc
    decide
  rw [plain]
  split
  · rename_i hnonneg
    refine ⟨digitsOf d.coefficient ++ List.replicate d.exponent.toNat '0', [], ⟨?_, ?_, nofun⟩, ?_,
      ?_, ?_⟩
    · exact List.append_ne_nil_of_left_ne_nil hne _
    · exact List.forall_mem_append.2 ⟨hdigits, hzeros _⟩
    · rw [fractionPart, List.isEmpty_nil, if_pos rfl, List.append_nil]
    · simpa using hnonneg
    · rw [List.append_nil, ofDigits_append_zeros, ofDigits_digitsOf, List.length_nil, Int.natCast_zero,
        Int.add_zero]
  split
  · rename_i hneg hpoint
    let point := (d.exponent + (digitsOf d.coefficient).length).toNat
    have hlt : point < (digitsOf d.coefficient).length := by omega
    have hbehind : (digitsOf d.coefficient).drop point ≠ [] := by
      rw [Ne, List.drop_eq_nil_iff]
      omega
    have hlength : d.exponent + ((digitsOf d.coefficient).drop point).length = 0 := by
      rw [List.length_drop]
      omega
    refine ⟨(digitsOf d.coefficient).take point, (digitsOf d.coefficient).drop point,
      ⟨?_, ?_, ?_⟩, ?_, hlength.ge, ?_⟩
    · rw [Ne, List.take_eq_nil_iff]
      rintro (hzero | hnil)
      · omega
      · exact hne hnil
    · exact fun c hc ↦ hdigits c (List.mem_of_mem_take hc)
    · exact fun c hc ↦ hdigits c (List.mem_of_mem_drop hc)
    · rw [fractionPart_of_ne_nil hbehind]
    · rw [List.take_append_drop, ofDigits_digitsOf, hlength, Int.toNat_zero, Nat.pow_zero, Nat.mul_one]
  · rename_i hneg hpoint
    let zeros := List.replicate (-(d.exponent + (digitsOf d.coefficient).length)).toNat '0'
    have hlength : d.exponent + (zeros ++ digitsOf d.coefficient).length = 0 := by
      rw [List.length_append, List.length_replicate]
      omega
    refine ⟨['0'], zeros ++ digitsOf d.coefficient, ⟨nofun, ?_, ?_⟩, ?_, hlength.ge, ?_⟩
    · exact fun c hc ↦ hzeros 1 c hc
    · exact List.forall_mem_append.2 ⟨hzeros _, hdigits⟩
    · rw [fractionPart_of_ne_nil (List.append_ne_nil_of_right_ne_nil _ hne)]
      rfl
    · rw [hlength, Int.toNat_zero, Nat.pow_zero, Nat.mul_one]
      exact (ofDigits_zeros_append 1 _).trans ((ofDigits_zeros_append _ _).trans (ofDigits_digitsOf _))

theorem exists_plain_eq (d : Decimal) : ∃ whole fraction, Written whole fraction ∧
    d.plain = String.ofList (whole ++ fractionPart fraction) := by
  obtain ⟨whole, fraction, hwritten, hplain, -⟩ := d.exists_written_eq
  exact ⟨whole, fraction, hwritten, hplain⟩

/-! ### Reading decimals -/

section

variable {whole fraction digits rest : List Char}

theorem isDigit_of_head (hne : digits ≠ []) (h : ∀ c ∈ digits, isDigit c = true)
    (rest : List Char) :
    ∀ c ∈ (digits ++ rest).head?, isDigit c = true := by
  obtain ⟨c, cs, rfl⟩ := List.exists_cons_of_ne_nil hne
  rintro _ ⟨⟩
  exact h c List.mem_cons_self

theorem ne_of_isDigit {c d : Char} (hc : isDigit c = true) (hd : isDigit d = false) :
    c ≠ d := by
  rintro rfl
  exact Bool.eq_false_iff.1 hd hc

/-- In front of something else, digits are taken as a whole. -/
theorem takeWhile_digits (hdigits : ∀ c ∈ digits, isDigit c = true)
    (hrest : ∀ c ∈ rest.head?, isDigit c = false) :
    (digits ++ rest).takeWhile isDigit = digits := by
  rw [List.takeWhile_append_of_pos hdigits]
  cases rest with
  | nil => exact List.append_nil digits
  | cons c rest =>
    have hc : isDigit c = false := hrest c rfl
    rw [List.takeWhile_cons_of_neg (by simp [hc]), List.append_nil]

theorem dropWhile_digits (hdigits : ∀ c ∈ digits, isDigit c = true)
    (hrest : ∀ c ∈ rest.head?, isDigit c = false) :
    (digits ++ rest).dropWhile isDigit = rest := by
  rw [List.dropWhile_append_of_pos hdigits]
  cases rest with
  | nil => rfl
  | cons c rest =>
    have hc : isDigit c = false := hrest c rfl
    exact List.dropWhile_cons_of_neg (by simp [hc])

theorem head?_fractionPart (hrest : ∀ c ∈ rest.head?, isDigit c = false) :
    ∀ c ∈ (fractionPart fraction ++ rest).head?, isDigit c = false := by
  intro c hc
  rw [fractionPart] at hc
  split at hc
  · exact hrest c hc
  · obtain rfl := Option.some.inj hc
    decide

/-- Digits, and a point with digits behind it, are taken as a whole; what follows them is the exponent,
if it is one. -/
theorem numeral_fractionPart (hwhole : ∀ c ∈ whole, isDigit c = true)
    (hfraction : ∀ c ∈ fraction, isDigit c = true)
    (hrest : ∀ c ∈ rest.head?, isDigit c = false ∧ c ≠ '.') :
    numeral (whole ++ fractionPart fraction ++ rest) =
      (⟨ofDigits (whole ++ fraction), (exponentPart rest).1 - fraction.length⟩,
        (whole ++ fractionPart fraction).length + (exponentPart rest).2) := by
  have hstop : ∀ c ∈ rest.head?, isDigit c = false := fun c hc ↦ (hrest c hc).1
  have hwhole : (whole ++ (fractionPart fraction ++ rest)).takeWhile isDigit = whole :=
    takeWhile_digits hwhole (head?_fractionPart hstop)
  have hbehind : fractionDigits (fractionPart fraction ++ rest) = fraction := by
    cases fraction with
    | nil =>
      cases rest with
      | nil => rfl
      | cons c rest =>
        have hc : c ≠ '.' := (hrest c rfl).2
        rw [fractionPart, List.isEmpty_nil, if_pos rfl, List.nil_append, fractionDigits]
        exact fun more heq ↦ hc (List.cons.inj heq).1
    | cons c fraction => exact takeWhile_digits hfraction hstop
  have hlength : (if fraction.isEmpty then 0 else fraction.length + 1) =
      (fractionPart fraction).length := by
    cases fraction <;> rfl
  have hdrop : (whole ++ (fractionPart fraction ++ rest)).drop
      (whole.length + (fractionPart fraction).length) = rest := by
    rw [← List.append_assoc, ← List.length_append, List.drop_left]
  rw [numeral, List.append_assoc]
  simp only [hwhole, List.drop_left, hbehind, hlength, hdrop, List.length_append]

section Unsigned

variable {c : Char} {cs : List Char}

/-- What begins with a digit or a point is none of the words for doubles. -/
theorem ofUnsigned?_cons (hfirst : isDigit c = true ∨ c = '.') :
    Double.ofUnsigned? (c :: cs) = (ofChars? (c :: cs)).map toFloat := by
  have hlower : c.toLower = c := by
    rcases hfirst with hdigit | rfl
    · obtain ⟨-, hhigh⟩ := isDigit_iff.1 hdigit
      refine dif_neg fun hupper ↦ ?_
      have hle : 0x41 ≤ c.toNat := hupper.1
      omega
    · rfl
  have hword (d : Char) (ds : List Char) (hd : isDigit d = false ∧ d ≠ '.') :
      (c :: cs).map Char.toLower ≠ d :: ds := by
    intro heq
    rw [List.map_cons, hlower] at heq
    obtain ⟨rfl, -⟩ := List.cons.inj heq
    exact hfirst.elim (Bool.eq_false_iff.1 hd.1) hd.2
  rw [Double.ofUnsigned?, if_neg, if_neg]
  · exact hword 'n' _ (by decide)
  · rintro (hinf | hinfinity)
    · exact hword 'i' _ (by decide) hinf
    · exact hword 'i' _ (by decide) hinfinity

/-- And it has no sign. -/
theorem ofText?_ofList (hfirst : isDigit c = true ∨ c = '.') :
    Double.ofText? (String.ofList (c :: cs)) = Double.ofUnsigned? (c :: cs) := by
  have hne (d : Char) (hd : isDigit d = false ∧ d ≠ '.') : c ≠ d := by
    rintro rfl
    exact hfirst.elim (Bool.eq_false_iff.1 hd.1) hd.2
  rw [Double.ofText?, String.toList_ofList]
  split
  · rename_i heq
    exact absurd (List.cons.inj heq).1 (hne '-' (by decide))
  · rename_i heq
    exact absurd (List.cons.inj heq).1 (hne '+' (by decide))
  · rfl

end Unsigned

namespace Written

/-- In front of a blank, and at the end of a line, all of a decimal is one number. -/
theorem numeral_eq (h : Written whole fraction) (hrest : ∀ c ∈ rest.head?, c = ' ') :
    numeral (whole ++ fractionPart fraction ++ rest) =
      (⟨ofDigits (whole ++ fraction), 0 - fraction.length⟩,
        (whole ++ fractionPart fraction).length) := by
  have hstop : ∀ c ∈ rest.head?, isDigit c = false ∧ c ≠ '.' := by
    intro c hc
    obtain rfl := hrest c hc
    decide
  have hexponent : exponentPart rest = (0, 0) := by
    match rest with
    | [] => rfl
    | [_] => rfl
    | c :: _ :: _ =>
      obtain rfl := hrest c rfl
      rfl
  rw [numeral_fractionPart h.whole_digits h.fraction_digits hstop, hexponent, Nat.add_zero]

/-- Read as a whole, the text denotes the same decimal, with what follows it as the exponent. -/
theorem ofChars?_append (h : Written whole fraction) (rest : List Char)
    (hrest : ∀ c ∈ rest.head?, isDigit c = false ∧ c ≠ '.') :
    ofChars? (whole ++ fractionPart fraction ++ rest) =
      (exponentOfChars? rest).map fun e ↦ ⟨ofDigits (whole ++ fraction), e - fraction.length⟩ := by
  have hstop : ∀ c ∈ rest.head?, isDigit c = false := fun c hc ↦ (hrest c hc).1
  have hbehind : ∀ c ∈ (fractionPart fraction ++ rest).head?, isDigit c = false :=
    head?_fractionPart hstop
  rw [List.append_assoc]
  have hwhole : (whole ++ (fractionPart fraction ++ rest)).takeWhile isDigit = whole :=
    takeWhile_digits h.whole_digits hbehind
  have hdrop : (whole ++ (fractionPart fraction ++ rest)).dropWhile isDigit =
      fractionPart fraction ++ rest :=
    dropWhile_digits h.whole_digits hbehind
  have hne : whole.isEmpty = false := List.isEmpty_eq_false_iff.2 h.whole_ne_nil
  simp only [ofChars?, hwhole, hdrop, hne, Bool.false_and, Bool.false_eq_true, if_false]
  cases fraction with
  | nil =>
    match rest with
    | [] => rfl
    | c :: rest =>
      rw [fractionPart, List.isEmpty_nil, if_pos rfl, List.nil_append]
      split
      · rename_i heq
        exact absurd (List.cons.inj heq).1 (hrest c rfl).2
      · rfl
  | cons c fraction =>
    have htake : (c :: fraction ++ rest).takeWhile isDigit = c :: fraction :=
      takeWhile_digits h.fraction_digits hstop
    have hdrop : (c :: fraction ++ rest).dropWhile isDigit = rest :=
      dropWhile_digits h.fraction_digits hstop
    simp only [fractionPart_of_ne_nil (List.cons_ne_nil c fraction), List.cons_append] at htake hdrop ⊢
    rw [htake, hdrop]

theorem ofChars?_eq (h : Written whole fraction) :
    ofChars? (whole ++ fractionPart fraction) =
      some ⟨ofDigits (whole ++ fraction), 0 - fraction.length⟩ := by
  have hread := h.ofChars?_append [] nofun
  rwa [List.append_nil] at hread

/-- And so it is a double. -/
theorem ofText?_eq (h : Written whole fraction) :
    Double.ofText? (String.ofList (whole ++ fractionPart fraction)) =
      some (toFloat ⟨ofDigits (whole ++ fraction), 0 - fraction.length⟩) := by
  have hread := h.ofChars?_eq
  obtain ⟨c, cs, rfl⟩ := List.exists_cons_of_ne_nil h.whole_ne_nil
  have hfirst : isDigit c = true ∨ c = '.' := .inl (h.whole_digits c List.mem_cons_self)
  rw [List.cons_append, ofText?_ofList hfirst, ofUnsigned?_cons hfirst, ← List.cons_append, hread]
  rfl

end Written

end

end Decimal

/-- The text of a double without a sign is the plain form of a decimal. -/
theorem Double.exists_plainText_eq {x : Float} (h : (ofFloat x).isUnsigned = true) :
    ∃ d : Decimal, plainText x = d.plain := by
  rw [plainText, textWith]
  rcases hx : ofFloat x with - | negative | ⟨- | -, mantissa, exponent⟩
  · rw [hx] at h
    contradiction
  · rw [hx] at h
    contradiction
  · exact ⟨_, String.empty_append⟩
  · rw [hx] at h
    contradiction

/-! ### Tokens of expressions -/

namespace Token

/-- A number without a sign is read back if its text denotes it. -/
theorem plain_number {value : Float} (hunsigned : (Double.ofFloat value).isUnsigned = true)
    (hvalue : Double.ofText? (Double.plainText value) = some value) :
    (number value).Plain := by
  obtain ⟨d, hd⟩ := Double.exists_plainText_eq hunsigned
  obtain ⟨whole, fraction, hwritten, hplain⟩ := d.exists_plain_eq
  have htext : Double.plainText value = String.ofList (whole ++ Decimal.fractionPart fraction) :=
    hd.trans hplain
  rw [htext, hwritten.ofText?_eq, Option.some.injEq] at hvalue
  obtain ⟨c, cs, rfl⟩ := List.exists_cons_of_ne_nil hwritten.whole_ne_nil
  have hdigit : Decimal.isDigit c = true := hwritten.whole_digits c List.mem_cons_self
  obtain ⟨hblank, hsharp⟩ := Decimal.not_isBlank_of_isDigit hdigit
  refine ⟨c, cs ++ Decimal.fractionPart fraction, htext, hblank, hsharp, fun rest hrest ↦ ?_⟩
  have hnumeral := hwritten.numeral_eq hrest
  rw [List.cons_append, List.cons_append] at hnumeral
  rw [lexeme?, hdigit, Bool.true_or, if_pos rfl, hnumeral]
  dsimp only
  rw [← hvalue]
  rfl

/-- A name is a word that is no word of conversion. -/
theorem exists_cons_of_isName {name : String} (h : isName name = true) :
    ∃ c cs, name = String.ofList (c :: cs) ∧ isNameStart c = true ∧
      (∀ d ∈ cs, isNamePart d = true) ∧ (ofWord name : Token K) = .name name := by
  simp only [isName, Bool.and_eq_true, bne_iff_ne] at h
  obtain ⟨⟨⟨hstart, hparts⟩, hto⟩, hin⟩ := h
  obtain ⟨c, hc, hstart⟩ := (Option.any_eq_true _ _).1 hstart
  obtain ⟨cs, hcs⟩ := List.head?_eq_some_iff.1 hc
  refine ⟨c, cs, by rw [← hcs, String.ofList_toList], hstart, fun d hd ↦ ?_,
    if_neg (not_or.2 ⟨hto, hin⟩)⟩
  exact List.all_eq_true.1 hparts d (hcs ▸ List.mem_cons_of_mem c hd)

theorem plain_name [Scalar K] {name : String} (h : isName name = true) :
    (Token.name name : Token K).Plain := by
  obtain ⟨c, cs, htext, hstart, hparts, hword⟩ := exists_cons_of_isName h
  obtain ⟨hblank, hsharp, hdigit, hpoint⟩ := not_isBlank_of_isNameStart hstart
  refine plain_of_word c cs htext ⟨hblank, hsharp, hdigit, hpoint, hstart⟩ hparts ?_
  rw [← htext, hword]

theorem plain_exponentTokens {n : Int} (hn : n.natAbs ≤ Reader.maxUnitExponent) :
    ∀ t ∈ (exponentTokens n : List (Token Float)), t.Plain := by
  have hnumber {m : Int} (hpos : 0 ≤ m) (hle : m ≤ Reader.maxUnitExponent) :
      (number (Scalar.ofInt m) : Token Float).Plain := by
    obtain ⟨k, rfl⟩ := Reader.exists_exponent hpos hle
    obtain ⟨hunsigned, -, htext⟩ := Double.ofInt_exponent k
    exact plain_number hunsigned htext
  rw [exponentTokens]
  split
  · exact List.forall_mem_nil _
  split
  · have hminus : (number (Scalar.ofInt (-n)) : Token Float).Plain :=
      hnumber (by omega) (by omega)
    exact List.forall_mem_cons.2 ⟨plain_of_isMark rfl,
      List.forall_mem_cons.2 ⟨plain_of_isMark rfl, List.forall_mem_singleton.2 hminus⟩⟩
  · have hplus : (number (Scalar.ofInt n) : Token Float).Plain := hnumber (by omega) (by omega)
    exact List.forall_mem_cons.2 ⟨plain_of_isMark rfl, List.forall_mem_singleton.2 hplus⟩

theorem plain_targetTokens {divided : Bool} {target : List UnitPower}
    (h : target.all UnitPower.isWritable = true) :
    ∀ t ∈ (targetTokens divided target : List (Token Float)), t.Plain := by
  have hfactor {divided : Bool} {u : UnitPower} (hu : u.isWritable = true) :
      ∀ t ∈ (u.tokens divided : List (Token Float)), t.Plain := by
    obtain ⟨hname, hle⟩ := Bool.and_eq_true_iff.1 hu
    refine List.forall_mem_cons.2 ⟨plain_name hname, plain_exponentTokens ?_⟩
    have hle := of_decide_eq_true hle
    split
    · rwa [Int.natAbs_neg]
    · exact hle
  induction divided, target using targetTokens.induct with
  | case1 => exact List.forall_mem_nil _
  | case2 divided u => exact hfactor (List.all_eq_true.1 h u List.mem_cons_self)
  | case3 divided u v more ih =>
    obtain ⟨hu, hmore⟩ := Bool.and_eq_true_iff.1 (List.all_cons.symm.trans h)
    have hjoint (next : Bool) : (joint next : Token Float).Plain :=
      plain_of_isMark (by cases next <;> rfl)
    rw [targetTokens]
    exact List.forall_mem_append.2 ⟨hfactor hu, List.forall_mem_cons.2 ⟨hjoint _, ih hmore⟩⟩

theorem plain_enclose [Scalar K] {least rank : Rank} {w : List (Token K)} (h : ∀ t ∈ w, t.Plain) :
    ∀ t ∈ least.enclose rank w, t.Plain := by
  rw [Rank.enclose]
  split
  · exact h
  · rw [List.cons_append]
    exact List.forall_mem_cons.2 ⟨plain_of_isMark rfl,
      List.forall_mem_append.2 ⟨h, List.forall_mem_singleton.2 (plain_of_isMark rfl)⟩⟩

end Token

namespace Expr

mutual

/-- All tokens of an expression that can be written are read as they are. -/
theorem plain_tokens : (e : Expr Float) → e.isWritable = true →
    (∀ v ∈ e.numbers, Double.ofText? (Double.plainText v) = some v) → ∀ t ∈ e.tokens, t.Plain
  | .number value, h, hnumbers =>
    List.forall_mem_singleton.2 (Token.plain_number h (hnumbers value (List.mem_singleton_self value)))
  | .symbol name, h, _ => List.forall_mem_singleton.2 (Token.plain_name h)
  | .binary op left right, h, hnumbers => by
    obtain ⟨hleft, hright⟩ := Bool.and_eq_true_iff.1 h
    obtain ⟨hleft', hright'⟩ := List.forall_mem_append.1 hnumbers
    have hop : (op.token : Token Float).Plain := Token.plain_of_isMark (by cases op <;> rfl)
    have hleft := plain_tokens left hleft hleft'
    have hright := plain_tokens right hright hright'
    rw [tokens]
    exact List.forall_mem_append.2
      ⟨Token.plain_enclose hleft, List.forall_mem_cons.2 ⟨hop, Token.plain_enclose hright⟩⟩
  | .signed sign operand, h, hnumbers => by
    have hsign : (sign.token : Token Float).Plain := Token.plain_of_isMark (by cases sign <;> rfl)
    rw [tokens]
    exact List.forall_mem_cons.2 ⟨hsign, Token.plain_enclose (plain_tokens operand h hnumbers)⟩
  | .call callee args, h, hnumbers => by
    obtain ⟨h, hargs⟩ := Bool.and_eq_true_iff.1 h
    obtain ⟨-, hcallee⟩ := Bool.and_eq_true_iff.1 h
    obtain ⟨hcallee', hargs'⟩ := List.forall_mem_append.1 hnumbers
    have hargs := plain_argumentTokens args hargs hargs'
    rw [tokens, List.append_assoc]
    refine List.forall_mem_append.2 ⟨plain_tokens callee hcallee hcallee', ?_⟩
    exact List.forall_mem_cons.2 ⟨Token.plain_of_isMark rfl,
      List.forall_mem_append.2 ⟨hargs, List.forall_mem_singleton.2 (Token.plain_of_isMark rfl)⟩⟩
  | .convert value target, h, hnumbers => by
    obtain ⟨h, htarget⟩ := Bool.and_eq_true_iff.1 h
    obtain ⟨hvalue, -⟩ := Bool.and_eq_true_iff.1 h
    rw [tokens]
    exact List.forall_mem_append.2 ⟨plain_tokens value hvalue hnumbers,
      List.forall_mem_cons.2 ⟨Token.plain_of_isMark rfl, Token.plain_targetTokens htarget⟩⟩

theorem plain_argumentTokens : (args : List (Expr Float)) → areWritable args = true →
    (∀ v ∈ argumentNumbers args, Double.ofText? (Double.plainText v) = some v) →
      ∀ t ∈ argumentTokens args, t.Plain
  | [], _, _ => List.forall_mem_nil _
  | [e], h, hnumbers => by
    obtain ⟨he, -⟩ := Bool.and_eq_true_iff.1 h
    exact plain_tokens e he (List.forall_mem_append.1 hnumbers).1
  | e :: f :: more, h, hnumbers => by
    obtain ⟨he, hmore⟩ := Bool.and_eq_true_iff.1 h
    obtain ⟨he', hmore'⟩ := List.forall_mem_append.1 hnumbers
    rw [argumentTokens]
    exact List.forall_mem_append.2 ⟨plain_tokens e he he', List.forall_mem_cons.2
      ⟨Token.plain_of_isMark rfl, plain_argumentTokens (f :: more) hmore hmore'⟩⟩

end

end Expr

theorem intercalate_text [Scalar K] (t : Token K) (ts : List (Token K)) :
    [' '].intercalate ((t :: ts).map fun t ↦ t.text.toList) = t.text.toList ++ spell ts := by
  induction ts generalizing t with
  | nil => rw [List.map_cons, List.map_nil, List.intercalate_singleton, spell, List.flatMap_nil,
      List.append_nil]
  | cons u ts ih =>
    have hspell : spell (u :: ts) = ' ' :: (u.text.toList ++ spell ts) := List.flatMap_cons
    have hrest := ih u
    rw [List.map_cons] at hrest
    rw [List.map_cons, List.map_cons, List.intercalate_cons_cons, hrest, hspell, List.append_assoc]
    rfl

/-- Tokens with blanks between them are read as these tokens. -/
theorem Tokens.ofText_intercalate [Scalar K] {ts : List (Token K)} (h : ∀ t ∈ ts, t.Plain) :
    Tokens.ofText (" ".intercalate (ts.map Token.text)) = .ofList ts := by
  rw [Tokens.ofText, String.toList_intercalate, List.map_map]
  cases ts with
  | nil => rw [List.map_nil, List.intercalate_nil, Tokens.ofChars]; rfl
  | cons t ts =>
    obtain ⟨next, hnext⟩ := (h t List.mem_cons_self).ofChars_append (head?_spell ts) 0
    refine (congrArg (Tokens.ofChars 0) (intercalate_text t ts)).trans (hnext.trans ?_)
    rw [Tokens.ofChars_spell fun u hu ↦ h u (List.mem_cons_of_mem _ hu)]
    rfl

/-! ### Whole texts -/

/-- Under every limit the result is the given one or an expression that is too deep, and from some
limit on it is the given one. -/
def SettlesOn {α : Type} (read : Nat → Except ParseError α) (a : α) : Prop :=
  (∀ limit, read limit = .ok a ∨ read limit = .error (.tooDeep limit)) ∧
    ∃ least, ∀ limit ≥ least, read limit = .ok a

theorem settlesOn_of_eventually {α : Type} {read : Nat → Except ParseError α} {a : α}
    (hextends : ∀ limit limit', limit ≤ limit' → Extends limit (read limit) (read limit'))
    (h : ∀ᶠ limit in atTop, read limit = .ok a) : SettlesOn read a := by
  obtain ⟨least, hleast⟩ := eventually_atTop.1 h
  refine ⟨fun limit ↦ ?_, least, hleast⟩
  rcases hextends limit (max limit least) (le_max_left limit least) with hdeep | hsame
  · exact .inr hdeep
  · exact .inl (hsame.symm.trans (hleast _ (le_max_right limit least)))

/-- If the tokens of a text are taken as an expression, then the text settles on the line that this
expression is. -/
theorem Statement.settlesOn_of_takes [Scalar K] {text : String} {ts : List (Token K)} {e : Expr K}
    (htokens : Tokens.ofText text = .ofList ts)
    (htakes : Reader.Takes Reader.expression ts e []) :
    SettlesOn (fun limit ↦ Statement.ofText limit text) ⟨.expression e, false⟩ := by
  have hlook : (Tokens.ofText text).look = .ok (.ofList ts) := by
    rw [htokens, Tokens.look_ofList]
  refine settlesOn_of_eventually (fun _ _ hle ↦ Statement.ofText_extends hle _) ?_
  filter_upwards [htakes] with limit hexpression
  have hfirst : ¬((Tokens.ofList ts).peek = none ∨
      (Tokens.ofList ts).peek = some .semicolon) := by
    obtain ⟨t, ht, hstarts⟩ := Reader.exists_first_of_expression (hexpression limit)
    rw [Tokens.peek_ofList, ht]
    rintro (hnone | hsemicolon)
    · contradiction
    · obtain rfl := Option.some.inj hsemicolon
      exact hstarts.elim nofun nofun
  refine Statement.ofText_eq_ok.2 ⟨_, .ofList [], .ofList [], hlook, ?_, rfl, rfl⟩
  exact Reader.action_eq_ok.2 (.inr ⟨hfirst, e, _, hexpression limit, .inl ⟨nofun, rfl, rfl⟩⟩)

namespace Expr

/-- **Reading undoes writing.** The text of an expression that can be written is read as this
expression, alone and as a line, unless the limit does not admit its depth; all limits from some on do.
It is assumed that the decimal text of a number denotes the number. -/
theorem ofText_text {e : Expr Float} (h : e.isWritable = true)
    (hnumbers : ∀ v ∈ e.numbers, Double.ofText? (Double.plainText v) = some v) :
    SettlesOn (fun limit ↦ Expr.ofText limit e.text) e ∧
      SettlesOn (fun limit ↦ Statement.ofText limit e.text) ⟨.expression e, false⟩ := by
  have htokens : (Tokens.ofText e.text : Tokens Float) = .ofList e.tokens :=
    Tokens.ofText_intercalate (plain_tokens e h hnumbers)
  have hlook : (Tokens.ofText e.text).look = .ok (.ofList e.tokens) := by
    rw [htokens, Tokens.look_ofList]
  have htakes : Reader.Takes Reader.expression (e.tokens ++ []) e [] :=
    (Reader.readsAs_tokens e h).takes_expression rfl
  rw [List.append_nil] at htakes
  refine ⟨settlesOn_of_eventually (fun _ _ hle ↦ ofText_extends hle _) ?_,
    Statement.settlesOn_of_takes htokens htakes⟩
  filter_upwards [htakes] with limit hexpression
  exact ofText_eq_ok.2 ⟨_, _, hlook, hexpression limit, rfl⟩

/-- A sign in front of a power, a power of a sum, a call in an exponent, and a division in a target. -/
def sample : Expr Float :=
  .convert
    (.binary .multiply
      (.signed .minus (.binary .power (.binary .add (.symbol "a") (.number 2.5)) (.number 2)))
      (.binary .power (.symbol "b")
        (.signed .minus (.call (.symbol "f") [.number 3, .signed .plus (.symbol "c")]))))
    [⟨"m", 2⟩, ⟨"s", -1⟩]

theorem ofText_text_sample :
    sample.text = "- ( a + 2.5 ) ^ 2 * b ^ - f ( 3 , + c ) to m ^ 2 / s" ∧
      SettlesOn (fun limit ↦ Expr.ofText limit sample.text) sample ∧
      SettlesOn (fun limit ↦ Statement.ofText limit sample.text) ⟨.expression sample, false⟩ :=
  ⟨by decide +kernel, ofText_text (by decide +kernel) (by decide +kernel)⟩

end Expr

end Reckoner
