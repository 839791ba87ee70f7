import Reckoner.Proofs.PrintedText
import Reckoner.Units.Basic

/-!
# Reading the text of units

A decimal literal, a blank and the text of a product of units are read as one product: the literal
times the units in front of the slash, divided by those behind it (`Units.settlesOn_expr`). The
text of units has no multiplication signs, so all of it rests on juxtaposition, which binds tighter
than the slash and looser than powers. This is why several units behind the slash stand in parentheses
and a single one does not.

The characters of such a text are not separated by blanks throughout: names touch power signs, and
parentheses touch what they enclose. So `Tokens.Reads` says of characters what they are read as in
front of certain others, and pieces are put together one by one.
-/

open Filter

namespace Reckoner

variable {K : Type} [Scalar K]

/-! ### Decimal literals -/

namespace Decimal

/-- The exponent of a decimal literal: a letter, a sign or none, and digits. -/
structure ExponentText where
  letter : Char
  sign : Option Sign
  digits : List Char
  letter_eq : letter = 'e' ∨ letter = 'E'
  digits_ne_nil : digits ≠ []
  isDigit_of_mem : ∀ c ∈ digits, isDigit c = true

namespace ExponentText

/-- The characters of an optional sign. -/
def signChars : Option Sign → List Char
  | none => []
  | some .plus => ['+']
  | some .minus => ['-']

/-- The characters of the exponent. -/
def chars (e : ExponentText) : List Char := e.letter :: (signChars e.sign ++ e.digits)

/-- The exponent that is written. -/
def value (e : ExponentText) : Int :=
  if e.sign = some .minus then -(ofDigits e.digits : Int) else ofDigits e.digits

end ExponentText

/-- **Decimal literals**: digits with an optional point that a digit follows, and an optional exponent
behind them. -/
structure Literal where
  whole : List Char
  fraction : List Char
  exponent : Option ExponentText
  digits_ne_nil : whole ++ fraction ≠ []
  isDigit_of_mem_whole : ∀ c ∈ whole, isDigit c = true
  isDigit_of_mem_fraction : ∀ c ∈ fraction, isDigit c = true

namespace Literal

/-- The characters of the exponent, if there is one. -/
def exponentChars (l : Literal) : List Char := l.exponent.elim [] ExponentText.chars

/-- The characters of the literal. -/
def chars (l : Literal) : List Char := l.whole ++ fractionPart l.fraction ++ l.exponentChars

/-- The text of the literal. -/
def text (l : Literal) : String := String.ofList l.chars

/-- The decimal that is written. -/
def value (l : Literal) : Decimal :=
  ⟨ofDigits (l.whole ++ l.fraction), l.exponent.elim 0 ExponentText.value - l.fraction.length⟩

/-- A literal begins with a digit, or with a point that a digit follows. -/
theorem exists_cons (l : Literal) : ∃ c cs, l.chars = c :: cs ∧
    (isDigit c = true ∨ c = '.' ∧ ∃ d ∈ cs.head?, isDigit d = true) := by
  rcases hwhole : l.whole with - | ⟨c, cs⟩
  · have hne : l.fraction ≠ [] := by
      have h := l.digits_ne_nil
      rwa [hwhole, List.nil_append] at h
    obtain ⟨d, ds, hfraction⟩ := List.exists_cons_of_ne_nil hne
    have hd : isDigit d = true := l.isDigit_of_mem_fraction d (hfraction ▸ List.mem_cons_self)
    refine ⟨'.', d :: ds ++ l.exponentChars, ?_, .inr ⟨rfl, d, rfl, hd⟩⟩
    rw [chars, hwhole, hfraction]
    rfl
  · have hc : isDigit c = true := l.isDigit_of_mem_whole c (hwhole ▸ List.mem_cons_self)
    refine ⟨c, cs ++ fractionPart l.fraction ++ l.exponentChars, ?_, .inl hc⟩
    rw [chars, hwhole]
    rfl

/-- Behind the digits of a literal stands the letter of its exponent, or nothing. -/
theorem head?_exponentChars (l : Literal) : ∀ c ∈ l.exponentChars.head?, c = 'e' ∨ c = 'E' := by
  intro c hc
  rw [exponentChars] at hc
  cases hl : l.exponent with
  | none =>
    rw [hl] at hc
    contradiction
  | some e =>
    rw [hl] at hc
    obtain rfl := Option.some.inj hc
    exact e.letter_eq

/-- A natural number as a literal. -/
def ofNat (n : Nat) : Literal where
  whole := digitsOf n
  fraction := []
  exponent := none
  digits_ne_nil := by
    rw [List.append_nil]
    exact Nat.toDigits_ne_nil
  isDigit_of_mem_whole _ := isDigit_of_mem_digitsOf
  isDigit_of_mem_fraction := nofun

theorem chars_ofNat (n : Nat) : (ofNat n).chars = (toString n).toList := by
  show digitsOf n ++ [] ++ [] = _
  rw [List.append_nil, List.append_nil]
  exact (String.toList_ofList).symm

theorem value_ofNat (n : Nat) : (ofNat n).value = ⟨n, 0⟩ := by
  show (⟨ofDigits (digitsOf n ++ []), 0 - 0⟩ : Decimal) = _
  rw [List.append_nil, ofDigits_digitsOf]
  rfl

end Literal

end Decimal

/-- What may follow a number or a name here: a blank, a right parenthesis, or the end of the line. -/
def Ends (rest : List Char) : Prop := ∀ c ∈ rest.head?, c = ' ' ∨ c = ')'

theorem Ends.of_head? {rest : List Char} (h : Ends rest) {p : Char → Prop} (hblank : p ' ')
    (hparen : p ')') : ∀ c ∈ rest.head?, p c := by
  intro c hc
  rcases h c hc with rfl | rfl
  · exact hblank
  · exact hparen

theorem exponentPart_of_ends {rest : List Char} (h : Ends rest) : exponentPart rest = (0, 0) := by
  match rest with
  | [] => rfl
  | [_] => rfl
  | c :: _ :: _ =>
    rcases h c rfl with rfl | rfl <;> rfl

/-- In front of what is no digit, an exponent is taken as a whole. -/
theorem Decimal.ExponentText.exponentPart_chars (e : ExponentText) {rest : List Char}
    (hstop : ∀ c ∈ rest.head?, isDigit c = false) :
    exponentPart (e.chars ++ rest) = (e.value, e.chars.length) := by
  have htake : (e.digits ++ rest).takeWhile isDigit = e.digits :=
    takeWhile_digits e.isDigit_of_mem hstop
  have hne : e.digits.isEmpty = false := List.isEmpty_eq_false_iff.2 e.digits_ne_nil
  obtain ⟨letter, sign, digits, hletter, hdigits, hall⟩ := e
  dsimp only at htake hne
  match sign with
  | some .plus =>
    show exponentPart (letter :: '+' :: (digits ++ rest)) = _
    rw [exponentPart, if_pos hletter]
    simp [htake, hne, value, chars, signChars]
  | some .minus =>
    show exponentPart (letter :: '-' :: (digits ++ rest)) = _
    rw [exponentPart, if_pos hletter]
    simp [htake, hne, value, chars, signChars]
  | none =>
    obtain ⟨d, ds, rfl⟩ := List.exists_cons_of_ne_nil hdigits
    have hd : isDigit d = true := hall d List.mem_cons_self
    have hplus : d ≠ '+' := by rintro rfl; contradiction
    have hminus : d ≠ '-' := by rintro rfl; contradiction
    rw [List.cons_append] at htake
    show exponentPart (letter :: d :: (ds ++ rest)) = _
    rw [exponentPart, if_pos hletter]
    simp [htake, hplus, hminus, value, chars, signChars]

/-! ### Characters in front of others -/

namespace Tokens

variable {cs ds rest : List Char} {ts us : List (Token K)} {c : Char} {t : Token K}

/-- In front of `rest`, the characters are read as the tokens. -/
def Reads (cs : List Char) (ts : List (Token K)) (rest : List Char) : Prop :=
  ∀ column, ∃ next, ofChars column (cs ++ rest) = prepend ts (ofChars next rest)

theorem reads_nil (rest : List Char) : Reads (K := K) [] [] rest :=
  fun column ↦ ⟨column, rfl⟩

theorem Reads.append (h : Reads cs ts (ds ++ rest)) (h' : Reads ds us rest) :
    Reads (cs ++ ds) (ts ++ us) rest := by
  intro column
  obtain ⟨next, hnext⟩ := h column
  obtain ⟨last, hlast⟩ := h' next
  refine ⟨last, ?_⟩
  rw [List.append_assoc, hnext, hlast, prepend_append]

theorem reads_blank (hc : Text.isBlank c = true) (rest : List Char) :
    Reads (K := K) [c] [] rest := by
  refine fun column ↦ ⟨column + 1, ?_⟩
  rw [List.singleton_append, ofChars, if_pos hc]
  rfl

theorem reads_of_lexeme? (hblank : Text.isBlank c = false) (hsharp : c ≠ '#')
    (h : Token.lexeme? c (cs ++ rest) = some (t, cs.length)) : Reads (c :: cs) [t] rest := by
  refine fun column ↦ ⟨column + 1 + cs.length, ?_⟩
  rw [List.cons_append, ofChars, hblank, if_neg (by simp), if_neg hsharp, h]
  dsimp only
  rw [List.drop_left]
  rfl

/-- A mark of one character is read as such, whatever follows. -/
theorem reads_mark (hc : Token.StartsMark c)
    (hmark : ∀ rest, Token.mark? c rest = some (t, 0)) : Reads [c] [t] rest := by
  obtain ⟨hblank, hsharp, hdigit, hpoint, hname⟩ := hc
  refine reads_of_lexeme? hblank hsharp ?_
  rw [Token.lexeme?, hdigit, hpoint, hname]
  exact hmark rest

theorem reads_caret : Reads (K := K) ['^'] [.caret] rest :=
  reads_mark (Token.startsMark_of_mem (by decide)) fun _ ↦ rfl

theorem reads_minus : Reads (K := K) ['-'] [.minus] rest :=
  reads_mark (Token.startsMark_of_mem (by decide)) fun _ ↦ rfl

theorem reads_divide : Reads (K := K) ['/'] [.divide] rest :=
  reads_mark (Token.startsMark_of_mem (by decide)) fun _ ↦ rfl

theorem reads_leftParen : Reads (K := K) ['('] [.leftParen] rest :=
  reads_mark (Token.startsMark_of_mem (by decide)) fun _ ↦ rfl

theorem reads_rightParen : Reads (K := K) [')'] [.rightParen] rest :=
  reads_mark (Token.startsMark_of_mem (by decide)) fun _ ↦ rfl

theorem reads_name {name : String} (h : isName name = true)
    (hrest : ∀ c ∈ rest.head?, isNamePart c = false) :
    Reads (K := K) name.toList [.name name] rest := by
  obtain ⟨c, cs, htext, hstart, hparts, hword⟩ := Token.exists_cons_of_isName (K := K) h
  obtain ⟨hblank, hsharp, hdigit, hpoint⟩ := not_isBlank_of_isNameStart hstart
  rw [htext, String.toList_ofList, ← htext]
  refine reads_of_lexeme? hblank hsharp ?_
  rw [Token.lexeme?_word ⟨hdigit, hpoint, hstart⟩ hparts hrest, ← htext, hword]

/-- The number with which a literal begins is the whole literal. -/
theorem numeral_literal (l : Decimal.Literal) (hrest : Ends rest) :
    numeral (l.chars ++ rest) = (l.value, l.chars.length) := by
  have hexponent : exponentPart (l.exponentChars ++ rest) =
      (l.exponent.elim 0 Decimal.ExponentText.value, l.exponentChars.length) := by
    rw [Decimal.Literal.exponentChars]
    cases l.exponent with
    | none => exact exponentPart_of_ends hrest
    | some e => exact e.exponentPart_chars (hrest.of_head? (by decide) (by decide))
  have hstop : ∀ c ∈ (l.exponentChars ++ rest).head?, Decimal.isDigit c = false ∧ c ≠ '.' := by
    intro c hc
    cases hchars : l.exponentChars with
    | nil =>
      rw [hchars] at hc
      exact hrest.of_head? (p := fun c ↦ Decimal.isDigit c = false ∧ c ≠ '.') (by decide)
        (by decide) c hc
    | cons d ds =>
      rw [hchars] at hc
      obtain rfl := Option.some.inj hc
      rcases l.head?_exponentChars d (by rw [hchars]; rfl) with rfl | rfl <;> decide
  rw [Decimal.Literal.chars, List.append_assoc,
    Decimal.numeral_fractionPart l.isDigit_of_mem_whole l.isDigit_of_mem_fraction hstop, hexponent]
  simp only [List.length_append]
  rfl

theorem reads_literal (l : Decimal.Literal) (hrest : Ends rest) :
    Reads (K := K) l.chars [.number (Scalar.ofDecimal l.value)] rest := by
  have hnumeral := numeral_literal l hrest
  obtain ⟨c, cs, hchars, hfirst⟩ := l.exists_cons
  have hstart : (Decimal.isDigit c || (c == '.' && (cs ++ rest).head?.any Decimal.isDigit)) = true := by
    rcases hfirst with hc | ⟨rfl, d, hd, hdigit⟩
    · rw [hc, Bool.true_or]
    · obtain ⟨ds, rfl⟩ := List.head?_eq_some_iff.1 hd
      simp [hdigit]
  obtain ⟨hblank, hsharp⟩ : Text.isBlank c = false ∧ c ≠ '#' := by
    rcases hfirst with hc | ⟨rfl, -⟩
    · exact Decimal.not_isBlank_of_isDigit hc
    · decide
  rw [hchars] at hnumeral ⊢
  refine reads_of_lexeme? hblank hsharp ?_
  rw [List.cons_append] at hnumeral
  rw [Token.lexeme?, if_pos hstart, hnumeral]
  rfl

theorem reads_nat (n : Nat) (hrest : Ends rest) :
    Reads (K := K) (toString n).toList [.number (Scalar.ofInt n)] rest := by
  rw [← Decimal.Literal.chars_ofNat]
  have h := reads_literal (K := K) (.ofNat n) hrest
  rwa [Decimal.Literal.value_ofNat] at h

/-- Pieces with blanks between them are read one by one. -/
theorem reads_intercalate {α : Type} {f : α → List Char} {g : α → List (Token K)} {as : List α}
    (h : ∀ a ∈ as, ∀ rest, Ends rest → Reads (f a) (g a) rest) (hrest : Ends rest) :
    Reads ([' '].intercalate (as.map f)) (as.flatMap g) rest := by
  induction as with
  | nil => exact reads_nil rest
  | cons a as ih =>
    have hmore := ih fun b hb ↦ h b (List.mem_cons_of_mem a hb)
    cases as with
    | nil =>
      rw [List.map_singleton, List.intercalate_singleton, List.flatMap_singleton]
      exact h a List.mem_cons_self rest hrest
    | cons b bs =>
      rw [List.map_cons, List.map_cons, List.intercalate_cons_cons, List.flatMap_cons,
        List.append_assoc]
      refine (h a List.mem_cons_self _ ?_).append ((reads_blank (by decide) _).append hmore)
      rintro c ⟨⟩
      exact .inl rfl

end Tokens

/-! ### Units as tokens and as expressions -/

namespace Units

/-- The terms in front of the slash. -/
def above (us : Units K) : List (UnitTerm K) := us.terms.filter (·.power > 0)

/-- The terms behind it. -/
def below (us : Units K) : List (UnitTerm K) := us.terms.filter (·.power < 0)

/-- A power of a unit name, with a sign in the exponent if there is one. -/
def powerExpr (name : String) (power : Int) : Expr K :=
  if power = 1 then .symbol name
  else if power < 0 then
    .binary .power (.symbol name) (.signed .minus (.number (Scalar.ofInt (-power))))
  else .binary .power (.symbol name) (.number (Scalar.ofInt power))

/-- The tokens of a row of terms. -/
def rowTokens (ts : List (UnitTerm K)) (sign : Int) : List (Token K) :=
  ts.flatMap fun t ↦ .name t.unit.name :: exponentTokens (sign * t.power)

/-- A first factor, multiplied by the terms of a row. -/
def rowExpr (first : Expr K) (ts : List (UnitTerm K)) (sign : Int) : Expr K :=
  ts.foldl (fun e t ↦ .binary .multiply e (powerExpr t.unit.name (sign * t.power))) first

/-- The tokens of a value with units. -/
def tokens (value : K) (us : Units K) : List (Token K) :=
  match us.above, us.below with
  | [], below => .number value :: rowTokens below 1
  | above, [] => .number value :: rowTokens above 1
  | above, [t] => .number value :: rowTokens above 1 ++ .divide :: rowTokens [t] (-1)
  | above, below =>
    .number value :: rowTokens above 1 ++
      .divide :: (.leftParen :: rowTokens below (-1) ++ [.rightParen])

/-- A value with units as an expression: the value times the units in front of the slash, divided by
the product of those behind it. -/
def expr (value : K) (us : Units K) : Expr K :=
  match us.above, us.below with
  | [], below => rowExpr (.number value) below 1
  | above, [] => rowExpr (.number value) above 1
  | above, t :: below =>
    .binary .divide (rowExpr (.number value) above 1)
      (rowExpr (powerExpr t.unit.name (-1 * t.power)) below (-1))

/-! ### From the text to the tokens -/

/-- The names of the units are names to the reader. -/
def Readable (us : Units K) : Prop := ∀ t ∈ us.terms, isName t.unit.name = true

theorem toList_toString_neg {n : Int} (h : n < 0) :
    (toString n).toList = '-' :: (toString (-n).toNat).toList := by
  obtain ⟨m, rfl⟩ := Int.eq_negSucc_of_lt_zero h
  exact String.toList_append

theorem reads_powerText {name : String} (hname : isName name = true) (power : Int)
    {rest : List Char} (hrest : Ends rest) :
    Tokens.Reads (powerText name power).toList
      (.name name :: exponentTokens power : List (Token K)) rest := by
  by_cases hone : power = 1
  · rw [powerText, exponentTokens, if_pos hone, if_pos hone]
    exact Tokens.reads_name hname (hrest.of_head? (Token.endsName_of_mem (by decide))
      (Token.endsName_of_mem (by decide)))
  have htext : (powerText name power).toList = name.toList ++ '^' :: (toString power).toList := by
    rw [powerText, if_neg hone]
    exact (String.toList_append.trans (congrArg (· ++ _) String.toList_append)).trans
      (List.append_assoc _ _ _)
  have hcaret : ∀ c ∈ ('^' :: (toString power).toList ++ rest).head?, isNamePart c = false := by
    rintro c ⟨⟩
    exact Token.endsName_of_mem (by decide)
  have hexponent : Tokens.Reads ('^' :: (toString power).toList)
      (exponentTokens power : List (Token K)) rest := by
    rw [exponentTokens, if_neg hone]
    by_cases hneg : power < 0
    · obtain ⟨m, hm⟩ := Int.eq_ofNat_of_zero_le (show 0 ≤ -power by omega)
      rw [if_pos hneg, toList_toString_neg hneg, hm]
      exact Tokens.reads_caret.append (Tokens.reads_minus.append (Tokens.reads_nat m hrest))
    · obtain ⟨m, rfl⟩ := Int.eq_ofNat_of_zero_le (not_lt.1 hneg)
      rw [if_neg hneg]
      exact Tokens.reads_caret.append (Tokens.reads_nat m hrest)
  rw [htext]
  exact (Tokens.reads_name hname hcaret).append hexponent

/-- The text of a row of terms. -/
def rowText (ts : List (UnitTerm K)) (sign : Int) : String :=
  " ".intercalate (ts.map fun t ↦ powerText t.unit.name (sign * t.power))

theorem reads_rowText {ts : List (UnitTerm K)} (hts : ∀ t ∈ ts, isName t.unit.name = true)
    (sign : Int) {rest : List Char} (hrest : Ends rest) :
    Tokens.Reads (rowText ts sign).toList (rowTokens ts sign) rest := by
  rw [rowText, String.toList_intercalate, List.map_map]
  exact Tokens.reads_intercalate (fun t ht _ ↦ reads_powerText (hts t ht) _) hrest

omit [Scalar K] in
/-- The characters of the text, with the same cases as `tokens`. -/
theorem toList_text (us : Units K) : us.text.toList =
    match us.above, us.below with
    | [], below => (rowText below 1).toList
    | above, [] => (rowText above 1).toList
    | above, [t] => (rowText above 1).toList ++ ' ' :: '/' :: ' ' :: (rowText [t] (-1)).toList
    | above, below =>
      (rowText above 1).toList ++ ' ' :: '/' :: ' ' :: '(' ::
        ((rowText below (-1)).toList ++ [')']) := by
  rw [text]
  change (match us.above, us.below with
    | [], _ => rowText us.below 1
    | _, [] => rowText us.above 1
    | _, [_] => s!"{rowText us.above 1} / {rowText us.below (-1)}"
    | _, _ => s!"{rowText us.above 1} / ({rowText us.below (-1)})").toList = _
  rcases us.above with - | ⟨t, above⟩
  · rfl
  rcases us.below with - | ⟨u, - | ⟨v, below⟩⟩
  · rfl
  · simp [toString]
  · simp [toString]

theorem reads_text {us : Units K} (h : us.Readable) (l : Decimal.Literal) :
    Tokens.Reads (l.chars ++ ([' '] ++ us.text.toList)) (us.tokens (Scalar.ofDecimal l.value)) [] := by
  have hnil : Ends [] := nofun
  have habove : ∀ t ∈ us.above, isName t.unit.name = true :=
    fun t ht ↦ h t (List.mem_of_mem_filter ht)
  have hbelow : ∀ t ∈ us.below, isName t.unit.name = true :=
    fun t ht ↦ h t (List.mem_of_mem_filter ht)
  have hblank : ∀ rest : List Char, Ends (' ' :: rest) := by
    rintro rest c ⟨⟩
    exact .inl rfl
  have hliteral : ∀ {cs : List Char} {ts : List (Token K)}, Tokens.Reads cs ts [] →
      Tokens.Reads (l.chars ++ ([' '] ++ cs))
        (.number (Scalar.ofDecimal l.value) :: ts) [] := fun hcs ↦
    (Tokens.reads_literal l (hblank _)).append ((Tokens.reads_blank (by decide) _).append hcs)
  rw [toList_text, tokens]
  generalize us.above = above at habove ⊢
  generalize us.below = below at hbelow ⊢
  split
  · exact hliteral (reads_rowText hbelow 1 hnil)
  · exact hliteral (reads_rowText habove 1 hnil)
  · rename_i t _
    have hslash : Tokens.Reads (' ' :: '/' :: ' ' :: (rowText [t] (-1)).toList)
        (.divide :: rowTokens [t] (-1) : List (Token K)) [] :=
      (Tokens.reads_blank (by decide) _).append (Tokens.reads_divide.append
        ((Tokens.reads_blank (by decide) _).append (reads_rowText hbelow (-1) hnil)))
    exact hliteral ((reads_rowText habove 1 (hblank _)).append hslash)
  · have hinner : Tokens.Reads ((rowText below (-1)).toList ++ [')'])
        (rowTokens below (-1) ++ [.rightParen] : List (Token K)) [] := by
      refine (reads_rowText hbelow (-1) ?_).append Tokens.reads_rightParen
      rintro c ⟨⟩
      exact .inr rfl
    have hslash : Tokens.Reads
        (' ' :: '/' :: ' ' :: '(' :: ((rowText below (-1)).toList ++ [')']))
        (.divide :: .leftParen :: (rowTokens below (-1) ++ [.rightParen]) : List (Token K)) [] :=
      (Tokens.reads_blank (by decide) _).append (Tokens.reads_divide.append
        ((Tokens.reads_blank (by decide) _).append (Tokens.reads_leftParen.append hinner)))
    exact hliteral ((reads_rowText habove 1 (hblank _)).append hslash)

end Units

/-! ### From the tokens to the expression -/

namespace Reader

variable {w v us : List (Token K)} {e f : Expr K}

/-- The readers of juxtaposition take the tokens as the expression and go on behind them. -/
def ReadsFactors (w : List (Token K)) (e : Expr K) : Prop :=
  ∀ us f vs, headBinding us ≤ 5 →
    Takes (fun limit left ↦ factors limit left e) us f vs → Takes implicit (w ++ us) f vs

theorem ReadsFactors.of_sign (h : ReadsAs .sign w e) : ReadsFactors w e :=
  fun us _ _ hus hf ↦ takes_implicit (h us hus) hf

/-- One more factor, which begins with a name. -/
theorem ReadsFactors.juxtaposed {name : String} (h : ReadsFactors w e)
    (h' : ReadsAs .power (.name name :: v) f) :
    ReadsFactors (w ++ .name name :: v) (.binary .multiply e f) := by
  intro us g vs hus hg
  have hfactors : Takes (fun limit left ↦ factors limit left e) (.name name :: v ++ us) g vs :=
    takes_factors rfl (h'.2 us hus) hg
  rw [List.append_assoc]
  exact h _ g vs (Nat.le_refl 5) hfactors

theorem ReadsFactors.takes_operand (h : ReadsFactors w e) (hus : headBinding us ≤ 4) :
    Takes (fun limit left ↦ operand limit .product left) (w ++ us) e us :=
  takes_operand_product
    (h us e us (Nat.le_succ_of_le hus) (.of_forall fun _ _ ↦ factors_stop e hus))

theorem ReadsFactors.readsAs (h : ReadsFactors w e) : ReadsAs (.operation .product) w e :=
  fun _ _ _ hus hf ↦ takes_operation (h.takes_operand hus) hf

/-- A quotient of juxtapositions. -/
theorem ReadsFactors.divided (h : ReadsFactors w e) (h' : ReadsFactors v f) :
    ReadsAs (.operation .product) (w ++ .divide :: v) (.binary .divide e f) := by
  intro us g vs hus hg
  have hoperations : Takes (fun limit left ↦ operations limit .product left e)
      (.divide :: v ++ us) g vs :=
    takes_operations rfl (h'.takes_operand hus) hg
  rw [List.append_assoc]
  exact h.readsAs _ g vs (Nat.le_refl 4) hoperations

end Reader

namespace Units

open Reader

theorem readsAs_powerExpr (name : String) (power : Int) :
    ReadsAs (K := K) .power (.name name :: exponentTokens power) (powerExpr name power) := by
  have hname : ReadsAs (K := K) .call [.name name] (.symbol name) := (ReadsAs.symbol name).of_atom
  have hnumber (n : Int) : ReadsAs .sign [.number (Scalar.ofInt n : K)] (.number (Scalar.ofInt n)) :=
    (ReadsAs.number _).of_atom.of_call.of_power
  rw [exponentTokens, powerExpr]
  by_cases hone : power = 1
  · rw [if_pos hone, if_pos hone]
    exact hname.of_call
  by_cases hneg : power < 0
  · rw [if_neg hone, if_neg hone, if_pos hneg, if_pos hneg]
    exact hname.raised ((hnumber (-power)).signed .minus)
  · rw [if_neg hone, if_neg hone, if_neg hneg, if_neg hneg]
    exact hname.raised (hnumber power)

/-- A row of terms behind a first factor. -/
theorem readsFactors_rowExpr {w : List (Token K)} {e : Expr K} (h : ReadsFactors w e)
    (ts : List (UnitTerm K)) (sign : Int) :
    ReadsFactors (w ++ rowTokens ts sign) (rowExpr e ts sign) := by
  induction ts generalizing w e with
  | nil =>
    rw [rowTokens, List.flatMap_nil, List.append_nil]
    exact h
  | cons t ts ih =>
    have hterm := h.juxtaposed (readsAs_powerExpr t.unit.name (sign * t.power))
    have hrow := ih hterm
    rw [List.append_assoc] at hrow
    exact hrow

/-- **The tokens of a value with units are read as the product.** -/
theorem readsAs_expr (value : K) (us : Units K) :
    ReadsAs (.operation .product) (us.tokens value) (us.expr value) := by
  have hvalue : ReadsFactors [.number value] (.number value) :=
    .of_sign (ReadsAs.number value).of_atom.of_call.of_power
  have hfirst (t : UnitTerm K) (ts : List (UnitTerm K)) :
      ReadsFactors (rowTokens (t :: ts) (-1))
        (rowExpr (powerExpr t.unit.name (-1 * t.power)) ts (-1)) :=
    readsFactors_rowExpr (.of_sign (readsAs_powerExpr t.unit.name (-1 * t.power)).of_power) ts (-1)
  rw [tokens, expr]
  rcases us.above with - | ⟨a, above⟩
  · exact (readsFactors_rowExpr hvalue us.below 1).readsAs
  have habove := readsFactors_rowExpr hvalue (a :: above) 1
  rcases us.below with - | ⟨t, - | ⟨u, below⟩⟩
  · exact habove.readsAs
  · exact habove.divided (hfirst t [])
  · have hinner : ReadsAs .atom (.leftParen :: rowTokens (t :: u :: below) (-1) ++ [.rightParen])
        (rowExpr (powerExpr t.unit.name (-1 * t.power)) (u :: below) (-1)) :=
      (hfirst t (u :: below)).readsAs.parenthesized
    exact habove.divided (.of_sign hinner.of_atom.of_call.of_power)

/-- **A literal and the text of units are read as the product of the two**, under all limits of depth
that are high enough. -/
theorem settlesOn_expr {us : Units K} (h : us.Readable) (l : Decimal.Literal) :
    SettlesOn (fun limit ↦ Statement.ofText limit (l.text ++ " " ++ us.text))
      ⟨.expression (us.expr (Scalar.ofDecimal l.value)), false⟩ := by
  let ts := us.tokens (Scalar.ofDecimal l.value)
  have htokens : Tokens.ofText (l.text ++ " " ++ us.text) = .ofList ts := by
    obtain ⟨next, hnext⟩ := reads_text h l 0
    rw [List.append_nil, ← List.append_assoc, Tokens.ofChars, Tokens.prepend_done] at hnext
    rw [Tokens.ofText, String.toList_append, String.toList_append, Decimal.Literal.text,
      String.toList_ofList]
    exact hnext
  have htakes : Takes expression (ts ++ []) (us.expr (Scalar.ofDecimal l.value)) [] :=
    (readsAs_expr _ us).takes_expression rfl
  rw [List.append_nil] at htakes
  exact Statement.settlesOn_of_takes htokens htakes

end Units

end Reckoner
