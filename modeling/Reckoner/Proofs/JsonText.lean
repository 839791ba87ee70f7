import Mathlib
import Reckoner.Json.Printer
import Reckoner.Json.Reader
import Reckoner.Proofs.PrintedText
import Reckoner.Proofs.TextReaders

/-!
# Reading what is written as JSON

What is written for a value is read as this value (`Json.ofText?_text`), if its numbers are written as
numbers are: with digits on both sides of the point, and no zero in front of other digits.
-/

namespace Reckoner.Json

open Text (Reader)
open Text.Reader

/-! ### Blanks -/

namespace Reading

/-- Whether a character may stand between the parts of a value. -/
def isBlank (c : Char) : Bool := c = ' ' || c = '\n' || c = '\t' || c = '\r'

theorem blanks_eq (cs : List Char) : blanks cs = some ((), cs.dropWhile isBlank) := rfl

theorem blanks_append {front rest : List Char} (hfront : ∀ c ∈ front, isBlank c = true)
    (hrest : ∀ c ∈ rest.head?, isBlank c = false) : blanks (front ++ rest) = some ((), rest) :=
  bind_eq (many_append hfront hrest) _

theorem blanks_of_head {cs : List Char} (h : ∀ c ∈ cs.head?, isBlank c = false) :
    blanks cs = some ((), cs) :=
  bind_eq (many_of_head h) _

end Reading

theorem isBlank_of_mem_newLine {c : Char} {level : ℕ} (h : c ∈ newLine level) :
    Reading.isBlank c = true := by
  rcases List.mem_cons.1 h with rfl | h
  · rfl
  · obtain rfl := List.eq_of_mem_replicate h
    rfl

/-! ### Numbers -/

/-- Characters that do not go on with a number. -/
def EndsNumber (rest : List Char) : Prop :=
  ∀ c ∈ rest.head?, Decimal.isDigit c = false ∧ c ≠ '.' ∧ c ≠ 'e' ∧ c ≠ 'E'

/-- A number as it can be read: no zero stands in front of other digits. -/
structure Numeral.WellFormed (n : Numeral) : Prop where
  written : Decimal.Written n.whole n.fraction
  no_leading_zero : n.whole = ['0'] ∨ '0' ∉ n.whole.head?

namespace Reading

variable {digits rest : List Char}

/-- The digits in front of the point. A zero there is alone. -/
theorem whole_append (hne : digits ≠ []) (hdigits : ∀ c ∈ digits, Decimal.isDigit c = true)
    (hzero : digits = ['0'] ∨ '0' ∉ digits.head?)
    (hrest : ∀ c ∈ rest.head?, Decimal.isDigit c = false) :
    ((do exactly '0'; pure ['0']) <|> many1 Decimal.isDigit : Reader (List Char)) (digits ++ rest) =
      some (digits, rest) := by
  rcases hzero with rfl | hzero
  · exact orElse_eq_left (bind_eq exactly_cons _) _
  · have hhead : ∀ c ∈ (digits ++ rest).head?, c ≠ '0' := by
      rintro c hc rfl
      rw [List.head?_append_of_ne_nil _ hne] at hc
      exact hzero hc
    rw [orElse_eq_right (bind_eq_none (exactly_eq_none hhead) _)]
    exact many1_append hne hdigits hrest

/-- A point and the digits behind it, if there are any. -/
theorem fraction_append (hdigits : ∀ c ∈ digits, Decimal.isDigit c = true)
    (hrest : ∀ c ∈ rest.head?, Decimal.isDigit c = false ∧ c ≠ '.') :
    ∃ fraction, (optional (do exactly '.'; many1 Decimal.isDigit) : Reader (Option (List Char)))
      (Decimal.fractionPart digits ++ rest) = some (fraction, rest) ∧ fraction.getD [] = digits := by
  cases digits with
  | nil => exact ⟨none, optional_eq_none (bind_eq_none (exactly_eq_none fun c hc ↦ (hrest c hc).2) _), rfl⟩
  | cons c cs =>
    have hread := many1_append (List.cons_ne_nil c cs) hdigits fun c hc ↦ (hrest c hc).1
    exact ⟨some (c :: cs), optional_eq_some ((bind_eq exactly_cons _).trans hread), rfl⟩

/-- The characters of an exponent, which is not written if it is zero. -/
def exponentPart (n : ℤ) : List Char :=
  if n = 0 then [] else 'e' :: (if n < 0 then ['-'] else []) ++ Decimal.digitsOf n.natAbs

theorem sign_append (n : ℤ) (rest : List Char) : ∃ sign, optional (character fun c ↦ c = '+' || c = '-')
    ((if n < 0 then ['-'] else []) ++ (Decimal.digitsOf n.natAbs ++ rest)) =
      some (sign, Decimal.digitsOf n.natAbs ++ rest) ∧
    (if sign = some '-' then -(n.natAbs : ℤ) else n.natAbs) = n := by
  by_cases hneg : n < 0
  · rw [if_pos hneg]
    exact ⟨some '-', optional_eq_some (character_cons rfl), by rw [if_pos rfl]; omega⟩
  · have hhead := Decimal.isDigit_of_head Nat.toDigits_ne_nil
      (fun c (hc : c ∈ Decimal.digitsOf n.natAbs) ↦ Decimal.isDigit_of_mem_digitsOf hc) rest
    refine ⟨none, ?_, by rw [if_neg (by simp)]; omega⟩
    rw [if_neg hneg, List.nil_append]
    refine optional_eq_none (character_eq_none fun c hc ↦ ?_)
    rw [decide_eq_false (Decimal.ne_of_isDigit (hhead c hc) rfl),
      decide_eq_false (Decimal.ne_of_isDigit (hhead c hc) rfl)]
    rfl

theorem exponent_append (n : ℤ) (hrest : EndsNumber rest) :
    ∃ e, optional exponent (exponentPart n ++ rest) = some (e, rest) ∧ e.getD 0 = n := by
  rw [exponentPart]
  by_cases hzero : n = 0
  · have hend : ∀ c ∈ rest.head?, (decide (c = 'e') || decide (c = 'E')) = false := by
      intro c hc
      obtain ⟨-, -, he, hE⟩ := hrest c hc
      rw [decide_eq_false he, decide_eq_false hE]
      rfl
    rw [if_pos hzero]
    exact ⟨none, optional_eq_none (bind_eq_none (character_eq_none hend) _), hzero.symm⟩
  · obtain ⟨sign, hsign, hn⟩ := sign_append n rest
    have hdigits : many1 Decimal.isDigit (Decimal.digitsOf n.natAbs ++ rest) =
        some (Decimal.digitsOf n.natAbs, rest) :=
      many1_append Nat.toDigits_ne_nil (fun c hc ↦ Decimal.isDigit_of_mem_digitsOf hc)
        fun c hc ↦ (hrest c hc).1
    refine ⟨some n, optional_eq_some ?_, rfl⟩
    rw [if_neg hzero, exponent, List.cons_append, List.cons_append, bind_eq (character_cons rfl),
      List.append_assoc, bind_eq hsign, bind_eq hdigits, Decimal.ofDigits_digitsOf]
    exact congrArg (fun k ↦ some (k, rest)) hn

theorem minus_append (negative : Bool) (hhead : ∀ c ∈ rest.head?, c ≠ '-') :
    ∃ minus, optional (exactly '-') ((if negative then ['-'] else []) ++ rest) = some (minus, rest) ∧
      minus.isSome = negative := by
  cases negative with
  | true => exact ⟨some (), optional_eq_some exactly_cons, rfl⟩
  | false => exact ⟨none, optional_eq_none (exactly_eq_none hhead), rfl⟩

/-- **A number is read as it is written**, unless something follows that goes on with it. -/
theorem number_append {n : Numeral} (h : n.WellFormed) (hrest : EndsNumber rest) :
    number (n.chars ++ rest) = some (n, rest) := by
  have hchars : n.chars ++ rest = (if n.negative then ['-'] else []) ++
      (n.whole ++ (Decimal.fractionPart n.fraction ++ (exponentPart n.exponent ++ rest))) := by
    simp only [← List.append_assoc]
    rfl
  have hexponent : ∀ c ∈ (exponentPart n.exponent ++ rest).head?, Decimal.isDigit c = false ∧ c ≠ '.' := by
    rw [exponentPart]
    split
    · exact fun c hc ↦ ⟨(hrest c hc).1, (hrest c hc).2.1⟩
    · rintro c ⟨⟩
      decide
  have hfraction : ∀ c ∈ (Decimal.fractionPart n.fraction ++ (exponentPart n.exponent ++ rest)).head?,
      Decimal.isDigit c = false :=
    Decimal.head?_fractionPart fun c hc ↦ (hexponent c hc).1
  have hwhole : ∀ c ∈ (n.whole ++ (Decimal.fractionPart n.fraction ++
      (exponentPart n.exponent ++ rest))).head?, c ≠ '-' :=
    fun c hc ↦ Decimal.ne_of_isDigit
      (Decimal.isDigit_of_head h.written.whole_ne_nil h.written.whole_digits _ c hc) rfl
  obtain ⟨minus, hminus, hnegative⟩ := minus_append n.negative hwhole
  obtain ⟨fraction, hread, hdigits⟩ := fraction_append h.written.fraction_digits hexponent
  obtain ⟨e, he, hvalue⟩ := exponent_append n.exponent hrest
  rw [hchars, number, bind_eq hminus,
    bind_eq (whole_append h.written.whole_ne_nil h.written.whole_digits h.no_leading_zero hfraction),
    bind_eq hread, bind_eq he, hnegative, hdigits, hvalue]
  rfl

end Reading

/-! ### Strings -/

namespace Reading

variable {c : Char} {rest : List Char}

/-- One character of a string. -/
def stringCharacter : Reader Char :=
  (character fun c ↦ ' ' ≤ c && c ≠ '"' && c ≠ '\\') <|> escaped <|> codePoint

theorem hexValue?_hexDigit : ∀ n < 16, hexValue? (hexDigit n) = some n := by
  decide

/-- A character below the blank is read from its code. -/
theorem codePoint_of_lt (h : c < ' ') :
    codePoint ('\\' :: 'u' :: '0' :: '0' :: hexDigit (c.toNat / 16) :: hexDigit (c.toNat % 16) :: rest) =
      some (c, rest) := by
  have hlt : c.toNat < 32 := h
  have hhigh := hexValue?_hexDigit (c.toNat / 16) (by omega)
  have hlow := hexValue?_hexDigit (c.toNat % 16) (by omega)
  have hzero : hexValue? '0' = some 0 := rfl
  obtain ⟨digits, hdigits⟩ : ∃ digits,
      digits = ['0', '0', hexDigit (c.toNat / 16), hexDigit (c.toNat % 16)] := ⟨_, rfl⟩
  have hhex : ∀ d ∈ digits, (hexValue? d).isSome = true := by
    rw [hdigits]
    simp [hhigh, hlow, hzero]
  have hvalue : digits.foldl (fun n d ↦ 16 * n + (hexValue? d).getD 0) 0 = c.toNat := by
    rw [hdigits, List.foldl_cons, List.foldl_cons, List.foldl_cons, List.foldl_cons, List.foldl_nil,
      hzero, hhigh, hlow]
    show 16 * (0 + c.toNat / 16) + c.toNat % 16 = c.toNat
    omega
  have hlength : digits.length = 4 := by rw [hdigits]; rfl
  have htimes : times 4 (fun d ↦ (hexValue? d).isSome) (digits ++ rest) = some (digits, rest) :=
    hlength ▸ times_append hhex
  have hunit : codeUnit ('\\' :: 'u' :: (digits ++ rest)) = some (c.toNat, rest) := by
    have hrow : row ['\\', 'u'] ('\\' :: 'u' :: (digits ++ rest)) = some ((), digits ++ rest) :=
      row_append _
    rw [codeUnit, bind_eq hrow, bind_eq htimes, hvalue]
    rfl
  rw [hdigits] at hunit
  refine (bind_eq hunit _).trans ?_
  rw [if_pos (.inl (by omega)), Char.ofNat_toNat]
  rfl

theorem stringCharacter_escape (c : Char) : stringCharacter (escape c ++ rest) = some (c, rest) := by
  unfold escape
  by_cases hquote : c = '"'
  · subst hquote
    rfl
  by_cases hbackslash : c = '\\'
  · subst hbackslash
    rfl
  rw [if_neg hquote, if_neg hbackslash]
  split
  · subst c
    rfl
  split
  · subst c
    rfl
  split
  · subst c
    rfl
  split
  · subst c
    rfl
  split
  · subst c
    rfl
  split
  · rename_i hcontrol
    have hrefuse : escaped ('\\' :: 'u' :: '0' :: '0' :: hexDigit (c.toNat / 16) ::
      hexDigit (c.toNat % 16) :: rest) = none := rfl
    refine (orElse_eq_right rfl _).trans ((orElse_eq_right hrefuse _).trans ?_)
    exact codePoint_of_lt hcontrol
  · rename_i hcontrol
    refine orElse_eq_left (character_cons ?_) _
    simp [hquote, hbackslash, not_lt.1 hcontrol]

theorem escape_ne_nil (c : Char) : escape c ≠ [] := by
  unfold escape
  repeat' split
  all_goals exact List.cons_ne_nil _ _

theorem repeats_escape (cs : List Char) :
    Repeats stringCharacter (cs.flatMap escape ++ '"' :: rest) cs ('"' :: rest) := by
  induction cs with
  | nil => exact .stop rfl
  | cons c cs ih =>
    have hpos := List.length_pos_iff.2 (escape_ne_nil c)
    rw [List.flatMap_cons, List.append_assoc]
    refine .more (stringCharacter_escape c) ?_ ih
    rw [(List.length_append : (escape c ++ _).length = _)]
    exact Nat.lt_add_of_pos_left hpos

/-- **A string is read as it is written.** -/
theorem string_append (cs : List Char) :
    string (quote cs ++ rest) = some (String.ofList cs, rest) := by
  have hquote : quote cs ++ rest = '"' :: (cs.flatMap escape ++ '"' :: rest) := by
    rw [quote, List.append_assoc]
    rfl
  rw [hquote]
  refine (bind_eq exactly_cons _).trans ((bind_eq (repeats_escape cs).repeated_eq _).trans ?_)
  exact bind_eq exactly_cons _

end Reading

/-! ### Values -/

namespace Reading

/-- A reader takes some characters for a value, with blanks around them. -/
structure Takes {α : Type} (p : Reader α) (written : List Char) (a : α) : Prop where
  head : ∃ c ∈ written.head?, isBlank c = false
  reads : ∀ front rest, (∀ c ∈ front, isBlank c = true) → EndsNumber rest →
    p (front ++ (written ++ rest)) = some (a, rest.dropWhile isBlank)

/-! Lists in brackets -/

section

variable {α : Type} {p : Reader α} {write : α → List Char} {as : List α} {close : Char}
variable {rest : List Char}

/-- The values between two brackets, each on a line of its own. -/
def listText (level : ℕ) (write : α → List Char) : List α → List Char
  | [] => []
  | a :: as => newLine (level + 1) ++ write a ++
      (as.flatMap fun b ↦ ',' :: newLine (level + 1) ++ write b) ++ newLine level

theorem endsNumber_flatMap (level level' : ℕ) (write : α → List Char) (as : List α) (rest : List Char) :
    EndsNumber ((as.flatMap fun a ↦ ',' :: newLine level ++ write a) ++ (newLine level' ++ rest)) := by
  cases as <;> (rintro c ⟨⟩; decide)

theorem repeats_flatMap (h : ∀ a ∈ as, Takes p (write a) a) (level level' : ℕ)
    (hclose : isBlank close = false) (hcomma : close ≠ ',') :
    Repeats (do exactly ','; p)
      (((as.flatMap fun a ↦ ',' :: newLine level ++ write a) ++
        (newLine level' ++ close :: rest)).dropWhile isBlank) as (close :: rest) := by
  induction as with
  | nil =>
    have hdrop : (newLine level' ++ close :: rest).dropWhile isBlank = close :: rest := by
      rw [List.dropWhile_append_of_pos fun c hc ↦ isBlank_of_mem_newLine hc]
      exact List.dropWhile_cons_of_neg (Bool.eq_false_iff.1 hclose)
    rw [List.flatMap_nil, List.nil_append, hdrop]
    refine .stop (bind_eq_none (exactly_eq_none ?_) _)
    rintro c ⟨⟩
    exact hcomma
  | cons a as ih =>
    obtain ⟨ha, has⟩ := List.forall_mem_cons.1 h
    have hread := ha.reads (newLine level) _ (fun c hc ↦ isBlank_of_mem_newLine hc)
      (endsNumber_flatMap level level' write as (close :: rest))
    have hdrop : (((a :: as).flatMap fun a ↦ ',' :: newLine level ++ write a) ++
        (newLine level' ++ close :: rest)).dropWhile isBlank =
        ',' :: (newLine level ++ (write a ++ ((as.flatMap fun a ↦ ',' :: newLine level ++ write a) ++
          (newLine level' ++ close :: rest)))) := by
      rw [List.flatMap_cons, List.append_assoc, List.append_assoc]
      rfl
    rw [hdrop]
    refine .more ((bind_eq exactly_cons _).trans hread) ?_ (ih has)
    have hle := (List.dropWhile_suffix (l := (as.flatMap fun a ↦ ',' :: newLine level ++ write a) ++
      (newLine level' ++ close :: rest)) isBlank).length_le
    rw [List.length_cons, List.length_append, List.length_append]
    omega

/-- Values between brackets are read as these values. -/
theorem separated_listText {β : Type} (level : ℕ) (rest : List Char)
    (h : ∀ a ∈ as, Takes p (write a) a) (hclose : isBlank close = false) (hcomma : close ≠ ',')
    (hrefuse : p (close :: rest) = none) (f : List α → Reader β) :
    (do blanks; let as ← separated p (exactly ','); f as : Reader β)
      (listText level write as ++ close :: rest) = f as (close :: rest) := by
  cases as with
  | nil =>
    have hblanks : blanks (close :: rest) = some ((), close :: rest) :=
      blanks_of_head (by rintro c ⟨⟩; exact hclose)
    exact (bind_eq hblanks _).trans (bind_eq (separated_eq_nil hrefuse) _)
  | cons a as =>
    obtain ⟨ha, has⟩ := List.forall_mem_cons.1 h
    obtain ⟨c, hc, hblank⟩ := ha.head
    obtain ⟨cs, hcs⟩ := List.head?_eq_some_iff.1 hc
    have hread := ha.reads [] _ nofun (endsNumber_flatMap (level + 1) level write as (close :: rest))
    have hlist : listText level write (a :: as) ++ close :: rest = newLine (level + 1) ++ (write a ++
        ((as.flatMap fun b ↦ ',' :: newLine (level + 1) ++ write b) ++
          (newLine level ++ close :: rest))) := by
      simp only [listText, List.append_assoc]
    have hblanks {rest' : List Char} :
        blanks (newLine (level + 1) ++ (write a ++ rest')) = some ((), write a ++ rest') :=
      blanks_append (fun c hc ↦ isBlank_of_mem_newLine hc) (by rw [hcs]; rintro _ ⟨⟩; exact hblank)
    rw [hlist]
    refine (bind_eq hblanks _).trans (bind_eq (separated_eq hread ?_) _)
    exact repeats_flatMap has (level + 1) level hclose hcomma

end

/-! The kinds of values -/

/-- The values in brackets, of which there are none at the depth zero. -/
def bracketed : ℕ → Reader Json
  | 0 => refuse
  | depth + 1 =>
    (do
      exactly '['
      blanks
      let items ← separated (value depth) (exactly ',')
      exactly ']'
      pure (array items)) <|>
    (do
      exactly '\x7b'
      blanks
      let members ← separated (member (value depth)) (exactly ',')
      exactly '\x7d'
      pure (object members))

/-- A value without the blanks around it. -/
def bare (depth : ℕ) : Reader Json :=
  (do row "null".toList; pure null) <|>
  (do row "true".toList; pure (boolean true)) <|>
  (do row "false".toList; pure (boolean false)) <|>
  Json.number <$> number <|>
  Json.string <$> string <|>
  bracketed depth

theorem value_eq (depth : ℕ) :
    value depth = (do blanks; let v ← bare depth; blanks; pure v : Reader Json) := by
  cases depth <;> rfl

/-- What is read as a value without blanks is taken with blanks around it. -/
theorem takes_value {depth : ℕ} {c : Char} {cs : List Char} {v : Json} (hc : isBlank c = false)
    (h : ∀ rest, EndsNumber rest → bare depth (c :: cs ++ rest) = some (v, rest)) :
    Takes (value depth) (c :: cs) v := by
  refine ⟨⟨c, rfl, hc⟩, fun front rest hfront hrest ↦ ?_⟩
  have hhead : ∀ d ∈ (c :: cs ++ rest).head?, isBlank d = false := by
    rintro _ ⟨⟩
    exact hc
  rw [value_eq, bind_eq (blanks_append hfront hhead), bind_eq (h rest hrest), bind_eq (blanks_eq rest)]
  rfl

variable (depth level : ℕ)

theorem takes_null : Takes (value depth) (chars level null) null :=
  takes_value (c := 'n') rfl fun _ _ ↦ orElse_eq_left (bind_eq (row_append "null".toList) _) _

theorem takes_boolean (b : Bool) : Takes (value depth) (chars level (boolean b)) (boolean b) := by
  cases b with
  | true =>
    exact takes_value (c := 't') rfl fun _ _ ↦ (orElse_eq_right rfl _).trans
      (orElse_eq_left (bind_eq (row_append "true".toList) _) _)
  | false =>
    exact takes_value (c := 'f') rfl fun _ _ ↦ (orElse_eq_right rfl _).trans
      ((orElse_eq_right rfl _).trans (orElse_eq_left (bind_eq (row_append "false".toList) _) _))

theorem takes_string (text : String) : Takes (value depth) (chars level (.string text)) (.string text) := by
  refine takes_value (c := '"') rfl fun rest _ ↦ ?_
  have hread : Reading.string (quote text.toList ++ rest) = some (text, rest) := by
    rw [string_append, String.ofList_toList]
  refine (orElse_eq_right rfl _).trans ((orElse_eq_right rfl _).trans ((orElse_eq_right rfl _).trans
    ((orElse_eq_right rfl _).trans (orElse_eq_left (map_eq hread _) _))))

/-- A number begins with its sign or its first digit. -/
theorem exists_chars_eq {n : Numeral} (h : n.WellFormed) :
    ∃ c cs, n.chars = c :: cs ∧ (c = '-' ∨ Decimal.isDigit c = true) := by
  obtain ⟨c, cs, hcs⟩ := List.exists_cons_of_ne_nil h.written.whole_ne_nil
  have hdigit := h.written.whole_digits c (hcs ▸ List.mem_cons_self)
  rw [Numeral.chars, hcs]
  cases n.negative with
  | true => exact ⟨'-', _, rfl, .inl rfl⟩
  | false => exact ⟨c, _, rfl, .inr hdigit⟩

theorem takes_number {n : Numeral} (h : n.WellFormed) :
    Takes (value depth) (chars level (.number n)) (.number n) := by
  obtain ⟨c, cs, hchars, hfirst⟩ := exists_chars_eq h
  have hother {d : Char} (hd : d ≠ '-' ∧ Decimal.isDigit d = false) : c ≠ d := by
    rcases hfirst with rfl | hdigit
    · exact hd.1.symm
    · exact Decimal.ne_of_isDigit hdigit hd.2
  have hliteral {d : Char} {ds rest : List Char} {v : Json} (hd : d ≠ '-' ∧ Decimal.isDigit d = false) :
      (do row (d :: ds); pure v : Reader Json) (c :: cs ++ rest) = none := by
    refine bind_eq_none (row_cons_eq_none ?_) _
    rintro _ ⟨⟩
    exact hother hd
  rw [chars, hchars]
  refine takes_value ?_ fun rest hrest ↦ ?_
  · simp only [isBlank, decide_eq_false (hother (d := ' ') (by decide)),
      decide_eq_false (hother (d := '\n') (by decide)), decide_eq_false (hother (d := '\t') (by decide)),
      decide_eq_false (hother (d := '\r') (by decide)), Bool.or_false]
  · have hread := number_append h hrest
    rw [hchars] at hread
    exact (orElse_eq_right (hliteral (by decide)) _).trans ((orElse_eq_right (hliteral (by decide)) _).trans
      ((orElse_eq_right (hliteral (by decide)) _).trans (orElse_eq_left (map_eq hread _) _)))

/-! Brackets -/

theorem chars_array (items : List Json) :
    chars level (array items) = '[' :: (listText level (chars (level + 1)) items ++ [']']) := by
  have hitems (level : ℕ) (items : List Json) :
      itemChars level items = items.flatMap fun v ↦ ',' :: newLine level ++ chars level v := by
    induction items with
    | nil => rw [itemChars, List.flatMap_nil]
    | cons v items ih => rw [itemChars, ih, List.flatMap_cons]
  cases items with
  | nil => rw [chars]; rfl
  | cons v items =>
    rw [chars, hitems]
    simp only [listText, List.cons_append, List.append_assoc]

/-- A member as it is written. -/
def memberChars (level : ℕ) (m : String × Json) : List Char :=
  quote m.1.toList ++ [':', ' '] ++ chars level m.2

theorem chars_object (members : List (String × Json)) : chars level (object members) =
    '\x7b' :: (listText level (memberChars (level + 1)) members ++ ['\x7d']) := by
  have hmembers (level : ℕ) (members : List (String × Json)) : Json.memberChars level members =
      members.flatMap fun m ↦ ',' :: newLine level ++ memberChars level m := by
    induction members with
    | nil => rw [Json.memberChars, List.flatMap_nil]
    | cons m members ih =>
      rw [Json.memberChars, ih, List.flatMap_cons]
      simp only [memberChars, List.cons_append, List.append_assoc]
  cases members with
  | nil => rw [chars]; rfl
  | cons m members =>
    rw [chars, hmembers]
    simp only [listText, memberChars, List.cons_append, List.append_assoc]

/-- In front of a bracket there is nothing else that a value may be. -/
theorem bare_of_bracket {c : Char} (hc : c = '[' ∨ c = ']' ∨ c = '\x7b') (cs : List Char) :
    bare depth (c :: cs) = bracketed depth (c :: cs) := by
  rcases hc with rfl | rfl | rfl <;>
    exact (orElse_eq_right rfl _).trans ((orElse_eq_right rfl _).trans ((orElse_eq_right rfl _).trans
      ((orElse_eq_right rfl _).trans (orElse_eq_right rfl _))))

theorem value_eq_none (cs : List Char) : value depth (']' :: cs) = none := by
  have hrefuse : bracketed depth (']' :: cs) = none := by
    cases depth <;> rfl
  rw [value_eq, bind_eq (blanks_of_head (by rintro c ⟨⟩; rfl))]
  exact bind_eq_none ((bare_of_bracket depth (.inr (.inl rfl)) cs).trans hrefuse) _

theorem takes_array {items : List Json}
    (h : ∀ v ∈ items, Takes (value depth) (chars (level + 1) v) v) :
    Takes (value (depth + 1)) (chars level (array items)) (array items) := by
  rw [chars_array]
  refine takes_value rfl fun rest _ ↦ ?_
  have hread := separated_listText level rest h rfl (by decide) (value_eq_none depth rest)
    fun items ↦ (do exactly ']'; pure (array items) : Reader Json)
  rw [List.cons_append, List.append_assoc, bare_of_bracket (depth + 1) (.inl rfl)]
  refine orElse_eq_left ((bind_eq exactly_cons _).trans (hread.trans ?_)) _
  exact bind_eq exactly_cons _

theorem takes_member {m : String × Json} (h : Takes (value depth) (chars level m.2) m.2) :
    Takes (member (value depth)) (memberChars level m) m := by
  refine ⟨⟨'"', rfl, rfl⟩, fun front rest hfront hrest ↦ ?_⟩
  have hchars : memberChars level m ++ rest =
      quote m.1.toList ++ (':' :: ([' '] ++ (chars level m.2 ++ rest))) := by
    simp only [memberChars, List.append_assoc]
    rfl
  have hblanks : blanks (front ++ (memberChars level m ++ rest)) = some ((), memberChars level m ++ rest) :=
    blanks_append hfront (by rintro c ⟨⟩; rfl)
  have hcolon {cs : List Char} : blanks (':' :: cs) = some ((), ':' :: cs) :=
    blanks_of_head (by rintro c ⟨⟩; rfl)
  have hvalue := h.reads [' '] rest (List.forall_mem_singleton.2 rfl) hrest
  rw [member, bind_eq hblanks, hchars, bind_eq (string_append m.1.toList), bind_eq hcolon,
    bind_eq exactly_cons, bind_eq hvalue, String.ofList_toList]
  rfl

theorem takes_object {members : List (String × Json)}
    (h : ∀ m ∈ members, Takes (value depth) (chars (level + 1) m.2) m.2) :
    Takes (value (depth + 1)) (chars level (object members)) (object members) := by
  rw [chars_object]
  refine takes_value rfl fun rest _ ↦ ?_
  have hmembers : ∀ m ∈ members, Takes (member (value depth)) (memberChars (level + 1) m) m :=
    fun m hm ↦ takes_member depth (level + 1) (h m hm)
  have hread := separated_listText level rest hmembers
    (rfl : isBlank '\x7d' = false) (by decide) rfl
    fun members ↦ (do exactly '\x7d'; pure (object members) : Reader Json)
  have harray {cs : List Char} : exactly '[' ('\x7b' :: cs) = none :=
    exactly_eq_none (by rintro c ⟨⟩; decide)
  rw [List.cons_append, List.append_assoc, bare_of_bracket (depth + 1) (.inr (.inr rfl))]
  refine (orElse_eq_right (bind_eq_none harray _) _).trans ?_
  exact (bind_eq exactly_cons _).trans (hread.trans (bind_eq exactly_cons _))

end Reading

/-! ### Whole texts -/

mutual

/-- The numbers in a value. -/
def numerals : Json → List Numeral
  | number n => [n]
  | array items => itemNumerals items
  | object members => memberNumerals members
  | _ => []

/-- The numbers in some items. -/
def itemNumerals : List Json → List Numeral
  | [] => []
  | v :: items => v.numerals ++ itemNumerals items

/-- The numbers in some members. -/
def memberNumerals : List (String × Json) → List Numeral
  | [] => []
  | (_, v) :: members => v.numerals ++ memberNumerals members

end

mutual

/-- How deep brackets are nested in a value. -/
def depth : Json → ℕ
  | array items => itemDepth items + 1
  | object members => memberDepth members + 1
  | _ => 0

/-- How deep brackets are nested in some items. -/
def itemDepth : List Json → ℕ
  | [] => 0
  | v :: items => max v.depth (itemDepth items)

/-- How deep brackets are nested in some members. -/
def memberDepth : List (String × Json) → ℕ
  | [] => 0
  | (_, v) :: members => max v.depth (memberDepth members)

end

open Reading in
mutual

/-- **What is written for a value is taken as this value**, to any depth that it needs. -/
theorem takes_chars : (v : Json) → (∀ n ∈ v.numerals, n.WellFormed) → ∀ {depth : ℕ}, v.depth ≤ depth →
    ∀ level, Takes (value depth) (chars level v) v
  | null, _, depth, _, level => takes_null depth level
  | boolean b, _, depth, _, level => takes_boolean depth level b
  | .number n, h, depth, _, level => takes_number depth level (h n (List.mem_singleton_self n))
  | .string text, _, depth, _, level => takes_string depth level text
  | array _, _, 0, hdepth, _ => absurd hdepth (Nat.not_succ_le_zero _)
  | array items, h, depth + 1, hdepth, level =>
    takes_array depth level (takes_items items h (Nat.le_of_succ_le_succ hdepth) (level + 1))
  | object _, _, 0, hdepth, _ => absurd hdepth (Nat.not_succ_le_zero _)
  | object members, h, depth + 1, hdepth, level =>
    takes_object depth level (takes_members members h (Nat.le_of_succ_le_succ hdepth) (level + 1))

theorem takes_items : (items : List Json) → (∀ n ∈ itemNumerals items, n.WellFormed) → ∀ {depth : ℕ},
    itemDepth items ≤ depth → ∀ level, ∀ v ∈ items, Takes (value depth) (chars level v) v
  | [], _, _, _, _ => List.forall_mem_nil _
  | v :: items, h, depth, hdepth, level => by
    obtain ⟨hv, hitems⟩ := List.forall_mem_append.1 h
    obtain ⟨hv', hitems'⟩ := max_le_iff.1 hdepth
    exact List.forall_mem_cons.2 ⟨takes_chars v hv hv' level, takes_items items hitems hitems' level⟩

theorem takes_members : (members : List (String × Json)) → (∀ n ∈ memberNumerals members, n.WellFormed) →
    ∀ {depth : ℕ}, memberDepth members ≤ depth → ∀ level, ∀ m ∈ members,
      Takes (value depth) (chars level m.2) m.2
  | [], _, _, _, _ => List.forall_mem_nil _
  | (_, v) :: members, h, depth, hdepth, level => by
    obtain ⟨hv, hmembers⟩ := List.forall_mem_append.1 h
    obtain ⟨hv', hmembers'⟩ := max_le_iff.1 hdepth
    exact List.forall_mem_cons.2 ⟨takes_chars v hv hv' level, takes_members members hmembers hmembers' level⟩

end

mutual

/-- Each level has a bracket of its own. -/
theorem depth_le_length : (v : Json) → ∀ level, v.depth ≤ (chars level v).length
  | null, _ => Nat.zero_le _
  | boolean _, _ => Nat.zero_le _
  | .number _, _ => Nat.zero_le _
  | .string _, _ => Nat.zero_le _
  | array [], _ => Nat.le_succ 1
  | array (v :: items), level => by
    have hv := depth_le_length v (level + 1)
    have hitems := itemDepth_le_length items (level + 1)
    simp only [depth, itemDepth, chars, List.length_cons, List.length_append]
    omega
  | object [], _ => Nat.le_succ 1
  | object ((_, v) :: members), level => by
    have hv := depth_le_length v (level + 1)
    have hmembers := memberDepth_le_length members (level + 1)
    simp only [depth, memberDepth, chars, List.length_cons, List.length_append]
    omega

theorem itemDepth_le_length : (items : List Json) → ∀ level,
    itemDepth items ≤ (itemChars level items).length
  | [], _ => Nat.zero_le _
  | v :: items, level => by
    have hv := depth_le_length v level
    have hitems := itemDepth_le_length items level
    simp only [itemDepth, itemChars, List.length_cons, List.length_append]
    omega

theorem memberDepth_le_length : (members : List (String × Json)) → ∀ level,
    memberDepth members ≤ (memberChars level members).length
  | [], _ => Nat.zero_le _
  | (_, v) :: members, level => by
    have hv := depth_le_length v level
    have hmembers := memberDepth_le_length members level
    simp only [memberDepth, memberChars, List.length_cons, List.length_append]
    omega

end

/-- **Reading undoes writing**, for values whose numbers are well-formed. -/
theorem ofText?_text {v : Json} (h : ∀ n ∈ v.numerals, n.WellFormed) : ofText? v.text = some v := by
  have htext : v.text.toList = chars 0 v := String.toList_ofList
  have hread := (takes_chars v h (depth_le_length v 0) 0).reads [] [] nofun nofun
  rw [List.nil_append, List.append_nil] at hread
  rw [ofText?, htext]
  exact whole?_eq_some hread

end Reckoner.Json
