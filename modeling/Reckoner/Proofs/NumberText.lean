import Mathlib
import Reckoner.Proofs.DoubleArithmetic
import Reckoner.Proofs.ShortestDecimals
import Reckoner.Proofs.ShownNumbers

/-!
# The text of a number

A number that is shown can be read back, in any format, and its text tells how it was written
(`Format.number_lossless`).

Both layouts are written from the shortest decimal of the double, and their characters denote this
decimal (`Decimal.denote_plain`, `Decimal.denote_exponential`). The double nearest to it is the double
that was written (`Double.hasValue_toFloat_shortest`), so that is what is read, with its sign in front
(`Double.ofText?_of_denote`). Commas are put between digits only: they make groups of three
(`isGrouped_groupDigits`), and deleting them leaves the digits (`withoutCommas_groupDigits`).
-/

namespace Reckoner

/-! ### Reading decimals back -/

namespace Decimal

/-- Characters denote a number: they begin with a digit and are read as a decimal with this value. -/
structure Denote (cs : List Char) (v : ℚ) : Prop where
  head : ∃ c ∈ cs.head?, isDigit c = true
  value : ∃ d, ofChars? cs = some d ∧ d.toRat = v

theorem denote_plain (d : Decimal) : Denote d.plain.toList d.toRat := by
  obtain ⟨whole, fraction, hwritten, hplain, hscale, hdigits⟩ := d.exists_written_eq
  rw [hplain, String.toList_ofList]
  refine ⟨?_, _, hwritten.ofChars?_eq, ?_⟩
  · obtain ⟨c, cs, rfl⟩ := List.exists_cons_of_ne_nil hwritten.whole_ne_nil
    exact ⟨c, rfl, hwritten.whole_digits c List.mem_cons_self⟩
  · have hpower : (10 : ℚ) ^ (d.exponent + fraction.length).toNat =
        10 ^ d.exponent * 10 ^ (fraction.length : ℤ) := by
      rw [← zpow_natCast, Int.toNat_of_nonneg hscale, zpow_add₀ (by norm_num)]
    rw [toRat, toRat, hdigits]
    push_cast
    rw [hpower, zero_sub, zpow_neg, ← mul_assoc]
    exact mul_inv_cancel_right₀ (by positivity) _

/-- The digits of a mantissa are those in front of the point and behind it. -/
theorem mantissaText_eq {digits : List Char} (h : digits ≠ []) :
    mantissaText digits = digits.take 1 ++ fractionPart (digits.drop 1) := by
  match digits with
  | [] => exact absurd rfl h
  | [_] => rfl
  | _ :: _ :: _ => rfl

theorem integerOfChars?_digits {digits : List Char} (hne : digits ≠ [])
    (h : ∀ c ∈ digits, isDigit c = true) :
    integerOfChars? ('+' :: digits) = some (ofDigits digits : ℤ) ∧
      integerOfChars? ('-' :: digits) = some (-(ofDigits digits : ℤ)) := by
  have hdigits : (digits.isEmpty || !digits.all isDigit) = false := by
    rw [List.isEmpty_eq_false_iff.2 hne, List.all_eq_true.2 h]
    rfl
  simp only [integerOfChars?, hdigits]
  exact ⟨rfl, rfl⟩

/-- The text with an exponent: digits around a point, and a sign and digits for the exponent. -/
theorem exists_exponential_eq (d : Decimal) : ∃ sign,
    integerOfChars? (sign :: digitsOf d.order.natAbs) = some d.order ∧
    (Format.exponential d).toList = (digitsOf d.coefficient).take 1 ++
      fractionPart ((digitsOf d.coefficient).drop 1) ++ 'e' :: sign :: digitsOf d.order.natAbs := by
  have hdigits : ∀ c ∈ digitsOf d.order.natAbs, isDigit c = true :=
    fun c hc ↦ isDigit_of_mem_digitsOf hc
  have hne : digitsOf d.order.natAbs ≠ [] := Nat.toDigits_ne_nil
  obtain ⟨hplus, hminus⟩ := integerOfChars?_digits hne hdigits
  rw [ofDigits_digitsOf] at hplus hminus
  have htext (sign : String) :
      (String.ofList (mantissaText (digitsOf d.coefficient)) ++ "e" ++ sign ++
        toString d.order.natAbs).toList = (digitsOf d.coefficient).take 1 ++
          fractionPart ((digitsOf d.coefficient).drop 1) ++
            'e' :: (sign.toList ++ digitsOf d.order.natAbs) := by
    have hnumber : (toString d.order.natAbs).toList = digitsOf d.order.natAbs := Nat.toList_repr
    have hmantissa : mantissaText (digitsOf d.coefficient) = _ := mantissaText_eq Nat.toDigits_ne_nil
    rw [String.toList_append, String.toList_append, String.toList_append, String.toList_ofList, hnumber,
      hmantissa, List.append_assoc, List.append_assoc]
    rfl
  by_cases hneg : d.order < 0
  · refine ⟨'-', hminus.trans (congrArg some (by omega)), ?_⟩
    rw [Format.exponential, if_pos hneg]
    exact htext "-"
  · refine ⟨'+', hplus.trans (congrArg some (by omega)), ?_⟩
    rw [Format.exponential, if_neg hneg]
    exact htext "+"

theorem written_mantissa (n : ℕ) : Written ((digitsOf n).take 1) ((digitsOf n).drop 1) where
  whole_ne_nil := by
    rw [Ne, List.take_eq_nil_iff]
    exact not_or.2 ⟨one_ne_zero, Nat.toDigits_ne_nil⟩
  whole_digits c hc := isDigit_of_mem_digitsOf (List.mem_of_mem_take hc)
  fraction_digits c hc := isDigit_of_mem_digitsOf (List.mem_of_mem_drop hc)

theorem denote_exponential (d : Decimal) : Denote (Format.exponential d).toList d.toRat := by
  obtain ⟨sign, hsign, htext⟩ := exists_exponential_eq d
  have hwritten := written_mantissa d.coefficient
  have hexponent : exponentOfChars? ('e' :: sign :: digitsOf d.order.natAbs) = some d.order := by
    rw [exponentOfChars?, if_pos (.inl rfl), hsign]
  have hread := hwritten.ofChars?_append ('e' :: sign :: digitsOf d.order.natAbs)
    (by rintro c ⟨⟩; decide)
  have hplaces : d.order - ((digitsOf d.coefficient).drop 1).length = d.exponent := by
    have hpos := length_pos d.coefficient
    rw [order, List.length_drop]
    rw [length] at hpos ⊢
    omega
  rw [htext]
  refine ⟨?_, d, ?_, rfl⟩
  · obtain ⟨c, cs, hcons⟩ := List.exists_cons_of_ne_nil hwritten.whole_ne_nil
    rw [hcons]
    exact ⟨c, rfl, hwritten.whole_digits c (hcons ▸ List.mem_cons_self)⟩
  · rw [hread, hexponent, Option.map_some, hplaces, List.take_append_drop, ofDigits_digitsOf]

end Decimal

/-! ### Reading doubles back -/

namespace Double

variable {x : Float} {negative : Bool} {m : ℕ} {e : ℤ}

/-- With a mantissa a double is not zero, and it is positive if it has no sign. -/
theorem pos_iff_of_ofFloat (hx : ofFloat x = .finite negative m e) (hm : m ≠ 0) :
    (x == 0) = false ∧ (0 < x ↔ negative = false) := by
  obtain ⟨hvalue, -⟩ := hasValue_of_ofFloat hx hm
  have hpos : (0 : ℚ) < m * 2 ^ e := mul_pos (Nat.cast_pos.2 (Nat.pos_of_ne_zero hm)) (two_zpow_pos e)
  rw [← Bool.not_eq_true, beq_iff hvalue hasValue_zero, lt_iff hasValue_zero hvalue]
  cases negative with
  | true =>
    rw [if_pos rfl, neg_one_mul]
    exact ⟨(neg_neg_of_pos hpos).ne, iff_of_false (neg_neg_of_pos hpos).not_gt Bool.noConfusion⟩
  | false =>
    rw [if_neg Bool.false_ne_true, one_mul]
    exact ⟨hpos.ne', iff_of_true hpos rfl⟩

/-- **A shortest decimal is read back as its double.** -/
theorem hasValue_toFloat_shortest (hx : ofFloat x = .finite negative m e) (hm : m ≠ 0) {d : Decimal}
    (hd : d.toRat = (Decimal.shortest m e).toRat) : HasValue d.toFloat (m * 2 ^ e) := by
  obtain ⟨hvalue, hlt, he, hcanonical⟩ := hasValue_of_ofFloat hx hm
  have hnearest : nearestDouble d.toRat = m * 2 ^ e :=
    hd ▸ Decimal.nearestDouble_shortest (Nat.pos_of_ne_zero hm) hlt he hcanonical
  have hbound := hvalue.abs_lt
  rw [abs_mul, show |(if negative then -1 else 1 : ℚ)| = 1 by cases negative <;> simp, one_mul,
    ← hnearest] at hbound
  have hread := hasValue_toFloat (d := d) hbound
  rwa [← Decimal.toRat, hnearest] at hread

/-- **What denotes the shortest decimal is read as the double**, with its sign in front. -/
theorem ofText?_of_denote (hx : ofFloat x = .finite negative m e) (hm : m ≠ 0) {text : String}
    (htext : Decimal.Denote text.toList (Decimal.shortest m e).toRat) :
    ofText? ((if negative then "-" else "") ++ text) = some x := by
  obtain ⟨hvalue, -⟩ := hasValue_of_ofFloat hx hm
  obtain ⟨⟨c, hc, hdigit⟩, d, hread, hd⟩ := htext
  obtain ⟨cs, hcs⟩ : ∃ cs, text.toList = c :: cs := List.head?_eq_some_iff.1 hc
  have htext : text = String.ofList (c :: cs) := by rw [← hcs, String.ofList_toList]
  have hunsigned : ofUnsigned? text.toList = some d.toFloat := by
    rw [hcs, Decimal.ofUnsigned?_cons (.inl hdigit), ← hcs, hread]
    rfl
  have hmagnitude := hasValue_toFloat_shortest hx hm hd
  have hne : (m : ℚ) * 2 ^ e ≠ 0 :=
    mul_ne_zero (Nat.cast_ne_zero.2 hm) (zpow_ne_zero _ two_ne_zero)
  cases negative with
  | true =>
    have hchars : ("-" ++ text).toList = '-' :: text.toList := String.toList_append
    rw [if_pos rfl, neg_one_mul] at hvalue
    rw [if_pos rfl, ofText?, hchars]
    change (ofUnsigned? text.toList).map (-·) = some x
    rw [hunsigned, Option.map_some]
    exact congrArg some ((hasValue_neg hmagnitude).eq_of_ne_zero hvalue (neg_ne_zero.2 hne))
  | false =>
    rw [if_neg Bool.false_ne_true, one_mul] at hvalue
    rw [if_neg Bool.false_ne_true, String.empty_append, htext, Decimal.ofText?_ofList (.inl hdigit),
      ← hcs, hunsigned]
    exact congrArg some (hmagnitude.eq_of_ne_zero hvalue hne)

end Double

/-! ### Groups of digits -/

/-- A text without its commas. -/
def withoutCommas (text : String) : String := String.ofList (text.toList.filter (· ≠ ','))

/-- A text with an exponent, which is written after the letter `e`. -/
def IsExponential (text : String) : Prop := 'e' ∈ text.toList

/-- A number without an exponent whose integer digits are in groups: one to three digits, then three
digits after each comma, and behind the point digits without commas. -/
def IsGrouped (text : String) : Prop :=
  ∃ (first : List Char) (more : List (List Char)) (fraction : List Char), text.toList =
      first ++ more.flatMap (',' :: ·) ++ Decimal.fractionPart fraction ∧
    1 ≤ first.length ∧ first.length ≤ 3 ∧ (∀ group ∈ more, group.length = 3) ∧
    ∀ c ∈ first ++ more.flatten ++ fraction, Decimal.isDigit c = true

/-- From the end, the digits are cut into groups of three, and what is left is the first group. -/
theorem groupDigits_eq {digits : List Char} (h : digits ≠ []) :
    ∃ (first : List Char) (more : List (List Char)),
    groupDigits digits = first ++ more.flatMap (',' :: ·) ∧ digits = first ++ more.flatten ∧
      1 ≤ first.length ∧ first.length ≤ 3 ∧ ∀ group ∈ more, group.length = 3 := by
  induction digits with
  | nil => exact absurd rfl h
  | cons d ds ih =>
    by_cases hds : ds = []
    · rw [hds]
      exact ⟨[d], [], rfl, rfl, le_rfl, by simp, nofun⟩
    · obtain ⟨first, more, hgroups, hdigits, hpos, hle, hmore⟩ := ih hds
      have hlength : ds.length = first.length + 3 * more.length := by
        rw [hdigits, List.length_append, List.length_flatten, List.map_congr_left hmore,
          List.map_const', List.sum_replicate, smul_eq_mul, mul_comm]
      rw [groupDigits]
      by_cases hfull : ds.length % 3 = 0
      · -- The first group is full, so another one begins.
        have hthree : first.length = 3 := by omega
        rw [if_pos ⟨hfull, hds⟩, hgroups]
        refine ⟨[d], first :: more, by simp, by simp [hdigits], le_rfl, by simp, ?_⟩
        exact List.forall_mem_cons.2 ⟨hthree, hmore⟩
      · rw [if_neg (fun h ↦ hfull h.1), hgroups]
        refine ⟨d :: first, more, rfl, by rw [hdigits]; rfl, ?_, ?_, hmore⟩
        · exact Nat.le_add_left 1 _
        · rw [List.length_cons]
          omega

theorem filter_of_notMem {cs : List Char} (h : ',' ∉ cs) : cs.filter (· ≠ ',') = cs := by
  rw [List.filter_eq_self]
  intro c hc
  exact decide_eq_true fun heq ↦ h (heq ▸ hc)

theorem filter_groupDigits {digits : List Char} (h : ∀ c ∈ digits, Decimal.isDigit c = true) :
    (groupDigits digits).filter (· ≠ ',') = digits := by
  induction digits with
  | nil => rfl
  | cons d ds ih =>
    obtain ⟨hd, hds⟩ := List.forall_mem_cons.1 h
    have hne : d ≠ ',' := by
      rintro rfl
      contradiction
    rw [groupDigits]
    split
    · rw [List.filter_cons_of_pos (by simpa using hne), List.filter_cons_of_neg (by simp), ih hds]
    · rw [List.filter_cons_of_pos (by simpa using hne), ih hds]

theorem withoutCommas_of_lacks {text : String} (h : Lacks ',' text) : withoutCommas text = text := by
  rw [withoutCommas, filter_of_notMem h, String.ofList_toList]

section

variable {whole fraction : List Char}

theorem groupThousands_of_written (h : Decimal.Written whole fraction) :
    groupThousands (String.ofList (whole ++ Decimal.fractionPart fraction)) =
      String.ofList (groupDigits whole ++ Decimal.fractionPart fraction) := by
  have hwhole : (whole ++ Decimal.fractionPart fraction).takeWhile Decimal.isDigit = whole := by
    have hstop : ∀ c ∈ (Decimal.fractionPart fraction ++ []).head?, Decimal.isDigit c = false :=
      Decimal.head?_fractionPart nofun
    rw [List.append_nil] at hstop
    exact Decimal.takeWhile_digits h.whole_digits hstop
  have hne : whole.isEmpty = false := List.isEmpty_eq_false_iff.2 h.whole_ne_nil
  simp only [groupThousands, String.toList_ofList, hwhole, hne, List.drop_left, Bool.false_eq_true,
    if_false]

/-- Deleting the commas undoes the grouping. -/
theorem withoutCommas_groupDigits (h : Decimal.Written whole fraction) :
    withoutCommas (String.ofList (groupDigits whole ++ Decimal.fractionPart fraction)) =
      String.ofList (whole ++ Decimal.fractionPart fraction) := by
  have hfraction : (Decimal.fractionPart fraction).filter (· ≠ ',') =
      Decimal.fractionPart fraction := by
    cases fraction with
    | nil => rfl
    | cons c fraction =>
      have hcomma : ',' ∉ c :: fraction := fun h' ↦ absurd (h.fraction_digits _ h') (by decide)
      rw [Decimal.fractionPart_of_ne_nil (List.cons_ne_nil c fraction),
        List.filter_cons_of_pos (by decide), filter_of_notMem hcomma]
  rw [withoutCommas, String.toList_ofList, List.filter_append, filter_groupDigits h.whole_digits,
    hfraction]

theorem isGrouped_groupDigits (h : Decimal.Written whole fraction) :
    IsGrouped (String.ofList (groupDigits whole ++ Decimal.fractionPart fraction)) := by
  obtain ⟨first, more, hgroups, hdigits, hpos, hle, hmore⟩ := groupDigits_eq h.whole_ne_nil
  refine ⟨first, more, fraction, ?_, hpos, hle, hmore, ?_⟩
  · rw [String.toList_ofList, hgroups]
  · rw [← hdigits]
    exact List.forall_mem_append.2 ⟨h.whole_digits, h.fraction_digits⟩

end

/-- A text with a sign has no digits in front, so nothing is grouped. -/
theorem groupThousands_minus (text : String) : groupThousands ("-" ++ text) = "-" ++ text := by
  have hchars : ("-" ++ text).toList = '-' :: text.toList := String.toList_append
  rw [groupThousands, hchars]
  rfl

/-! ### Numbers -/

/-- The exponent of ten of the leading digit of a double, as it is written. -/
def Double.decimalExponent (x : Float) : Int :=
  match ofFloat x with
  | .finite _ mantissa exponent => (Decimal.shortest mantissa exponent).order
  | _ => 0

/-- The shortest decimal of a double is at least this power of ten and below the next one. -/
theorem Double.exists_decimal_of_order {x : Float} {negative : Bool} {m : ℕ} {e : ℤ}
    (hx : ofFloat x = .finite negative m e) (hm : m ≠ 0) :
    ∃ d : Decimal, HasValue d.toFloat (m * 2 ^ e) ∧ (10 : ℚ) ^ decimalExponent x ≤ d.toRat ∧
      d.toRat < 10 ^ (decimalExponent x + 1) := by
  have hvalue := hasValue_toFloat_shortest hx hm rfl
  obtain ⟨-, hlt, -, -⟩ := hasValue_of_ofFloat hx hm
  have hne := Decimal.coefficient_shortest_ne_zero (e := e) (Nat.pos_of_ne_zero hm) hlt
  rw [decimalExponent, hx]
  exact ⟨_, hvalue, Decimal.order_bounds hne⟩

namespace Format

variable {format : Format} {x : Float} {negative : Bool} {m : ℕ} {e : ℤ}

/-- The number is written with an exponent. -/
def usesExponent (format : Format) (x : Float) : Prop :=
  Double.decimalExponent x < format.lowerExponent ∨ format.upperExponent ≤ Double.decimalExponent x

theorem number_of_usesExponent (hx : Double.ofFloat x = .finite negative m e) (hm : m ≠ 0)
    (h : format.usesExponent x) :
    format.number x = (if negative then "-" else "") ++ exponential (Decimal.shortest m e) := by
  rw [usesExponent, Double.decimalExponent, hx] at h
  rw [number, hx]
  dsimp only
  rw [if_neg hm, if_pos h]

theorem number_of_not_usesExponent (hx : Double.ofFloat x = .finite negative m e) (hm : m ≠ 0)
    (h : ¬format.usesExponent x) :
    format.number x =
      groupThousands ((if negative then "-" else "") ++ (Decimal.shortest m e).plain) := by
  rw [usesExponent, Double.decimalExponent, hx] at h
  rw [number, hx]
  dsimp only
  rw [if_neg hm, if_neg h]

theorem number_exponential (hx : Double.ofFloat x = .finite negative m e) (hm : m ≠ 0)
    (h : format.usesExponent x) :
    Double.ofText? (format.number x) = some x ∧ IsExponential (format.number x) ∧
      Lacks ',' (format.number x) := by
  have hsign : Lacks ',' (if negative then "-" else "") := by
    cases negative <;> decide
  have htext := number_of_usesExponent hx hm h
  refine ⟨?_, ?_, ?_⟩
  · rw [htext]
    exact Double.ofText?_of_denote hx hm (Decimal.denote_exponential _)
  · obtain ⟨sign, -, hchars⟩ := (Decimal.shortest m e).exists_exponential_eq
    rw [IsExponential, htext, String.toList_append, hchars]
    simp
  · rw [htext]
    exact hsign.append (lacks_exponential rfl (by decide) _)

theorem number_negative (hx : Double.ofFloat x = .finite true m e) (hm : m ≠ 0)
    (h : ¬format.usesExponent x) :
    Double.ofText? (format.number x) = some x ∧ ¬IsExponential (format.number x) ∧
      Lacks ',' (format.number x) := by
  have htext : format.number x = "-" ++ (Decimal.shortest m e).plain :=
    (number_of_not_usesExponent hx hm h).trans (groupThousands_minus _)
  rw [htext]
  refine ⟨Double.ofText?_of_denote hx hm (Decimal.denote_plain _), ?_, ?_⟩
  · have hsign : Lacks 'e' "-" := by decide
    exact hsign.append (Decimal.lacks_plain rfl (by decide) _)
  · have hsign : Lacks ',' "-" := by decide
    exact hsign.append (Decimal.lacks_plain rfl (by decide) _)

theorem number_positive (hx : Double.ofFloat x = .finite false m e) (hm : m ≠ 0)
    (h : ¬format.usesExponent x) :
    Double.ofText? (withoutCommas (format.number x)) = some x ∧ ¬IsExponential (format.number x) ∧
      IsGrouped (format.number x) := by
  obtain ⟨whole, fraction, hwritten, hplain⟩ := (Decimal.shortest m e).exists_plain_eq
  have htext : format.number x = groupThousands (Decimal.shortest m e).plain := by
    rw [number_of_not_usesExponent hx hm h, if_neg Bool.false_ne_true, String.empty_append]
  have hgrouped : format.number x =
      String.ofList (groupDigits whole ++ Decimal.fractionPart fraction) := by
    rw [htext, hplain, groupThousands_of_written hwritten]
  refine ⟨?_, ?_, ?_⟩
  · have hread := Double.ofText?_of_denote hx hm (Decimal.denote_plain _)
    rwa [if_neg Bool.false_ne_true, String.empty_append, hplain,
      ← withoutCommas_groupDigits hwritten, ← hgrouped] at hread
  · rw [htext]
    exact lacks_groupThousands (by decide) (Decimal.lacks_plain rfl (by decide) _)
  · rw [hgrouped]
    exact isGrouped_groupDigits hwritten

/-- **A number that is shown is not changed by it.** Without its commas the text of a finite double is
read as this double, or as zero if it is the negative zero. It has an exponent exactly if the number is
not zero and its decimal exponent is out of the bounds of the format. Only positive numbers without an
exponent have commas, and these stand between groups of three integer digits. -/
theorem number_lossless (format : Format) {x : Float} (hx : x.isFinite = true) :
    Double.ofText? (withoutCommas (format.number x)) = some (if x == 0 then 0 else x) ∧
      (IsExponential (format.number x) ↔ (x == 0) = false ∧ format.usesExponent x) ∧
      (',' ∈ (format.number x).toList → 0 < x ∧ ¬IsExponential (format.number x)) ∧
      (0 < x → ¬IsExponential (format.number x) → IsGrouped (format.number x)) := by
  obtain ⟨negative, m, e, hx⟩ := Double.isFinite_iff.1 hx
  by_cases hm : m = 0
  · rw [hm] at hx
    have hvalue := Double.hasValue_zero_of_ofFloat hx
    have hzero : (x == 0) = true := (Double.beq_iff hvalue Double.hasValue_zero).2 rfl
    have hpos : ¬0 < x := mt (Double.lt_iff Double.hasValue_zero hvalue).1 (lt_irrefl 0)
    have htext : format.number x = "0" := by
      rw [number, hx]
      exact if_pos rfl
    rw [htext, hzero, if_pos rfl]
    have hlacks : Lacks 'e' "0" := by decide
    exact ⟨by decide +kernel, iff_of_false hlacks fun h ↦ Bool.noConfusion h.1,
      fun h ↦ absurd h (by decide), fun h ↦ absurd h hpos⟩
  · obtain ⟨hzero, hpos⟩ := Double.pos_iff_of_ofFloat hx hm
    rw [hzero, if_neg Bool.false_ne_true, hpos]
    by_cases hexponent : format.usesExponent x
    · obtain ⟨hread, hexp, hlacks⟩ := number_exponential hx hm hexponent
      rw [withoutCommas_of_lacks hlacks]
      exact ⟨hread, iff_of_true hexp ⟨rfl, hexponent⟩, fun h ↦ absurd h hlacks,
        fun _ h ↦ absurd hexp h⟩
    cases negative with
    | true =>
      obtain ⟨hread, hexp, hlacks⟩ := number_negative hx hm hexponent
      rw [withoutCommas_of_lacks hlacks]
      exact ⟨hread, iff_of_false hexp fun h ↦ hexponent h.2, fun h ↦ absurd h hlacks,
        fun h ↦ Bool.noConfusion h⟩
    | false =>
      obtain ⟨hread, hexp, hgrouped⟩ := number_positive hx hm hexponent
      exact ⟨hread, iff_of_false hexp fun h ↦ hexponent h.2, fun _ ↦ ⟨rfl, hexp⟩,
        fun _ _ ↦ hgrouped⟩

/-- Seven digits in front of the point make three groups, and those behind it none. -/
theorem number_lossless_million :
    let x : Float := .ofBits 4698053239294132224
    x.isFinite = true ∧ Format.number {} x = "1,234,567.625" ∧
      Double.ofText? (withoutCommas (Format.number {} x)) = some (if x == 0 then 0 else x) ∧
      IsGrouped (Format.number {} x) := by
  intro x
  have hfinite : x.isFinite = true := by decide +kernel
  have htext : Format.number {} x = "1,234,567.625" := by decide +kernel
  have hpos : 0 < x := by decide +kernel
  obtain ⟨hread, -, -, hgrouped⟩ := number_lossless {} hfinite
  have hplain : Lacks 'e' (Format.number {} x) := by
    rw [htext]
    decide
  exact ⟨hfinite, htext, hread, hgrouped hpos hplain⟩

end Format

end Reckoner
