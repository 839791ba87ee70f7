import Reckoner.Decimal.Numeral
import Reckoner.Proofs.GreedyReading

/-!
# Writing expressions

An expression is written with parentheses only where the grammar requires them, and with a sign for
every product. Its *rank* is the kind of phrase that its tokens are without parentheses around them,
and every operand stands in a place that takes one rank and all tighter ones (`Rank.enclose`).

The readers take what is written as the same tree. For each rank, `ReadsAs` says so of the reader of
this rank; where a loop reads further operands, the loop goes on behind the tokens with this tree as its
first operand. A phrase of one rank is also one of the next looser rank, and in parentheses it is one
of the tightest. With one lemma for each kind of node, the induction on the tree only has to put them
together.
-/

namespace Reckoner

variable {K : Type}

/-! ### Ranks -/

/-- The kinds of phrases, loosest first. -/
inductive Rank where
  | conversion
  | operation (level : Level)
  | sign
  | power
  | call
  | atom
deriving DecidableEq, Repr

namespace Rank

/-- How tightly the phrases of a rank hold together. -/
def tightness : Rank → Nat
  | conversion => 0
  | operation .comparison => 1
  | operation .sum => 2
  | operation .product => 3
  | sign => 4
  | power => 5
  | call => 6
  | atom => 7

/-- The next looser rank. -/
def looser : Rank → Rank
  | conversion => conversion
  | operation .comparison => conversion
  | operation .sum => operation .comparison
  | operation .product => operation .sum
  | sign => operation .product
  | power => sign
  | call => power
  | atom => call

/-- The tokens of a phrase in a place that takes the rank `least` and tighter ones. -/
def enclose (least rank : Rank) (w : List (Token K)) : List (Token K) :=
  if least.tightness ≤ rank.tightness then w else .leftParen :: w ++ [.rightParen]

theorem tightness_looser (rank : Rank) : rank.looser.tightness = rank.tightness - 1 := by
  rcases rank with - | (- | - | -) | - | - | - | - <;> rfl

theorem tightness_le_atom (rank : Rank) : rank.tightness ≤ atom.tightness := by
  rcases rank with - | (- | - | -) | - | - | - | - <;> decide

theorem tightness_injective {rank rank' : Rank} (h : rank.tightness = rank'.tightness) :
    rank = rank' := by
  rcases rank with - | (- | - | -) | - | - | - | - <;>
    rcases rank' with - | (- | - | -) | - | - | - | - <;> first | rfl | contradiction

end Rank

/-- The place of a right operand of a level: it takes what binds tighter than the level. -/
def Level.operandRank : Level → Rank
  | comparison => .operation .sum
  | sum => .operation .product
  | product => .sign

namespace Operator

/-- The level of an operator; the power is none of those that associate to the left. -/
def level? : Operator → Option Level
  | equal | notEqual | less | lessEqual | greater | greaterEqual => some .comparison
  | add | subtract => some .sum
  | multiply | divide | modulo => some .product
  | power => none

/-- The rank of an operation. -/
def rank (op : Operator) : Rank := op.level?.elim .power .operation

/-- The place of a left operand. -/
def leftRank (op : Operator) : Rank := op.level?.elim .call .operation

/-- The place of a right operand. -/
def rightRank (op : Operator) : Rank := op.level?.elim .sign Level.operandRank

/-- The sign of an operator. -/
def token : Operator → Token K
  | equal => .equal
  | notEqual => .notEqual
  | less => .less
  | lessEqual => .lessEqual
  | greater => .greater
  | greaterEqual => .greaterEqual
  | add => .plus
  | subtract => .minus
  | multiply => .times
  | divide => .divide
  | modulo => .modulo
  | power => .caret

theorem operator?_token {op : Operator} {level : Level} (h : op.level? = some level) :
    level.operator? (op.token : Token K) = some op := by
  cases op <;> cases h <;> rfl

theorem eq_power_of_level? {op : Operator} (h : op.level? = none) : op = power := by
  cases op with
  | power => rfl
  | _ => contradiction

end Operator

/-! ### Tokens of expressions -/

/-- The sign in front of an operand. -/
def Sign.token : Sign → Token K
  | plus => .plus
  | minus => .minus

/-- The rank of an expression. -/
def Expr.rank : Expr K → Rank
  | number _ => .atom
  | symbol _ => .atom
  | binary op _ _ => op.rank
  | signed _ _ => .sign
  | call _ _ => .call
  | convert _ _ => .conversion

/-- What can be called needs no parentheses in front of an argument list. -/
theorem Expr.tightness_call_le {e : Expr K} (h : e.isCallable = true) :
    Rank.call.tightness ≤ e.rank.tightness := by
  cases e with
  | symbol => exact Nat.le_succ 6
  | call => exact Nat.le_refl 6
  | number | binary | signed | convert => contradiction

section

variable [Scalar K]

/-- A power sign and an exponent; an exponent of one is left out. -/
def exponentTokens (n : Int) : List (Token K) :=
  if n = 1 then []
  else if n < 0 then [.caret, .minus, .number (Scalar.ofInt (-n))]
  else [.caret, .number (Scalar.ofInt n)]

/-- The tokens of a factor of a target, behind a division sign if `divided` is set. -/
def UnitPower.tokens (divided : Bool) (u : UnitPower) : List (Token K) :=
  .name u.name :: exponentTokens (if divided then -u.power else u.power)

/-- The sign in front of a further factor of a target. -/
def Token.joint (divided : Bool) : Token K := if divided then .divide else .times

/-- The tokens of a target. All factors but the first are divided by if their power is negative. -/
def targetTokens (divided : Bool) : List UnitPower → List (Token K)
  | [] => []
  | [u] => u.tokens divided
  | u :: v :: more =>
    u.tokens divided ++ .joint (v.power < 0) :: targetTokens (v.power < 0) (v :: more)

namespace Expr

mutual

/-- The tokens of an expression, with as few parentheses as possible. -/
def tokens : Expr K → List (Token K)
  | number value => [.number value]
  | symbol name => [.name name]
  | binary op left right =>
    op.leftRank.enclose left.rank left.tokens ++
      op.token :: op.rightRank.enclose right.rank right.tokens
  | signed sign operand => sign.token :: Rank.sign.enclose operand.rank operand.tokens
  | call callee args => callee.tokens ++ .leftParen :: argumentTokens args ++ [.rightParen]
  | convert value target => value.tokens ++ .into :: targetTokens false target

/-- The tokens of arguments, with commas between them. -/
def argumentTokens : List (Expr K) → List (Token K)
  | [] => []
  | [e] => e.tokens
  | e :: f :: more => e.tokens ++ .comma :: argumentTokens (f :: more)

end

/-- **The text of an expression**: its tokens with blanks between them. -/
def text (e : Expr K) : String := " ".intercalate (e.tokens.map Token.text)

end Expr

end

namespace Reader

variable [Scalar K] {w v : List (Token K)} {e f : Expr K}

/-! ### Phrases as the readers meet them -/

/-- The reader of a rank takes the tokens as the expression, in front of tokens that do not bind more
tightly than the operators of this rank. Where a loop follows, it goes on from there. -/
def ReadsAs : Rank → List (Token K) → Expr K → Prop
  | .conversion, w, e => ∀ us f vs, headBinding us ≤ 1 →
      Takes (fun limit left ↦ conversions limit left e) us f vs → Takes expression (w ++ us) f vs
  | .operation level, w, e => ∀ us f vs, headBinding us ≤ level.binding →
      Takes (fun limit left ↦ operations limit level left e) us f vs →
        Takes (fun limit left ↦ operation limit level left) (w ++ us) f vs
  | .sign, w, e => ∀ us, headBinding us ≤ 5 → Takes unary (w ++ us) e us
  | .power, w, e => StartsFactor w ∧ ∀ us, headBinding us ≤ 5 → Takes power (w ++ us) e us
  | .call, w, e => StartsFactor w ∧ ∀ us f vs,
      Takes (fun limit left ↦ calls limit left e) us f vs → Takes application (w ++ us) f vs
  | .atom, w, e => StartsFactor w ∧ ∀ us, Takes primary (w ++ us) e us

namespace ReadsAs

/-! ### From one rank to another -/

theorem of_atom (h : ReadsAs .atom w e) : ReadsAs .call w e :=
  ⟨h.1, fun us _ _ hf ↦ takes_application (h.2 us) hf⟩

theorem takes_application (h : ReadsAs .call w e) {us : List (Token K)} (hus : headBinding us ≤ 6) :
    Takes application (w ++ us) e us :=
  h.2 us e us (.of_forall fun _ _ ↦ calls_stop e hus)

theorem of_call (h : ReadsAs .call w e) : ReadsAs .power w e :=
  ⟨h.1, fun _ hus ↦
    takes_power_stop (h.takes_application (hus.trans (by decide))) (isPower_eq_false hus)⟩

theorem of_power (h : ReadsAs .power w e) : ReadsAs .sign w e :=
  fun us hus ↦ takes_unary_power (h.2 us hus) (h.1.append us).sign?_eq_none

theorem takes_operation {level : Level} (h : ReadsAs (.operation level) w e) {us : List (Token K)}
    (hus : headBinding us < level.binding) :
    Takes (fun limit left ↦ operation limit level left) (w ++ us) e us :=
  h us e us hus.le (.of_forall fun _ _ ↦ operations_stop e hus)

theorem takes_operand {level : Level} (h : ReadsAs level.operandRank w e) {us : List (Token K)}
    (hus : headBinding us ≤ level.binding) :
    Takes (fun limit left ↦ operand limit level left) (w ++ us) e us := by
  cases level with
  | comparison => exact takes_operand_comparison (takes_operation h (Nat.lt_succ_of_le hus))
  | sum => exact takes_operand_sum (takes_operation h (Nat.lt_succ_of_le hus))
  | product =>
    have hunary : Takes unary (w ++ us) e us := h us (Nat.le_succ_of_le hus)
    exact takes_operand_product (takes_implicit hunary (.of_forall fun _ _ ↦ factors_stop e hus))

theorem first (level : Level) (h : ReadsAs level.operandRank w e) :
    ReadsAs (.operation level) w e :=
  fun _ _ _ hus hf ↦ Reader.takes_operation (takes_operand h hus) hf

theorem of_comparison (h : ReadsAs (.operation .comparison) w e) : ReadsAs .conversion w e :=
  fun _ _ _ hus hf ↦ takes_expression (takes_operation h (Nat.lt_succ_of_le hus)) hf

theorem looser {rank : Rank} (h : ReadsAs rank w e) : ReadsAs rank.looser w e := by
  cases rank with
  | atom => exact of_atom h
  | call => exact of_call h
  | power => exact of_power h
  | sign => exact first .product h
  | operation level =>
    cases level with
    | product => exact first .sum h
    | sum => exact first .comparison h
    | comparison => exact of_comparison h
  | conversion => exact h

theorem of_le {rank least : Rank} (h : ReadsAs rank w e)
    (hle : least.tightness ≤ rank.tightness) : ReadsAs least w e := by
  induction hn : rank.tightness - least.tightness generalizing rank with
  | zero =>
    obtain rfl : rank = least := Rank.tightness_injective (by omega)
    exact h
  | succ n ih =>
    have hlooser := rank.tightness_looser
    exact ih h.looser (by omega) (by omega)

theorem takes_expression {rank : Rank} (h : ReadsAs rank w e) {us : List (Token K)}
    (hus : headBinding us = 0) : Takes expression (w ++ us) e us := by
  have hconversion : ReadsAs .conversion w e := h.of_le (Nat.zero_le _)
  exact hconversion us e us (by omega) (.of_forall fun _ _ ↦ conversions_stop e (by omega))

theorem parenthesized {rank : Rank} (h : ReadsAs rank w e) :
    ReadsAs .atom (.leftParen :: w ++ [.rightParen]) e := by
  refine ⟨⟨.leftParen, _, rfl, rfl⟩, fun us ↦ ?_⟩
  have hinner : Takes expression (w ++ .rightParen :: us) e (.rightParen :: us) :=
    h.takes_expression rfl
  rw [List.cons_append, List.cons_append, List.append_assoc]
  exact takes_primary_parenthesized hinner

theorem enclose {rank : Rank} (least : Rank) (h : ReadsAs rank w e) :
    ReadsAs least (least.enclose rank w) e := by
  rw [Rank.enclose]
  split
  · rename_i hle
    exact h.of_le hle
  · exact h.parenthesized.of_le least.tightness_le_atom

/-! ### One node on top -/

theorem number (value : K) : ReadsAs .atom [.number value] (.number value) :=
  ⟨⟨_, _, rfl, rfl⟩, takes_primary_number value⟩

theorem symbol (name : String) : ReadsAs (K := K) .atom [.name name] (.symbol name) :=
  ⟨⟨_, _, rfl, rfl⟩, takes_primary_name name⟩

theorem joined {level : Level} {op : Operator} {t : Token K} (hop : level.operator? t = some op)
    (h : ReadsAs (.operation level) w e) (h' : ReadsAs level.operandRank v f) :
    ReadsAs (.operation level) (w ++ t :: v) (.binary op e f) := by
  intro us g vs hus hg
  have hoperations : Takes (fun limit left ↦ operations limit level left e) (t :: v ++ us) g vs :=
    takes_operations hop (takes_operand h' hus) hg
  rw [List.append_assoc]
  exact h _ g vs (Token.binding_of_operator? hop).le hoperations

theorem raised (h : ReadsAs .call w e) (h' : ReadsAs .sign v f) :
    ReadsAs .power (w ++ .caret :: v) (.binary .power e f) := by
  refine ⟨h.1.append _, fun us hus ↦ ?_⟩
  have hbase : Takes application (w ++ .caret :: v ++ us) e (.caret :: (v ++ us)) := by
    rw [List.append_assoc]
    exact h.takes_application (Nat.le_refl 6)
  exact takes_power rfl hbase (h' us hus)

theorem signed (sign : Sign) (h : ReadsAs .sign w e) :
    ReadsAs .sign (sign.token :: w) (.signed sign e) := by
  have hsign : (sign.token : Token K).sign? = some sign := by cases sign <;> rfl
  exact fun us hus ↦ takes_unary_signed hsign (h us hus)

theorem called {args : List (Expr K)} (h : ReadsAs .call w e) (hcallable : e.isCallable = true)
    (hargs : ∀ us, Takes (fun limit left ↦ argumentList (expression limit left))
      (v ++ .rightParen :: us) args (.rightParen :: us)) :
    ReadsAs .call (w ++ .leftParen :: v ++ [.rightParen]) (.call e args) := by
  refine ⟨(h.1.append _).append _, fun us g vs hg ↦ ?_⟩
  simp only [List.append_assoc, List.cons_append, List.nil_append]
  exact h.2 _ g vs (takes_calls hcallable (hargs us) hg)

theorem converted {rank : Rank} {target : List UnitPower} (h : ReadsAs rank w e)
    (htarget : ∀ us, headBinding us ≤ 3 →
      unitTarget false (.ofList (v ++ us)) = .ok (target, .ofList us)) :
    ReadsAs .conversion (w ++ .into :: v) (.convert e target) := by
  have hvalue : ReadsAs .conversion w e := h.of_le (Nat.zero_le _)
  intro us g vs hus hg
  have hconversions : Takes (fun limit left ↦ conversions limit left e) (.into :: v ++ us) g vs :=
    takes_conversions (htarget us (hus.trans (by decide))) hg
  rw [List.append_assoc]
  exact hvalue _ g vs (Nat.le_refl 1) hconversions

end ReadsAs

/-- What is read as an expression begins like one. -/
theorem exists_first_of_expression {limit left : Nat} {ts : List (Token K)} {us : Tokens K}
    (h : expression limit left (.ofList ts) = .ok (e, us)) :
    ∃ t, ts.head? = some t ∧ (t.startsFactor = true ∨ t.sign?.isSome = true) := by
  obtain ⟨w, hread, hw⟩ := expression_sound limit left h
  obtain ⟨t, v, rfl, ht⟩ := hw.exists_first
  refine ⟨t, ?_, ht⟩
  rw [← Tokens.peek_ofList, hread.eq]
  rfl

/-- Arguments do not begin with a right parenthesis, so they are not taken for an empty list. -/
theorem takes_argumentList_of_separated {ts us : List (Token K)} {args : List (Expr K)}
    (h : Takes (fun limit left ↦ separated (expression limit left)) ts args us) :
    Takes (fun limit left ↦ argumentList (expression limit left)) ts args us := by
  refine takes_argumentList (fun hparen ↦ ?_) h
  obtain ⟨left, hleft⟩ := h.exists
  obtain ⟨first, vs, hfirst, -⟩ := (separated_expression_eq_ok 0 left).1 (hleft 0)
  obtain ⟨t, ht, hstarts⟩ := exists_first_of_expression hfirst
  obtain rfl := Option.some.inj (hparen.symm.trans ht)
  exact hstarts.elim nofun nofun

end Reader

/-! ### What can be written -/

/-- Whether a double is finite and its sign bit is clear. -/
def Double.isUnsigned : Double → Bool
  | .finite false _ _ => true
  | _ => false

/-- Exponents are exact as doubles, and their text is read as the same double. -/
theorem Double.ofInt_exponent (k : Fin 128) :
    (Double.ofFloat (Scalar.ofInt k)).isUnsigned = true ∧
      Scalar.integer? (Scalar.ofInt k : Float) = some (k : Int) ∧
      Double.ofText? (Double.plainText (Scalar.ofInt k)) = some (Scalar.ofInt k) := by
  revert k
  decide +kernel

theorem Reader.exists_exponent {n : Int} (hpos : 0 ≤ n) (hle : n ≤ maxUnitExponent) :
    ∃ k : Fin 128, n = (k : Int) := by
  have hle : n ≤ 127 := hle
  exact ⟨⟨n.toNat, by omega⟩, (Int.toNat_of_nonneg hpos).symm⟩

/-- Whether a word is read as a name. -/
def isName (word : String) : Bool :=
  word.toList.head?.any isNameStart && word.toList.all isNamePart && word != "to" && word != "in"

/-- Whether a factor of a target has a name and an exponent within the limit. -/
def UnitPower.isWritable (u : UnitPower) : Bool :=
  isName u.name && decide (u.power.natAbs ≤ Reader.maxUnitExponent)

namespace Expr

mutual

/-- Whether an expression can be written: its numbers have no sign, its names are read as names, only
what can be called is called, and targets have at least one factor. -/
def isWritable : Expr Float → Bool
  | number value => (Double.ofFloat value).isUnsigned
  | symbol name => isName name
  | binary _ left right => left.isWritable && right.isWritable
  | signed _ operand => operand.isWritable
  | call callee args => callee.isCallable && callee.isWritable && areWritable args
  | convert value target =>
    value.isWritable && !target.isEmpty && target.all UnitPower.isWritable

/-- Whether all of some expressions can be written. -/
def areWritable : List (Expr Float) → Bool
  | [] => true
  | e :: es => e.isWritable && areWritable es

end

mutual

/-- The numbers in an expression. -/
def numbers : Expr K → List K
  | number value => [value]
  | symbol _ => []
  | binary _ left right => left.numbers ++ right.numbers
  | signed _ operand => operand.numbers
  | call callee args => callee.numbers ++ argumentNumbers args
  | convert value _ => value.numbers

/-- The numbers in some expressions. -/
def argumentNumbers : List (Expr K) → List K
  | [] => []
  | e :: es => e.numbers ++ argumentNumbers es

end

end Expr

namespace Reader

variable {us : List (Token Float)}

/-! ### Targets -/

theorem integer?_ofInt {n : Int} (hpos : 0 ≤ n) (hle : n ≤ maxUnitExponent) :
    Scalar.integer? (Scalar.ofInt n : Float) = some n := by
  obtain ⟨k, rfl⟩ := exists_exponent hpos hle
  exact (Double.ofInt_exponent k).2.1

/-- What is written for an exponent is read as this exponent. -/
theorem unitFactor_exponentTokens (name : String) (divided : Bool) {n : Int}
    (hn : n.natAbs ≤ maxUnitExponent) (hus : headBinding us ≤ 5) :
    unitFactor divided (.ofList (.name name :: exponentTokens n ++ us)) =
      .ok (.ofExponent name divided n, .ofList us) := by
  rw [exponentTokens]
  split
  · rename_i hone
    rw [hone]
    exact unitFactor_name name divided hus
  split
  · have hinteger : Scalar.integer? (Scalar.ofInt (-n) : Float) = some (-n) :=
      integer?_ofInt (by omega) (by omega)
    have hexponent := unitExponent_minus hinteger (by omega) us
    rw [Int.neg_neg] at hexponent
    exact unitFactor_power name divided rfl hexponent
  · have hinteger : Scalar.integer? (Scalar.ofInt n : Float) = some n :=
      integer?_ofInt (by omega) (by omega)
    exact unitFactor_power name divided rfl (unitExponent_number hinteger (by omega) us)

theorem unitFactor_tokens {divided : Bool} {u : UnitPower} (hu : u.isWritable = true)
    (hus : headBinding us ≤ 5) :
    unitFactor divided (.ofList (u.tokens divided ++ us)) = .ok (u, .ofList us) := by
  have hle : u.power.natAbs ≤ maxUnitExponent := of_decide_eq_true (Bool.and_eq_true_iff.1 hu).2
  cases divided with
  | false => exact unitFactor_exponentTokens u.name false hle hus
  | true =>
    have hfactor := unitFactor_exponentTokens u.name true (by rwa [Int.natAbs_neg]) hus
    rwa [UnitPower.ofExponent, if_pos rfl, Int.neg_neg] at hfactor

theorem unitTarget_targetTokens {divided : Bool} {target : List UnitPower} (hne : target ≠ [])
    (htarget : target.all UnitPower.isWritable = true) (hus : headBinding us ≤ 3) :
    unitTarget divided (.ofList (targetTokens divided target ++ us)) =
      .ok (target, .ofList us) := by
  induction divided, target using targetTokens.induct with
  | case1 => contradiction
  | case2 divided u =>
    have hu : u.isWritable = true := List.all_eq_true.1 htarget u List.mem_cons_self
    refine unitTarget_eq_ok.2
      ⟨u, _, unitFactor_tokens hu (hus.trans (by decide)), .inl ⟨?_, rfl, rfl⟩⟩
    rw [Tokens.peek_ofList]
    exact joinsFactors?_eq_none hus
  | case3 divided u v more ih =>
    obtain ⟨hu, hmore⟩ := Bool.and_eq_true_iff.1 (List.all_cons.symm.trans htarget)
    let next := decide (v.power < 0)
    have hjoins : (Token.joint next : Token Float).joinsFactors? = some next := by
      cases next <;> rfl
    have hbinding : headBinding (Token.joint next :: targetTokens next (v :: more) ++ us) ≤ 5 :=
      (Token.binding_of_joinsFactors? hjoins).trans_le (by decide)
    rw [targetTokens, List.append_assoc]
    exact unitTarget_eq_ok.2 ⟨u, _, unitFactor_tokens hu hbinding,
      .inr ⟨next, _, v :: more, hjoins, Tokens.advance_ofList _ _, ih nofun hmore, rfl⟩⟩

/-! ### All nodes together -/

theorem readsAs_binary {op : Operator} {left right : Expr Float}
    (hleft : ReadsAs left.rank left.tokens left)
    (hright : ReadsAs right.rank right.tokens right) :
    ReadsAs op.rank (Expr.binary op left right).tokens (.binary op left right) := by
  have hleft := hleft.enclose op.leftRank
  have hright := hright.enclose op.rightRank
  rw [Expr.tokens]
  cases hlevel : op.level? with
  | none =>
    obtain rfl := Operator.eq_power_of_level? hlevel
    exact hleft.raised hright
  | some level =>
    have hrank : op.rank = .operation level := by rw [Operator.rank, hlevel]; rfl
    have hleftRank : op.leftRank = .operation level := by rw [Operator.leftRank, hlevel]; rfl
    have hrightRank : op.rightRank = level.operandRank := by rw [Operator.rightRank, hlevel]; rfl
    rw [hleftRank] at hleft ⊢
    rw [hrightRank] at hright ⊢
    rw [hrank]
    exact ReadsAs.joined (Operator.operator?_token hlevel) hleft hright

mutual

/-- **What is written is read as the tree that it was written from.** -/
theorem readsAs_tokens : (e : Expr Float) → e.isWritable = true → ReadsAs e.rank e.tokens e
  | .number value, _ => .number value
  | .symbol name, _ => .symbol name
  | .binary op left right, h => by
    obtain ⟨hleft, hright⟩ := Bool.and_eq_true_iff.1 h
    exact readsAs_binary (readsAs_tokens left hleft) (readsAs_tokens right hright)
  | .signed sign operand, h => by
    rw [Expr.tokens]
    exact ReadsAs.signed sign ((readsAs_tokens operand h).enclose .sign)
  | .call callee args, h => by
    obtain ⟨h, hargs⟩ := Bool.and_eq_true_iff.1 h
    obtain ⟨hcallable, hcallee⟩ := Bool.and_eq_true_iff.1 h
    rw [Expr.tokens]
    have hcall : ReadsAs .call callee.tokens callee :=
      (readsAs_tokens callee hcallee).of_le (Expr.tightness_call_le hcallable)
    refine hcall.called hcallable fun us ↦ ?_
    by_cases hnil : args = []
    · subst hnil
      exact takes_argumentList_nil us
    · exact takes_argumentList_of_separated (takes_argumentTokens args hnil hargs us)
  | .convert value target, h => by
    obtain ⟨h, htarget⟩ := Bool.and_eq_true_iff.1 h
    obtain ⟨hvalue, hne⟩ := Bool.and_eq_true_iff.1 h
    rw [Expr.tokens]
    have hne : target ≠ [] := by
      rintro rfl
      contradiction
    exact (readsAs_tokens value hvalue).converted fun us hus ↦
      unitTarget_targetTokens hne htarget hus

theorem takes_argumentTokens : (args : List (Expr Float)) → args ≠ [] →
    Expr.areWritable args = true → ∀ us,
      Takes (fun limit left ↦ separated (expression limit left))
        (Expr.argumentTokens args ++ .rightParen :: us) args (.rightParen :: us)
  | [], hne, _, _ => absurd rfl hne
  | [e], _, h, us => by
    obtain ⟨he, -⟩ := Bool.and_eq_true_iff.1 h
    have htakes : Takes expression (e.tokens ++ .rightParen :: us) e (.rightParen :: us) :=
      (readsAs_tokens e he).takes_expression rfl
    exact takes_separated_single htakes nofun
  | e :: f :: more, _, h, us => by
    obtain ⟨he, hmore⟩ := Bool.and_eq_true_iff.1 h
    rw [Expr.argumentTokens, List.append_assoc]
    exact takes_separated_cons ((readsAs_tokens e he).takes_expression rfl)
      (takes_argumentTokens (f :: more) nofun hmore us)

end

end Reader

end Reckoner
