import Reckoner.Proofs.ParserRuns

/-!
# Balanced reading

The parser with a counter of depth always comes to an end, with what the readers give, and keeps its
books: a reader that succeeds has taken at least one token, with one request for each, and is back at the
depth at which it was called; no depth above the limit is ever set; and a whole line takes at most one
request more than it has tokens (`Parser.reading_balanced`).

The comparison with the readers settles all of it, because the readers are known to end and to take
phrases, which are not empty. So there is one lemma for each reader, by induction on the fuel. The fuel
stands for the unread tokens, and for one of them it lasts for a way down from any reader to the one that
binds tightest (`Parser.MirroredBy`). The loops go deeper with every pass and leave the depth where it is
(`Parser.LoopMirroredBy`); who calls a loop sets it back (`Parser.LoopMirroredBy.restore`).
-/

namespace Reckoner.Parser

variable {K α β : Type} {limit left : Nat} {post : Nat → Prop} {s : Parser K}

section Mirrored

variable [Scalar K]

/-! ### Targets of conversions -/

theorem mirrors_unitExponent (s : Parser K) :
    Mirrors limit (· = s.depth) s (unitExponent.run.run s) (Reader.unitExponent s.tokens) := by
  rw [unitExponent, Reader.unitExponent]
  refine (Mirrors.advanceIf _).bind fun negative s' _ hdepth ↦ .peek ?_
  rw [← hdepth]
  dsimp only
  cases hpeek : s'.tokens.peek with
  | none => exact .expected _
  | some t =>
    cases t with
    | number value =>
      dsimp only
      cases (Scalar.integer? value).filter (· ≤ Reader.maxUnitExponent) with
      | none => exact .throw _
      | some n => exact (Mirrors.advance hpeek).step fun s'' _ hdepth ↦ .pure hdepth _
    | _ => exact .expected _

theorem mirrors_optionalExponent (s : Parser K) :
    Mirrors limit (· = s.depth) s (optionalExponent.run.run s)
      (Reader.optionalExponent s.tokens) := by
  rw [optionalExponent, Reader.optionalExponent]
  refine .peek (.ite (fun hany ↦ ?_) fun _ ↦ .pure rfl 1)
  obtain ⟨t, ht, -⟩ := (Option.any_eq_true _ _).1 hany
  exact (Mirrors.advance ht).step fun s' _ hdepth ↦ hdepth ▸ mirrors_unitExponent s'

theorem mirrors_unitFactor (divided : Bool) (s : Parser K) :
    Mirrors limit (· = s.depth) s ((unitFactor divided).run.run s)
      (Reader.unitFactor divided s.tokens) := by
  rw [unitFactor, Reader.unitFactor]
  refine .peek ?_
  cases hpeek : s.tokens.peek with
  | none => exact .expected _
  | some t =>
    cases t with
    | name name =>
      refine (Mirrors.advance hpeek).step fun s' _ hdepth ↦ ?_
      refine (mirrors_optionalExponent s').bind fun power s'' _ hdepth' ↦ ?_
      exact .pure (hdepth'.trans hdepth) _
    | _ => exact .expected _

/-! ### What is taken -/

theorem exists_taken {n : Nonterminal} {ts us : Tokens K} {x : n.Tree K} (h : Parsed n ts x us) :
    ∃ w ≠ [], ts = us.prepend w := by
  obtain ⟨w, hread, hw⟩ := h
  obtain ⟨t, v, rfl, -⟩ := hw.exists_first
  exact ⟨t :: v, List.cons_ne_nil t v, hread.eq⟩

theorem length_lt_of_parsed {n : Nonterminal} {ts us : Tokens K} {x : n.Tree K}
    (h : Parsed n ts x us) : us.length < ts.length := by
  obtain ⟨w, hw, rfl⟩ := exists_taken h
  have hpos := List.length_pos_of_ne_nil hw
  rw [Tokens.length_prepend]
  omega

theorem expressions_sound (limit left : Nat) : Reader.ExpressionsSound K limit left :=
  fun l _ ↦ Reader.expression_sound limit l

theorem primary_parsed {ts us : Tokens K} {e : Expr K}
    (h : Reader.primary limit left ts = .ok (e, us)) : Parsed .primary ts e us :=
  Reader.primary_sound (expressions_sound limit left) h

theorem application_parsed {ts us : Tokens K} {e : Expr K}
    (h : Reader.application limit left ts = .ok (e, us)) : Parsed .application ts e us :=
  Reader.application_sound (expressions_sound limit left) h

theorem power_parsed {ts us : Tokens K} {e : Expr K}
    (h : Reader.power limit left ts = .ok (e, us)) : Parsed .power ts e us :=
  (Reader.power_unary_sound (expressions_sound limit left)).1 h

theorem unary_parsed {ts us : Tokens K} {e : Expr K}
    (h : Reader.unary limit left ts = .ok (e, us)) : Parsed .unary ts e us :=
  (Reader.power_unary_sound (expressions_sound limit left)).2 h

theorem implicit_parsed {ts us : Tokens K} {e : Expr K}
    (h : Reader.implicit limit left ts = .ok (e, us)) : Parsed .implicit ts e us :=
  Reader.implicit_sound (expressions_sound limit left) h

theorem operand_parsed {level : Level} {ts us : Tokens K} {e : Expr K}
    (h : Reader.operand limit level left ts = .ok (e, us)) : Parsed (.operand level) ts e us :=
  Reader.operand_sound level (expressions_sound limit left) h

theorem operation_parsed {level : Level} {ts us : Tokens K} {e : Expr K}
    (h : Reader.operation limit level left ts = .ok (e, us)) : Parsed (.operation level) ts e us :=
  Reader.operation_sound (fun l _ ↦ Reader.operand_sound level (expressions_sound limit l)) h

theorem length_le_of_argumentList {ts us : Tokens K} {es : List (Expr K)}
    (h : Reader.argumentList (fun ts ↦ Reader.expression limit left ts) ts = .ok (es, us)) :
    us.length ≤ ts.length := by
  rcases Reader.argumentList_eq_ok.1 h with ⟨-, -, rfl⟩ | ⟨-, h⟩
  · exact Nat.le_refl _
  · exact (Reader.separated_sound (Reader.expression_sound limit left) h).length_le

/-! ### Fuel -/

/-- With fuel for 32 readers for each token that is left, and for those that bind tighter than this one,
a run does what a reader does from every state in which the reader has its levels left, and ends at the
depth at which it started. -/
def MirroredBy (limit rank fuel : Nat) (x : Run K α)
    (read : Nat → Tokens K → Except ParseError (α × Tokens K)) : Prop :=
  ∀ (left : Nat) (s : Parser K), 32 * s.tokens.length + rank ≤ fuel → s.depth + left = limit →
    Mirrors limit (· = s.depth) s (x.run.run s) (read left s.tokens)

/-- The same for a loop, which goes deeper with every pass and stays there. -/
def LoopMirroredBy (limit rank fuel : Nat) (x : Run K α)
    (read : Nat → Tokens K → Except ParseError (α × Tokens K)) : Prop :=
  ∀ (left : Nat) (s : Parser K), 32 * s.tokens.length + rank ≤ fuel → s.depth + left = limit →
    Mirrors limit (fun _ ↦ True) s (x.run.run s) (read left s.tokens)

section

omit [Scalar K]

variable {rank fuel : Nat} {x : Run K α}
  {read : Nat → Tokens K → Except ParseError (α × Tokens K)}

theorem MirroredBy.zero (hrank : 0 < rank) : MirroredBy limit rank 0 x read := by
  intro left s hfuel
  omega

theorem LoopMirroredBy.zero (hrank : 0 < rank) : LoopMirroredBy limit rank 0 x read := by
  intro left s hfuel
  omega

/-- A loop after which the depth is set back. -/
theorem LoopMirroredBy.restore (h : LoopMirroredBy limit rank fuel x read)
    (hfuel : 32 * s.tokens.length + rank ≤ fuel) (hdepth : s.depth + left = limit) {d : Nat}
    (hd : d ≤ limit) :
    Mirrors limit (· = d) s
      ((do
        let a ← x
        setDepth d
        return a : Run K α).run.run s)
      (read left s.tokens) := by
  have hbind := (h left s hfuel hdepth).bind (g := .ok) fun a s' _ _ ↦ Mirrors.setDepth hd a
  cases hr : read left s.tokens <;> rw [hr] at hbind <;> exact hbind

end

/-! ### The loop of targets and the loop of conversions -/

theorem mirrors_unitTarget (fuel : Nat) (divided : Bool) (s : Parser K)
    (hfuel : s.tokens.length < fuel) :
    Mirrors limit (· = s.depth) s ((unitTarget fuel divided).run.run s)
      (Reader.unitTarget divided s.tokens) := by
  induction fuel generalizing divided s with
  | zero => contradiction
  | succ fuel ih =>
    rw [unitTarget, Reader.unitTarget_eq]
    refine (mirrors_unitFactor divided s).bind fun u s₁ hfactor hdepth₁ ↦ .peek ?_
    have hlt := Reader.length_unitFactor hfactor
    dsimp only
    cases hjoins : s₁.tokens.peek.bind Token.joinsFactors? with
    | none => exact .pure hdepth₁ _
    | some next =>
      obtain ⟨t, ht, -⟩ := Option.bind_eq_some_iff.1 hjoins
      refine (Mirrors.advance ht).step fun s₂ hs₂ hdepth₂ ↦ ?_
      have hlt' := Tokens.length_advance ht hs₂
      refine (ih next s₂ (by omega)).bind fun more s₃ _ hdepth₃ ↦ ?_
      exact .pure (by omega) _

theorem conversions_mirrored (fuel : Nat) (value : Expr K) :
    LoopMirroredBy limit 1 fuel (conversions limit fuel value)
      fun left ↦ Reader.conversions limit left value := by
  induction fuel generalizing value with
  | zero => exact .zero (by decide)
  | succ fuel ih =>
    intro left s hfuel hdepth
    beta_reduce
    rw [conversions, Reader.conversions.eq_def]
    refine .peek (.ite (fun hinto ↦ ?_) fun _ ↦ .stop value)
    cases left with
    | zero => exact .tooDeep hdepth.ge
    | succ left =>
      refine .descend hdepth fun s₁ htokens hdepth₁ ↦ ?_
      have hpeek := Tokens.matches_into.1 hinto
      rw [← htokens] at hfuel hpeek ⊢
      refine (Mirrors.advance hpeek).step fun s₂ hs₂ hdepth₂ ↦ ?_
      have hlt := Tokens.length_advance hpeek hs₂
      refine (mirrors_unitTarget fuel false s₂ (by omega)).bind fun target s₃ htarget hdepth₃ ↦ ?_
      have hlt' := length_lt_of_parsed (Reader.unitTarget_sound false htarget)
      exact ih _ left s₃ (by omega) (by omega)

/-! ### Expressions -/

mutual

theorem expression_mirrored : ∀ fuel, MirroredBy limit 16 fuel (expression limit fuel)
    (Reader.expression (K := K) limit)
  | 0 => .zero (by decide)
  | fuel + 1 => by
    intro left s hfuel hdepth
    rw [expression, Reader.expression.eq_def]
    cases left with
    | zero => exact .currentDepth (.tooDeep hdepth.ge)
    | succ left =>
      refine .currentDepth (.descend hdepth fun s₁ htokens hdepth₁ ↦ ?_)
      rw [← htokens] at hfuel ⊢
      have hoperation :=
        operation_mirrored fuel .comparison left s₁ (Nat.le_of_succ_le_succ hfuel) hdepth₁
      refine hoperation.bind fun value s₂ hvalue hdepth₂ ↦ ?_
      have hlt := length_lt_of_parsed (operation_parsed hvalue)
      exact (conversions_mirrored fuel value).restore (by omega) (by omega) (by omega)

theorem operation_mirrored : ∀ fuel level, MirroredBy limit (level.rank + 2) fuel
    (operation limit fuel level) (Reader.operation (K := K) limit level)
  | 0, _ => .zero (Nat.succ_pos _)
  | fuel + 1, level => by
    intro left s hfuel hdepth
    rw [operation, Reader.operation]
    have hoperand := operand_mirrored fuel level left s (Nat.le_of_succ_le_succ hfuel) hdepth
    refine .currentDepth (hoperand.bind fun first s' hfirst hdepth' ↦ ?_)
    have hlt := length_lt_of_parsed (operand_parsed hfirst)
    exact (operations_mirrored fuel level first).restore (by omega) (by omega) (by omega)

theorem operand_mirrored : ∀ fuel level, MirroredBy limit (level.rank + 1) fuel
    (operand limit fuel level) (Reader.operand (K := K) limit level)
  | 0, _ => .zero (Nat.succ_pos _)
  | fuel + 1, .comparison => by
    intro left s hfuel hdepth
    rw [operand, Reader.operand]
    have hrank : Level.comparison.rank = 13 := rfl
    have hrank' : Level.sum.rank = 10 := rfl
    exact operation_mirrored fuel .sum left s (by omega) hdepth
  | fuel + 1, .sum => by
    intro left s hfuel hdepth
    rw [operand, Reader.operand]
    have hrank : Level.sum.rank = 10 := rfl
    have hrank' : Level.product.rank = 7 := rfl
    exact operation_mirrored fuel .product left s (by omega) hdepth
  | fuel + 1, .product => by
    intro left s hfuel hdepth
    rw [operand, Reader.operand]
    have hrank : Level.product.rank = 7 := rfl
    exact implicit_mirrored fuel left s (by omega) hdepth

theorem operations_mirrored : ∀ fuel level (first : Expr K), LoopMirroredBy limit level.rank fuel
    (operations limit fuel level first) fun left ↦ Reader.operations limit level left first
  | 0, level, _ => .zero (by cases level <;> decide)
  | fuel + 1, level, first => by
    intro left s hfuel hdepth
    beta_reduce
    rw [operations, Reader.operations.eq_def]
    refine .peek ?_
    cases hop : s.tokens.peek.bind level.operator? with
    | none => exact .stop first
    | some op =>
      cases left with
      | zero => exact .tooDeep hdepth.ge
      | succ left =>
        obtain ⟨t, ht, -⟩ := Option.bind_eq_some_iff.1 hop
        refine .descend hdepth fun s₁ htokens hdepth₁ ↦ ?_
        rw [← htokens] at hfuel ht ⊢
        refine (Mirrors.advance ht).step fun s₂ hs₂ hdepth₂ ↦ ?_
        have hlt := Tokens.length_advance ht hs₂
        have hoperand := operand_mirrored fuel level left s₂ (by omega) (by omega)
        refine hoperand.bind fun second s₃ hsecond hdepth₃ ↦ ?_
        have hlt' := length_lt_of_parsed (operand_parsed hsecond)
        exact operations_mirrored fuel level _ left s₃ (by omega) (by omega)

theorem implicit_mirrored : ∀ fuel, MirroredBy limit 6 fuel (implicit limit fuel)
    (Reader.implicit (K := K) limit)
  | 0 => .zero (by decide)
  | fuel + 1 => by
    intro left s hfuel hdepth
    rw [implicit, Reader.implicit]
    have hunary := unary_mirrored fuel left s (by omega) hdepth
    refine .currentDepth (hunary.bind fun first s' hfirst hdepth' ↦ ?_)
    have hlt := length_lt_of_parsed (unary_parsed hfirst)
    exact (factors_mirrored fuel first).restore (by omega) (by omega) (by omega)

theorem factors_mirrored : ∀ fuel (first : Expr K), LoopMirroredBy limit 5 fuel
    (factors limit fuel first) fun left ↦ Reader.factors limit left first
  | 0, _ => .zero (by decide)
  | fuel + 1, first => by
    intro left s hfuel hdepth
    beta_reduce
    rw [factors, Reader.factors.eq_def]
    refine .peek (.ite (fun _ ↦ ?_) fun _ ↦ .stop first)
    cases left with
    | zero => exact .tooDeep hdepth.ge
    | succ left =>
      refine .descend hdepth fun s₁ htokens hdepth₁ ↦ ?_
      rw [← htokens] at hfuel ⊢
      have hpower := power_mirrored fuel left s₁ (by omega) hdepth₁
      refine hpower.bind fun second s₂ hsecond hdepth₂ ↦ ?_
      have hlt := length_lt_of_parsed (power_parsed hsecond)
      exact factors_mirrored fuel _ left s₂ (by omega) (by omega)

theorem unary_mirrored : ∀ fuel, MirroredBy limit 5 fuel (unary limit fuel)
    (Reader.unary (K := K) limit)
  | 0 => .zero (by decide)
  | fuel + 1 => by
    intro left s hfuel hdepth
    rw [unary, Reader.unary.eq_def]
    refine .peek ?_
    cases hsign : s.tokens.peek.bind Token.sign? with
    | none => exact power_mirrored fuel left s (by omega) hdepth
    | some sign =>
      cases left with
      | zero => exact .currentDepth (.tooDeep hdepth.ge)
      | succ left =>
        obtain ⟨t, ht, -⟩ := Option.bind_eq_some_iff.1 hsign
        refine .currentDepth (.descend hdepth fun s₁ htokens hdepth₁ ↦ ?_)
        rw [← htokens] at hfuel ht ⊢
        refine (Mirrors.advance ht).step fun s₂ hs₂ hdepth₂ ↦ ?_
        have hlt := Tokens.length_advance ht hs₂
        have hunary := unary_mirrored fuel left s₂ (by omega) (by omega)
        exact hunary.bind fun operand s₃ _ _ ↦ .setDepth (by omega) _

theorem power_mirrored : ∀ fuel, MirroredBy limit 4 fuel (power limit fuel)
    (Reader.power (K := K) limit)
  | 0 => .zero (by decide)
  | fuel + 1 => by
    intro left s hfuel hdepth
    rw [power, Reader.power.eq_def]
    have happlication := application_mirrored fuel left s (by omega) hdepth
    refine happlication.bind fun base s₁ hbase hdepth₁ ↦ .peek ?_
    have hlt := length_lt_of_parsed (application_parsed hbase)
    rw [← hdepth₁] at hdepth ⊢
    refine .ite (fun hany ↦ .currentDepth ?_) fun _ ↦ .pure rfl base
    cases left with
    | zero => exact .tooDeep hdepth.ge
    | succ left =>
      obtain ⟨t, ht, -⟩ := (Option.any_eq_true _ _).1 hany
      refine .descend hdepth fun s₂ htokens hdepth₂ ↦ ?_
      rw [← htokens] at hlt ht ⊢
      refine (Mirrors.advance ht).step fun s₃ hs₃ hdepth₃ ↦ ?_
      have hlt' := Tokens.length_advance ht hs₃
      have hunary := unary_mirrored fuel left s₃ (by omega) (by omega)
      exact hunary.bind fun exponent s₄ _ _ ↦ .setDepth (by omega) _

theorem application_mirrored : ∀ fuel, MirroredBy limit 3 fuel (application limit fuel)
    (Reader.application (K := K) limit)
  | 0 => .zero (by decide)
  | fuel + 1 => by
    intro left s hfuel hdepth
    rw [application, Reader.application]
    have hprimary := primary_mirrored fuel left s (by omega) hdepth
    refine .currentDepth (hprimary.bind fun callee s' hcallee hdepth' ↦ ?_)
    have hlt := length_lt_of_parsed (primary_parsed hcallee)
    exact (calls_mirrored fuel callee).restore (by omega) (by omega) (by omega)

theorem calls_mirrored : ∀ fuel (callee : Expr K), LoopMirroredBy limit 2 fuel
    (calls limit fuel callee) fun left ↦ Reader.calls limit left callee
  | 0, _ => .zero (by decide)
  | fuel + 1, callee => by
    intro left s hfuel hdepth
    beta_reduce
    rw [calls, Reader.calls.eq_def]
    refine .peek (.ite (fun hcall ↦ ?_) fun _ ↦ .stop callee)
    cases left with
    | zero => exact .tooDeep hdepth.ge
    | succ left =>
      refine .descend hdepth fun s₁ htokens hdepth₁ ↦ ?_
      have hpeek := Tokens.matches_leftParen.1 (Bool.and_eq_true_iff.1 hcall).2
      rw [← htokens] at hfuel hpeek ⊢
      refine (Mirrors.advance hpeek).step fun s₂ hs₂ hdepth₂ ↦ ?_
      have hlt := Tokens.length_advance hpeek hs₂
      have hargs := argumentList_mirrored fuel left s₂ (by omega) (by omega)
      refine hargs.bind fun args s₃ hargs hdepth₃ ↦ ?_
      have hle := length_le_of_argumentList hargs
      refine Mirrors.closing.step fun s₄ hs₄ hdepth₄ ↦ ?_
      have hle' := Tokens.length_advance_le (Reader.closing_eq_ok.1 hs₄).2
      exact calls_mirrored fuel _ left s₄ (by omega) (by omega)

theorem primary_mirrored : ∀ fuel, MirroredBy limit 1 fuel (primary limit fuel)
    (Reader.primary (K := K) limit)
  | 0 => .zero (by decide)
  | fuel + 1 => by
    intro left s hfuel hdepth
    rw [primary, Reader.primary]
    refine .peek ?_
    cases hpeek : s.tokens.peek with
    | none => exact .unexpected
    | some t =>
      cases t with
      | number value => exact (Mirrors.advance hpeek).step fun s' _ hdepth' ↦ .pure hdepth' _
      | name name => exact (Mirrors.advance hpeek).step fun s' _ hdepth' ↦ .pure hdepth' _
      | leftParen =>
        refine (Mirrors.advance hpeek).step fun s₁ hs₁ hdepth₁ ↦ ?_
        have hlt := Tokens.length_advance hpeek hs₁
        have hexpression := expression_mirrored fuel left s₁ (by omega) (by omega)
        refine hexpression.bind fun inner s₂ _ hdepth₂ ↦ ?_
        refine Mirrors.closing.step fun s₃ _ hdepth₃ ↦ ?_
        exact .pure (by omega) _
      | _ => exact .unexpected

theorem argumentList_mirrored : ∀ fuel, MirroredBy limit 18 fuel (argumentList limit fuel)
    fun left ↦ Reader.argumentList fun ts ↦ Reader.expression (K := K) limit left ts
  | 0 => .zero (by decide)
  | fuel + 1 => by
    intro left s hfuel hdepth
    beta_reduce
    rw [argumentList, Reader.argumentList]
    exact .peek (.ite (fun _ ↦ .pure rfl []) fun _ ↦ separated_mirrored fuel left s (by omega) hdepth)

theorem separated_mirrored : ∀ fuel, MirroredBy limit 17 fuel (separated limit fuel)
    fun left ↦ Reader.separated fun ts ↦ Reader.expression (K := K) limit left ts
  | 0 => .zero (by decide)
  | fuel + 1 => by
    intro left s hfuel hdepth
    beta_reduce
    rw [separated, Reader.separated_eq fun _ _ _ h ↦ Reader.length_expression h]
    have hexpression := expression_mirrored fuel left s (by omega) hdepth
    refine hexpression.bind fun first s₁ hfirst hdepth₁ ↦ .peek ?_
    have hlt := length_lt_of_parsed (Reader.expression_sound limit left hfirst)
    refine .ite (fun hcomma ↦ ?_) fun _ ↦ .pure hdepth₁ _
    have hpeek := Tokens.matches_comma.1 hcomma
    refine (Mirrors.advance hpeek).step fun s₂ hs₂ hdepth₂ ↦ ?_
    have hlt' := Tokens.length_advance hpeek hs₂
    refine (separated_mirrored fuel left s₂ (by omega) (by omega)).bind fun more s₃ _ hdepth₃ ↦ ?_
    exact .pure (by omega) _

end

/-! ### Whole lines -/

omit [Scalar K] in
/-- An outcome that is found without the state, as the result of a reader that takes nothing. -/
theorem Mirrors.ofExcept {d : Nat} (hd : s.depth = d) (o : Except ParseError α) :
    Mirrors limit (· = d) s ((Parser.ofExcept o).run.run s)
      (o >>= fun a ↦ .ok (a, s.tokens)) := by
  cases o with
  | error e => exact .throw e
  | ok a => exact .pure hd a

theorem equation_mirrored (fuel : Nat) :
    MirroredBy limit 16 fuel (equation limit fuel) (fun left ts ↦ do
      let (first, ts) ← Reader.expression (K := K) limit left ts
      if ts.peek matches some .assign then
        let (value, ts) ← Reader.expression limit left (← ts.advance)
        .ok (← Reader.Action.ofEquation? first value, ts)
      else .ok (.expression first, ts)) := by
  intro left s hfuel hdepth
  have hexpression : MirroredBy limit 16 fuel (expression limit fuel)
    (Reader.expression (K := K) limit) := expression_mirrored fuel
  refine (hexpression left s hfuel hdepth).bind fun first s₁ hfirst hdepth₁ ↦ .peek ?_
  have hlt := length_lt_of_parsed (Reader.expression_sound limit left hfirst)
  refine .ite (fun hassign ↦ ?_) fun _ ↦ .pure hdepth₁ _
  have hpeek := Tokens.matches_assign.1 hassign
  refine (Mirrors.advance hpeek).step fun s₂ hs₂ hdepth₂ ↦ ?_
  have hlt' := Tokens.length_advance hpeek hs₂
  refine (hexpression left s₂ (by omega) (by omega)).bind fun value s₃ _ hdepth₃ ↦ ?_
  exact .ofExcept (by omega) _

theorem mirrors_action {fuel : Nat} (hfuel : 32 * s.tokens.length + 16 ≤ fuel) (hdepth : s.depth = 0) :
    Mirrors limit (· = s.depth) s ((action limit fuel).run.run s)
      (Reader.action limit s.tokens) := by
  have hlevels : s.depth + limit = limit := by omega
  have hequation := equation_mirrored fuel limit s hfuel hlevels
  rw [action, Reader.action]
  refine .peek ?_
  cases s.tokens.peek with
  | none => exact .pure rfl _
  | some t =>
    cases t with
    | semicolon => exact .pure rfl _
    | _ => exact hequation

/-- A run of the parser comes to an end with an outcome. -/
def Ends (limit : Nat) (s : Parser K) (run : Option (Except ParseError α × Parser K))
    (o : Except ParseError α) : Prop :=
  ∃ s', run = some (o, s') ∧ s.StaysWithin limit s'

omit [Scalar K] in
theorem Mirrors.ends {x : Run K α} {f : α → Run K β} {r : Except ParseError (α × Tokens K)}
    {g : α × Tokens K → Except ParseError β} (h : Mirrors limit post s (x.run.run s) r)
    (hnext : ∀ a s', post s'.depth → Ends limit s' ((f a).run.run s') (g (a, s'.tokens))) :
    Ends limit s ((x >>= f).run.run s) (r >>= g) := by
  rw [Outcome.run_bind]
  generalize x.run.run s = run at h
  cases h with
  | @ok a s' hpost hs =>
    obtain ⟨s'', hrun, hs'⟩ := hnext a s' hpost
    exact ⟨s'', hrun, hs.staysWithin hs'⟩
  | @error e s' hs => exact ⟨s', rfl, hs⟩

theorem ending_ends (result : α) (s : Parser K) :
    Ends limit s ((ending result).run.run s) (Reader.ending result s.tokens) := by
  have hrun : (ending result).run.run s = some (Reader.ending result s.tokens, s) := by
    obtain ⟨ts, depth, peak, requests⟩ := s
    cases ts <;> rfl
  exact ⟨s, hrun, .refl limit s⟩

omit [Scalar K] in
theorem run_look (s : Parser K) :
    (look : Run K PUnit).run.run s =
      match s.tokens.look with
      | .ok _ => some (.ok ⟨⟩, { s with requests := s.requests + 1 })
      | .error e => some (.error e, { s with requests := s.requests + 1 }) := by
  show (match s.tokens.look with | .ok _ => _ | .error _ => _ : Run K PUnit).run.run _ = _
  cases s.tokens.look <;> rfl

/-- A line, once its first token has been requested. -/
theorem line_ends (limit : Nat) {fuel : Nat} (hfuel : 32 * s.tokens.length + 16 ≤ fuel)
    (hdepth : s.depth = 0) :
    Ends limit s
      ((do
        let a ← action limit fuel
        let silent ← advanceIf Token.isSemicolon
        ending ⟨a, silent⟩ : Run K (Statement K)).run.run s)
      (do
        let (a, ts) ← Reader.action limit s.tokens
        let (silent, ts) ← ts.advanceIf Token.isSemicolon
        Reader.ending ⟨a, silent⟩ ts) := by
  refine (mirrors_action hfuel hdepth).ends fun a s₁ _ ↦ ?_
  exact (Mirrors.advanceIf _).ends fun silent s₂ _ ↦ ending_ends _ s₂

theorem exists_run_line (limit : Nat) (text : String) {fuel : Nat}
    (hfuel : 32 * ((Tokens.ofText (K := K) text).length + 1) ≤ fuel) :
    ∃ s' : Parser K,
      (line limit fuel).run.run (start text) = some (Statement.ofText limit text, s') ∧
      s'.peak ≤ limit ∧ s'.requests ≤ (Tokens.ofText (K := K) text).length + 1 := by
  have htokens : (start (K := K) text).tokens = Tokens.ofText text := rfl
  rw [line, Outcome.run_bind, run_look, Statement.ofText, htokens]
  cases hlook : (Tokens.ofText (K := K) text).look with
  | error e => exact ⟨_, rfl, Nat.zero_le _, Nat.le_add_left 1 _⟩
  | ok ts =>
    obtain rfl := Tokens.eq_of_look hlook
    let s : Parser K := ⟨Tokens.ofText text, 0, 0, 1⟩
    have hfuel' : 32 * s.tokens.length + 16 ≤ fuel := by
      show 32 * (Tokens.ofText (K := K) text).length + 16 ≤ fuel
      omega
    obtain ⟨s', hrun, hpeak, hrequests⟩ := line_ends limit hfuel' rfl
    refine ⟨s', hrun, hpeak.trans (max_le (Nat.zero_le _) (Nat.le_refl _)), ?_⟩
    rw [Nat.add_comm]
    exact hrequests

end Mirrored

/-! ### Balance -/

/-- **A run that reads an expression is balanced.** From every state whose depth is within the limit it
comes to an end, with fuel for 32 readers for each token that is left and for the end, and gives what a
reader gives that is handed the levels which are left. It sets no depth above the limit and requests no
more tokens than there are. If it succeeds, it is back at the depth at which it was called, and has
taken some tokens, at least one, with one request for each. -/
def Balanced (limit : Nat) (x : (fuel : Nat) → Run K (Expr K))
    (read : (left : Nat) → Tokens K → Except ParseError (Expr K × Tokens K)) : Prop :=
  ∀ s : Parser K, s.depth ≤ limit → ∀ fuel, 32 * (s.tokens.length + 1) ≤ fuel →
    ∃ outcome s', (x fuel).run.run s = some (outcome, s') ∧
      read (limit - s.depth) s.tokens = outcome.map (fun e ↦ (e, s'.tokens)) ∧
      s'.peak ≤ max s.peak limit ∧
      s'.requests ≤ s.requests + s.tokens.length ∧
      ∀ e, outcome = .ok e → s'.depth = s.depth ∧
        ∃ w ≠ [], s.tokens = s'.tokens.prepend w ∧ s'.requests = s.requests + w.length

theorem balanced_of_mirrored [Scalar K] {rank : Nat} (hrank : rank ≤ 32)
    {x : (fuel : Nat) → Run K (Expr K)}
    {read : (left : Nat) → Tokens K → Except ParseError (Expr K × Tokens K)}
    (h : ∀ fuel, MirroredBy limit rank fuel (x fuel) read)
    (hread : ∀ left ts us e, read left ts = .ok (e, us) → ∃ w ≠ [], ts = us.prepend w) :
    Balanced limit x read := by
  intro s hdepth fuel hfuel
  have hrun := h fuel (limit - s.depth) s (by omega) (by omega)
  generalize hr : read (limit - s.depth) s.tokens = r at hrun
  generalize (x fuel).run.run s = run at hrun
  cases hrun with
  | @error e s' hs => exact ⟨.error e, s', rfl, rfl, hs.peak_le, hs.requests_le, nofun⟩
  | @ok e s' hpost hs =>
    obtain ⟨w, hw, htokens⟩ := hread _ _ _ _ hr
    have hlength : s.tokens.length = w.length + s'.tokens.length := by
      rw [htokens, Tokens.length_prepend]
    have hadd := hs.requests_add
    refine ⟨.ok e, s', rfl, rfl, hs.peak_le, by omega, ?_⟩
    exact fun _ _ ↦ ⟨hpost, w, hw, htokens, by omega⟩

/-- **Reading is balanced**, for every reader of expressions and for whole lines. -/
theorem reading_balanced (K : Type) [Scalar K] (limit : Nat) :
    Balanced limit (expression limit) (Reader.expression (K := K) limit) ∧
    (∀ level, Balanced limit (fun fuel ↦ operation limit fuel level)
      (Reader.operation (K := K) limit level)) ∧
    Balanced limit (implicit limit) (Reader.implicit (K := K) limit) ∧
    Balanced limit (unary limit) (Reader.unary (K := K) limit) ∧
    Balanced limit (power limit) (Reader.power (K := K) limit) ∧
    Balanced limit (application limit) (Reader.application (K := K) limit) ∧
    Balanced limit (primary limit) (Reader.primary (K := K) limit) ∧
    ∀ text fuel, 32 * ((Tokens.ofText (K := K) text).length + 1) ≤ fuel →
      ∃ s' : Parser K,
        (line limit fuel).run.run (start text) = some (Statement.ofText limit text, s') ∧
        s'.peak ≤ limit ∧ s'.requests ≤ (Tokens.ofText (K := K) text).length + 1 := by
  refine ⟨?_, fun level ↦ ?_, ?_, ?_, ?_, ?_, ?_, fun text fuel ↦ exists_run_line limit text⟩
  · exact balanced_of_mirrored (by decide) expression_mirrored
      fun _ _ _ _ he ↦ exists_taken (Reader.expression_sound _ _ he)
  · exact balanced_of_mirrored (by cases level <;> decide) (fun fuel ↦ operation_mirrored fuel level)
      fun _ _ _ _ he ↦ exists_taken (operation_parsed he)
  · exact balanced_of_mirrored (by decide) implicit_mirrored
      fun _ _ _ _ he ↦ exists_taken (implicit_parsed he)
  · exact balanced_of_mirrored (by decide) unary_mirrored
      fun _ _ _ _ he ↦ exists_taken (unary_parsed he)
  · exact balanced_of_mirrored (by decide) power_mirrored
      fun _ _ _ _ he ↦ exists_taken (power_parsed he)
  · exact balanced_of_mirrored (by decide) application_mirrored
      fun _ _ _ _ he ↦ exists_taken (application_parsed he)
  · exact balanced_of_mirrored (by decide) primary_mirrored
      fun _ _ _ _ he ↦ exists_taken (primary_parsed he)

/-- In front of `(x))`, one level deep of two, the parentheses take three tokens and the other level,
which is given back. -/
theorem reading_balanced_parenthesized :
    let s : Parser Float :=
      ⟨.more .leftParen (.more (.name "x") (.more .rightParen (.more .rightParen .done))), 1, 1, 1⟩
    s.depth ≤ 2 ∧ ∃ s', (primary 2 160).run.run s = some (.ok (.symbol "x"), s') ∧
      s'.tokens = .more .rightParen .done ∧ s'.depth = 1 ∧ s'.peak ≤ 2 ∧ s'.requests = 4 := by
  intro s
  have hdepth : s.depth ≤ 2 := by decide
  have hprimary : Balanced 2 (primary 2) (Reader.primary (K := Float) 2) :=
    (reading_balanced Float 2).2.2.2.2.2.2.1
  obtain ⟨outcome, s', hrun, hread, hpeak, -, hok⟩ := hprimary s hdepth 160 (by decide)
  have hreader : Reader.primary 2 (2 - s.depth) s.tokens =
      .ok (.symbol "x", .more .rightParen .done) := by
    cbv
  rw [hreader] at hread
  cases outcome with
  | error e => contradiction
  | ok e =>
    obtain ⟨rfl, htokens⟩ := Prod.mk.inj (Except.ok.inj hread)
    obtain ⟨hback, w, -, htaken, hrequests⟩ := hok _ rfl
    have hlength := congrArg Tokens.length htaken
    rw [Tokens.length_prepend, ← htokens] at hlength
    have hw : w.length = 3 := Nat.add_right_cancel hlength.symm
    exact ⟨hdepth, s', hrun, htokens.symm, hback, hpeak, by rw [hrequests, hw]⟩

end Reckoner.Parser
