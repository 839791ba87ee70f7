import Reckoner.Statement.Parser

/-!
# What each reader does

One equivalence for each reader of expressions and lines: it succeeds exactly when the readers that
it calls do, and its result is put together from theirs. Facts about reading are proved from these,
without another look at the definitions. A reader calls the readers below it with the same number of
levels, and itself or a reader above it with one level less; so such facts are inductions on the
levels that are left.
-/

namespace Reckoner.Reader

variable {K : Type}

/-! ### Arguments -/

/-- Every item of a list has been read as one. -/
theorem exists_item_of_separated {α : Type} {item : Tokens K → Except ParseError (α × Tokens K)}
    {ts us : Tokens K} {as : List α} (h : separated item ts = .ok (as, us)) :
    ∀ a ∈ as, ∃ vs ws, item vs = .ok (a, ws) := by
  induction hn : ts.length using Nat.strongRecOn generalizing ts us as with
  | ind n ih =>
    rw [separated] at h
    obtain ⟨⟨first, vs⟩, hfirst, h⟩ := Outcome.bind_eq_ok.1 h
    have hone : ∀ a ∈ [first], ∃ vs ws, item vs = .ok (a, ws) := by
      intro a ha
      obtain rfl := List.mem_singleton.1 ha
      exact ⟨ts, vs, hfirst⟩
    dsimp only at h
    by_cases hcomma : vs.peek = some .comma
    · rw [hcomma] at h
      obtain ⟨ws, -, h⟩ := Outcome.bind_eq_ok.1 h
      by_cases hlt : ws.length < ts.length
      · rw [if_pos hlt] at h
        obtain ⟨⟨more, xs⟩, hmore, h⟩ := Outcome.bind_eq_ok.1 h
        simp only [Except.ok.injEq, Prod.mk.injEq] at h
        obtain ⟨rfl, -⟩ := h
        intro a ha
        rcases List.mem_cons.1 ha with rfl | ha
        · exact ⟨ts, vs, hfirst⟩
        · exact ih ws.length (hn ▸ hlt) hmore rfl a ha
      · simp only [if_neg hlt, Except.ok.injEq, Prod.mk.injEq] at h
        exact h.1 ▸ hone
    · rw [if_neg] at h
      · simp only [Except.ok.injEq, Prod.mk.injEq] at h
        exact h.1 ▸ hone
      · split
        · contradiction
        · simp

/-- Every argument of a call has been read as one. -/
theorem exists_item_of_argumentList {α : Type}
    {item : Tokens K → Except ParseError (α × Tokens K)} {ts us : Tokens K} {as : List α}
    (h : argumentList item ts = .ok (as, us)) : ∀ a ∈ as, ∃ vs ws, item vs = .ok (a, ws) := by
  rw [argumentList] at h
  by_cases hparen : ts.peek = some .rightParen
  · rw [hparen] at h
    simp only [if_true, Except.ok.injEq, Prod.mk.injEq] at h
    simp [← h.1]
  · rw [if_neg] at h
    · exact exists_item_of_separated h
    · split
      · contradiction
      · simp

/-- Arguments are read as long as a comma follows; `item` must not read backwards. -/
theorem separated_eq_ok {α : Type} {item : Tokens K → Except ParseError (α × Tokens K)}
    (hitem : ∀ ⦃ts us a⦄, item ts = .ok (a, us) → us.length ≤ ts.length) {ts us : Tokens K}
    {as : List α} :
    separated item ts = .ok (as, us) ↔
      ∃ first vs, item ts = .ok (first, vs) ∧
        ((vs.peek ≠ some .comma ∧ [first] = as ∧ vs = us) ∨
        ∃ ws more, vs.peek = some .comma ∧ vs.advance = .ok ws ∧
          separated item ws = .ok (more, us) ∧ first :: more = as) := by
  rw [separated, Outcome.bind_eq_ok, Prod.exists]
  refine exists_congr fun first ↦ exists_congr fun vs ↦ and_congr_right fun hfirst ↦ ?_
  dsimp only
  by_cases hcomma : vs.peek = some .comma
  · rw [hcomma]
    simp only [if_true, Outcome.bind_eq_ok]
    have hlt : ∀ ws, vs.advance = .ok ws → ws.length < ts.length := fun ws hws ↦
      Nat.lt_of_lt_of_le (Tokens.length_advance hcomma hws) (hitem hfirst)
    constructor
    · rintro ⟨ws, hws, h⟩
      rw [if_pos (hlt ws hws)] at h
      obtain ⟨⟨more, rest⟩, hmore, h⟩ := Outcome.bind_eq_ok.1 h
      simp only [Except.ok.injEq, Prod.mk.injEq] at h
      obtain ⟨rfl, rfl⟩ := h
      exact .inr ⟨ws, more, trivial, hws, hmore, rfl⟩
    · rintro (⟨hne, -⟩ | ⟨ws, more, -, hws, hmore, rfl⟩)
      · exact absurd rfl hne
      · refine ⟨ws, hws, ?_⟩
        rw [if_pos (hlt ws hws)]
        exact Outcome.bind_eq_ok.2 ⟨_, hmore, rfl⟩
  · rw [if_neg]
    · simp [hcomma]
    · split
      · contradiction
      · simp

theorem argumentList_eq_ok {α : Type} {item : Tokens K → Except ParseError (α × Tokens K)}
    {ts us : Tokens K} {as : List α} :
    argumentList item ts = .ok (as, us) ↔
      (ts.peek = some .rightParen ∧ [] = as ∧ ts = us) ∨
      (ts.peek ≠ some .rightParen ∧ separated item ts = .ok (as, us)) := by
  rw [argumentList]
  by_cases hparen : ts.peek = some .rightParen
  · rw [hparen]
    simp
  · rw [if_neg]
    · simp [hparen]
    · split
      · contradiction
      · simp

/-! ### Targets of conversions -/

section Target

variable [Scalar K] {ts us : Tokens K}

theorem closing_eq_ok :
    closing ts = .ok us ↔ ts.peek = some .rightParen ∧ ts.advance = .ok us := by
  rw [closing]
  by_cases hparen : ts.peek = some .rightParen
  · rw [hparen]
    simp
  · rw [if_neg]
    · simp [hparen]
    · split
      · contradiction
      · simp

/-- An exponent is a whole number within the limit, after an optional minus. -/
theorem unitExponent_eq_ok {n : Int} :
    unitExponent ts = .ok (n, us) ↔
      ∃ negative vs value m, ts.advanceIf Token.isMinus = .ok (negative, vs) ∧
        vs.peek = some (.number value) ∧ Scalar.integer? value = some m ∧ m ≤ maxUnitExponent ∧
        vs.advance = .ok us ∧ (if negative then -m else m) = n := by
  rw [unitExponent, Outcome.bind_eq_ok, Prod.exists]
  refine exists_congr fun negative ↦ exists_congr fun vs ↦ ?_
  dsimp only
  split
  · rename_i value hvalue
    split
    · rename_i m hm
      obtain ⟨hinteger, hle⟩ := Option.filter_eq_some_iff.1 hm
      simp only [Outcome.bind_eq_ok, hvalue]
      grind
    · rename_i hnone
      have hnone := Option.filter_eq_none_iff.1 hnone
      simp only [reduceCtorEq, and_false, false_iff]
      rintro ⟨value', m, -, hvalue', hinteger, hle, -⟩
      obtain rfl : value = value' := by simpa [hvalue] using hvalue'
      exact hnone m hinteger (decide_eq_true hle)
  · rename_i hvalue
    simp only [reduceCtorEq, and_false, false_iff]
    rintro ⟨value, m, -, hvalue', -⟩
    exact hvalue value hvalue'

/-- A factor is a name, whose exponent is one unless a power sign follows. -/
theorem unitFactor_eq_ok {divided : Bool} {u : UnitPower} :
    unitFactor divided ts = .ok (u, us) ↔
      ∃ name vs power, ts.peek = some (.name name) ∧ ts.advance = .ok vs ∧
        ((vs.peek.any Token.isPower = false ∧ 1 = power ∧ vs = us) ∨
        ∃ ws, vs.peek.any Token.isPower = true ∧ vs.advance = .ok ws ∧
          unitExponent ws = .ok (power, us)) ∧
        ⟨name, if divided then -power else power⟩ = u := by
  rw [unitFactor]
  split
  · rename_i name hname
    simp only [Outcome.bind_eq_ok, Prod.exists, optionalExponent, hname]
    constructor
    · rintro ⟨vs, hvs, power, ws, hpower, h⟩
      simp only [Except.ok.injEq, Prod.mk.injEq] at h
      obtain ⟨rfl, rfl⟩ := h
      refine ⟨name, vs, power, rfl, hvs, ?_, rfl⟩
      cases hany : vs.peek.any Token.isPower with
      | false =>
        rw [hany, if_neg Bool.false_ne_true, Except.ok.injEq, Prod.mk.injEq] at hpower
        exact .inl ⟨rfl, hpower⟩
      | true =>
        rw [hany, if_pos rfl] at hpower
        obtain ⟨xs, hxs, hpower⟩ := Outcome.bind_eq_ok.1 hpower
        exact .inr ⟨xs, rfl, hxs, hpower⟩
    · rintro ⟨name', vs, power, hname', hvs, hpower, rfl⟩
      obtain rfl : name = name' := by simpa using hname'
      refine ⟨vs, hvs, power, us, ?_, rfl⟩
      rcases hpower with ⟨hany, rfl, rfl⟩ | ⟨xs, hany, hxs, hpower⟩
      · rw [hany, if_neg Bool.false_ne_true]
      · rw [hany, if_pos rfl]
        exact Outcome.bind_eq_ok.2 ⟨xs, hxs, hpower⟩
  · rename_i hname
    simp only [reduceCtorEq, false_iff]
    rintro ⟨name, vs, power, hname', -⟩
    exact hname name hname'

/-- Factors of a target are read as long as a sign follows that joins them. -/
theorem unitTarget_eq_ok {divided : Bool} {target : List UnitPower} :
    unitTarget divided ts = .ok (target, us) ↔
      ∃ u vs, unitFactor divided ts = .ok (u, vs) ∧
        ((vs.peek.bind Token.joinsFactors? = none ∧ [u] = target ∧ vs = us) ∨
        ∃ next ws more, vs.peek.bind Token.joinsFactors? = some next ∧ vs.advance = .ok ws ∧
          unitTarget next ws = .ok (more, us) ∧ u :: more = target) := by
  rw [unitTarget]
  split
  · rename_i e hfactor
    simp [hfactor]
  · rename_i u vs hfactor
    simp only [hfactor, Except.ok.injEq, Prod.mk.injEq]
    split
    · rename_i hjoins
      simp only [Except.ok.injEq, Prod.mk.injEq]
      grind
    · rename_i next hjoins
      split
      · rename_i e hadvance
        simp only [reduceCtorEq, false_iff]
        rintro ⟨u', vs', ⟨rfl, rfl⟩, ⟨hnone, -⟩ | ⟨next', ws, more, -, hws, -⟩⟩
        · rw [hjoins] at hnone
          contradiction
        · rw [hadvance] at hws
          contradiction
      · rename_i ws hadvance
        simp only [Outcome.map_eq_ok, Prod.exists, Prod.mk.injEq]
        grind

end Target

/-! ### Expressions -/

variable [Scalar K] {limit left : Nat} {ts us : Tokens K} {e : Expr K}

theorem expression_eq_ok :
    expression limit left ts = .ok (e, us) ↔
      ∃ l value vs, left = l + 1 ∧ operation limit .comparison l ts = .ok (value, vs) ∧
        conversions limit l value vs = .ok (e, us) := by
  cases left with
  | zero => simp [expression]
  | succ l => simp [expression, Outcome.bind_eq_ok]

/-- Conversions are read as long as the word for them follows. -/
theorem conversions_eq_ok {value : Expr K} :
    conversions limit left value ts = .ok (e, us) ↔
      (ts.peek ≠ some .into ∧ value = e ∧ ts = us) ∨
      ∃ l vs target ws, left = l + 1 ∧ ts.peek = some .into ∧ ts.advance = .ok vs ∧
        unitTarget false vs = .ok (target, ws) ∧
        conversions limit l (.convert value target) ws = .ok (e, us) := by
  rw [conversions.eq_def]
  by_cases h : ts.peek = some .into
  · rw [h]
    cases left with
    | zero => simp
    | succ l => simp [Outcome.bind_eq_ok]
  · rw [if_neg]
    · simp [h]
    · split
      · contradiction
      · simp

theorem operation_eq_ok {level : Level} :
    operation limit level left ts = .ok (e, us) ↔
      ∃ first vs, operand limit level left ts = .ok (first, vs) ∧
        operations limit level left first vs = .ok (e, us) := by
  rw [operation, Outcome.bind_eq_ok, Prod.exists]

/-- Operations of a level are read as long as one of its operators follows. -/
theorem operations_eq_ok {level : Level} {first : Expr K} :
    operations limit level left first ts = .ok (e, us) ↔
      (ts.peek.bind level.operator? = none ∧ first = e ∧ ts = us) ∨
      ∃ l op vs second ws, left = l + 1 ∧ ts.peek.bind level.operator? = some op ∧
        ts.advance = .ok vs ∧ operand limit level l vs = .ok (second, ws) ∧
        operations limit level l (.binary op first second) ws = .ok (e, us) := by
  rw [operations.eq_def]
  cases h : ts.peek.bind level.operator? with
  | none => simp
  | some op =>
    cases left with
    | zero => simp
    | succ l => simp [Outcome.bind_eq_ok]

theorem implicit_eq_ok :
    implicit limit left ts = .ok (e, us) ↔
      ∃ first vs, unary limit left ts = .ok (first, vs) ∧
        factors limit left first vs = .ok (e, us) := by
  rw [implicit, Outcome.bind_eq_ok, Prod.exists]

/-- Factors are read as long as a token follows that starts one. -/
theorem factors_eq_ok {first : Expr K} :
    factors limit left first ts = .ok (e, us) ↔
      (ts.peek.any Token.startsFactor = false ∧ first = e ∧ ts = us) ∨
      ∃ l second vs, left = l + 1 ∧ ts.peek.any Token.startsFactor = true ∧
        power limit l ts = .ok (second, vs) ∧
        factors limit l (.binary .multiply first second) vs = .ok (e, us) := by
  rw [factors.eq_def]
  cases h : ts.peek.any Token.startsFactor with
  | false => simp
  | true =>
    cases left with
    | zero => simp
    | succ l => simp [Outcome.bind_eq_ok]

theorem unary_eq_ok :
    unary limit left ts = .ok (e, us) ↔
      (ts.peek.bind Token.sign? = none ∧ power limit left ts = .ok (e, us)) ∨
      ∃ l sign vs operand, left = l + 1 ∧ ts.peek.bind Token.sign? = some sign ∧
        ts.advance = .ok vs ∧ unary limit l vs = .ok (operand, us) ∧ .signed sign operand = e := by
  rw [unary.eq_def]
  cases h : ts.peek.bind Token.sign? with
  | none => simp
  | some sign =>
    cases left with
    | zero => simp
    | succ l => simp [Outcome.bind_eq_ok]

theorem power_eq_ok :
    power limit left ts = .ok (e, us) ↔
      ∃ base vs, application limit left ts = .ok (base, vs) ∧
        ((vs.peek.any Token.isPower = false ∧ base = e ∧ vs = us) ∨
        ∃ l ws exponent, left = l + 1 ∧ vs.peek.any Token.isPower = true ∧ vs.advance = .ok ws ∧
          unary limit l ws = .ok (exponent, us) ∧ .binary .power base exponent = e) := by
  rw [power, Outcome.bind_eq_ok, Prod.exists]
  refine exists_congr fun base ↦ exists_congr fun vs ↦ and_congr_right fun _ ↦ ?_
  dsimp only
  cases h : vs.peek.any Token.isPower with
  | false => simp
  | true =>
    cases left with
    | zero => simp
    | succ l => simp [Outcome.bind_eq_ok]

theorem application_eq_ok :
    application limit left ts = .ok (e, us) ↔
      ∃ callee vs, primary limit left ts = .ok (callee, vs) ∧
        calls limit left callee vs = .ok (e, us) := by
  rw [application, Outcome.bind_eq_ok, Prod.exists]

/-- Argument lists are read as long as a parenthesis follows something that can be called. -/
theorem calls_eq_ok {callee : Expr K} :
    calls limit left callee ts = .ok (e, us) ↔
      (¬(callee.isCallable = true ∧ ts.peek = some .leftParen) ∧ callee = e ∧ ts = us) ∨
      ∃ l vs args ws xs, left = l + 1 ∧ callee.isCallable = true ∧ ts.peek = some .leftParen ∧
        ts.advance = .ok vs ∧ argumentList (expression limit l) vs = .ok (args, ws) ∧
        closing ws = .ok xs ∧ calls limit l (.call callee args) xs = .ok (e, us) := by
  rw [calls.eq_def]
  by_cases h : ts.peek = some .leftParen
  · rw [h]
    cases hc : callee.isCallable with
    | false => simp
    | true =>
      cases left with
      | zero => simp
      | succ l => simp [Outcome.bind_eq_ok]
  · rw [if_neg]
    · simp [h]
    · split
      · contradiction
      · simp

theorem primary_eq_ok :
    primary limit left ts = .ok (e, us) ↔
      (∃ value, ts.peek = some (.number value) ∧ ts.advance = .ok us ∧ .number value = e) ∨
      (∃ name, ts.peek = some (.name name) ∧ ts.advance = .ok us ∧ .symbol name = e) ∨
      ∃ vs ws, ts.peek = some .leftParen ∧ ts.advance = .ok vs ∧
        expression limit left vs = .ok (e, ws) ∧ closing ws = .ok us := by
  rw [primary]
  split
  · rename_i value h
    simp only [h, Outcome.bind_eq_ok]
    grind
  · rename_i name h
    simp only [h, Outcome.bind_eq_ok]
    grind
  · rename_i h
    simp only [h, Outcome.bind_eq_ok]
    grind
  · rename_i hnumber hname hparen
    simp only [reduceCtorEq, false_iff]
    rintro (⟨value, h, -⟩ | ⟨name, h, -⟩ | ⟨vs, ws, h, -⟩)
    · exact hnumber value h
    · exact hname name h
    · exact hparen h

/-! ### Lines -/

/-- A line is empty, or an expression, which may be the left side of an equation. -/
theorem action_eq_ok {a : Action K} :
    action limit ts = .ok (a, us) ↔
      ((ts.peek = none ∨ ts.peek = some .semicolon) ∧ .empty = a ∧ ts = us) ∨
      (¬(ts.peek = none ∨ ts.peek = some .semicolon) ∧
        ∃ first vs, expression limit limit ts = .ok (first, vs) ∧
          ((vs.peek ≠ some .assign ∧ .expression first = a ∧ vs = us) ∨
          ∃ ws value, vs.peek = some .assign ∧ vs.advance = .ok ws ∧
            expression limit limit ws = .ok (value, us) ∧
            Action.ofEquation? first value = .ok a)) := by
  rw [action]
  split
  · rename_i h
    simp [h]
  · rename_i h
    simp [h]
  · rename_i hnone hsemicolon
    have hne : ¬(ts.peek = none ∨ ts.peek = some .semicolon) := by
      rintro (h | h)
      · exact hnone h
      · exact hsemicolon h
    rw [Outcome.bind_eq_ok, Prod.exists]
    simp only [hne, false_and, false_or, not_false_eq_true, true_and]
    refine exists_congr fun first ↦ exists_congr fun vs ↦ and_congr_right fun _ ↦ ?_
    by_cases h : vs.peek = some .assign
    · rw [h]
      simp only [if_true, Outcome.bind_eq_ok, Prod.exists]
      grind
    · rw [if_neg]
      · simp [h]
      · split
        · contradiction
        · simp

end Reckoner.Reader

namespace Reckoner.Statement

variable {K : Type} [Scalar K]

/-- A line is read as a statement if all of it is read. -/
theorem ofText_eq_ok {limit : Nat} {text : String} {s : Statement K} :
    ofText limit text = .ok s ↔
      ∃ ts us vs, (Tokens.ofText text).look = .ok ts ∧
        Reader.action limit ts = .ok (s.action, us) ∧
        us.advanceIf Token.isSemicolon = .ok (s.silent, vs) ∧ vs.peek = none := by
  simp only [ofText, Outcome.bind_eq_ok, Prod.exists]
  constructor
  · rintro ⟨ts, hts, a, us, ha, silent, vs, hvs, h⟩
    rw [Reader.ending] at h
    split at h
    · rename_i hnone
      obtain rfl := Except.ok.inj h
      exact ⟨ts, us, vs, hts, ha, hvs, hnone⟩
    · contradiction
  · rintro ⟨ts, us, vs, hts, ha, hvs, hnone⟩
    exact ⟨ts, hts, s.action, us, ha, s.silent, vs, hvs, by rw [Reader.ending, hnone]⟩

end Reckoner.Statement

namespace Reckoner.Expr

variable {K : Type} [Scalar K]

/-- A text is read as an expression if all of it is read. -/
theorem ofText_eq_ok {limit : Nat} {text : String} {e : Expr K} :
    ofText limit text = .ok e ↔
      ∃ ts us, (Tokens.ofText text).look = .ok ts ∧
        Reader.expression limit limit ts = .ok (e, us) ∧ us.peek = none := by
  simp only [ofText, Outcome.bind_eq_ok, Prod.exists]
  constructor
  · rintro ⟨ts, hts, value, us, hvalue, h⟩
    rw [Reader.ending] at h
    split at h
    · rename_i hnone
      obtain rfl := Except.ok.inj h
      exact ⟨ts, us, hts, hvalue, hnone⟩
    · contradiction
  · rintro ⟨ts, us, hts, he, hnone⟩
    exact ⟨ts, hts, e, us, he, by rw [Reader.ending, hnone]⟩

end Reckoner.Expr
