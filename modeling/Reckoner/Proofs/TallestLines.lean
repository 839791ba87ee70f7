import Mathlib.Data.List.Basic
import Reckoner.Proofs.NestingDepth

/-!
# Lines as high as they get

For every limit there is a line with an expression of height `Reader.maxHeight`: an expression with
one level less in parentheses, raised to a power, and then each of the five chains with as many
operators as there are levels. So `maxHeight` is not an estimate, and the limit itself bounds the
height only if it is zero or one.

The line is put together from tokens, and written with a blank in front of each. What a reader takes
of the tokens depends on the one after them: `binding` says how tightly a token holds on to an
expression in front of it, and a reader stops in front of a token that binds more loosely than what
it reads.
-/

namespace Reckoner

variable {K : Type}

/-! ### Tokens as lists -/

/-- Tokens up to the end of a line. -/
def Tokens.ofList : List (Token K) → Tokens K
  | [] => .done
  | t :: ts => .more t (ofList ts)

namespace Tokens

@[simp] theorem peek_ofList (ts : List (Token K)) : (ofList ts).peek = ts.head? := by
  cases ts <;> rfl

@[simp] theorem look_ofList (ts : List (Token K)) : (ofList ts).look = .ok (ofList ts) := by
  cases ts <;> rfl

@[simp] theorem advance_ofList (t : Token K) (ts : List (Token K)) :
    (ofList (t :: ts)).advance = .ok (ofList ts) :=
  look_ofList ts

end Tokens

/-- How tightly a token holds on to an expression that stands in front of it. -/
def Token.binding : Token K → Nat
  | leftParen => 7
  | stars | caret => 6
  | number _ | name _ => 5
  | times | divide | modulo => 4
  | plus | minus => 3
  | less | lessEqual | greater | greaterEqual | equal | notEqual => 2
  | into => 1
  | assign | rightParen | comma | semicolon => 0

/-- How tightly the operators of a level bind. -/
def Level.binding : Level → Nat
  | product => 4
  | sum => 3
  | comparison => 2

/-- One of the operators of a level. -/
def Level.sign : Level → Token K
  | product => .times
  | sum => .plus
  | comparison => .less

namespace Token

variable {t : Token K}

theorem binding_of_isPower (h : t.isPower = true) : t.binding = 6 := by
  cases t <;> simp [isPower, binding] at h ⊢

theorem le_binding_of_startsFactor (h : t.startsFactor = true) : 5 ≤ t.binding := by
  cases t <;> simp [startsFactor, binding] at h ⊢

theorem binding_of_operator? {level : Level} {op : Operator} (h : level.operator? t = some op) :
    t.binding = level.binding := by
  cases level <;> cases t <;> simp [Level.operator?, binding, Level.binding] at h ⊢

theorem binding_of_joinsFactors? {divided : Bool} (h : t.joinsFactors? = some divided) :
    t.binding = 4 := by
  cases t <;> simp [joinsFactors?, binding] at h ⊢

end Token

namespace Expr

theorem height_pos (e : Expr K) : 0 < e.height := by
  cases e <;> rw [height] <;> omega

theorem height_binary_symbol (e : Expr K) (op : Operator) (name : String) :
    (binary op e (symbol name)).height = e.height + 1 := by
  have := e.height_pos
  rw [height, height]
  omega

end Expr

namespace Reader

/-! ### What stops a reader -/

/-- How tightly the first of some tokens binds; the end of a line does not bind. -/
def headBinding (us : List (Token K)) : Nat := us.head?.elim 0 Token.binding

theorem headBinding_of_head? {us : List (Token K)} {t : Token K} (h : us.head? = some t) :
    headBinding us = t.binding := by
  rw [headBinding, h]
  rfl

theorem head?_ne_leftParen {us : List (Token K)} (h : headBinding us ≤ 6) :
    us.head? ≠ some .leftParen := by
  intro hparen
  have hhead : headBinding us = 7 := headBinding_of_head? hparen
  omega

theorem isPower_eq_false {us : List (Token K)} (h : headBinding us ≤ 5) :
    us.head?.any Token.isPower = false := by
  refine (Option.any_eq_false _ _).2 fun t ht ↦ Bool.eq_false_iff.2 fun hpower ↦ ?_
  rw [headBinding_of_head? ht, Token.binding_of_isPower hpower] at h
  omega

theorem startsFactor_eq_false {us : List (Token K)} (h : headBinding us ≤ 4) :
    us.head?.any Token.startsFactor = false := by
  refine (Option.any_eq_false _ _).2 fun t ht ↦ Bool.eq_false_iff.2 fun hstarts ↦ ?_
  have hle := Token.le_binding_of_startsFactor hstarts
  rw [headBinding_of_head? ht] at h
  omega

theorem operator?_eq_none {level : Level} {us : List (Token K)}
    (h : headBinding us < level.binding) : us.head?.bind level.operator? = none := by
  refine Option.bind_eq_none_iff.2 fun t ht ↦ Option.eq_none_iff_forall_ne_some.2 fun op hop ↦ ?_
  rw [headBinding_of_head? ht, Token.binding_of_operator? hop] at h
  omega

theorem joinsFactors?_eq_none {us : List (Token K)} (h : headBinding us ≤ 3) :
    us.head?.bind Token.joinsFactors? = none := by
  refine Option.bind_eq_none_iff.2 fun t ht ↦ Option.eq_none_iff_forall_ne_some.2 fun d hd ↦ ?_
  rw [headBinding_of_head? ht, Token.binding_of_joinsFactors? hd] at h
  omega

theorem head?_ne_into {us : List (Token K)} (h : headBinding us < 1) :
    us.head? ≠ some .into := by
  intro hinto
  have hhead : headBinding us = 1 := headBinding_of_head? hinto
  omega

/-! ### Chains -/

/-- So many times the same tokens. -/
def chain (piece : List (Token K)) (n : Nat) : List (Token K) := (List.replicate n piece).flatten

theorem chain_succ (piece : List (Token K)) (n : Nat) :
    chain piece (n + 1) = piece ++ chain piece n := by
  rw [chain, List.replicate_succ, List.flatten_cons, chain]

theorem mem_of_mem_chain {piece : List (Token K)} {n : Nat} {t : Token K} (h : t ∈ chain piece n) :
    t ∈ piece := by
  obtain ⟨l, hl, ht⟩ := List.mem_flatten.1 h
  rwa [List.eq_of_mem_replicate hl] at ht

theorem headBinding_chain_le {piece us : List (Token K)} {n b : Nat}
    (hpiece : ∀ vs, headBinding (piece ++ vs) ≤ b) (hus : headBinding us ≤ b) :
    headBinding (chain piece n ++ us) ≤ b := by
  cases n with
  | zero => exact hus
  | succ n =>
    rw [chain_succ, List.append_assoc]
    exact hpiece _

/-- A loop that takes one piece for each level puts a node on top of its first operand for each. -/
theorem exists_chain_eq (loop : Nat → Expr K → Tokens K → Except ParseError (Expr K × Tokens K))
    (next : Expr K → Expr K) {piece : List (Token K)} {b : Nat}
    (hpiece : ∀ us, headBinding (piece ++ us) ≤ b)
    (hheight : ∀ e, (next e).height = e.height + 1)
    (hstop : ∀ left e us, headBinding us < b →
      loop left e (.ofList us) = .ok (e, .ofList us))
    (hstep : ∀ left e us r, headBinding us ≤ b → loop left (next e) (.ofList us) = .ok r →
      loop (left + 1) e (.ofList (piece ++ us)) = .ok r)
    (left : Nat) (first : Expr K) {us : List (Token K)} (hus : headBinding us < b) :
    ∃ e, loop left first (.ofList (chain piece left ++ us)) = .ok (e, .ofList us) ∧
      e.height = first.height + left := by
  -- Another piece may follow, or what stops the loop; both bind as loosely as a step needs.
  induction left generalizing first with
  | zero => exact ⟨first, hstop 0 first us hus, rfl⟩
  | succ left ih =>
    obtain ⟨e, he, hle⟩ := ih (next first)
    refine ⟨e, ?_, ?_⟩
    · rw [chain_succ, List.append_assoc]
      exact hstep left first _ _ (headBinding_chain_le hpiece hus.le) he
    · rw [hle, hheight]
      omega

/-! ### Readers that stop -/

/-- A short name. -/
def shortName : Token K := .name "a"

variable [Scalar K] {limit left : Nat}

theorem calls_stop (e : Expr K) {us : List (Token K)} (h : headBinding us ≤ 6) :
    calls limit left e (.ofList us) = .ok (e, .ofList us) := by
  refine calls_eq_ok.2 (.inl ⟨fun hcall ↦ ?_, rfl, rfl⟩)
  rw [Tokens.peek_ofList] at hcall
  exact head?_ne_leftParen h hcall.2

theorem factors_stop (e : Expr K) {us : List (Token K)} (h : headBinding us ≤ 4) :
    factors limit left e (.ofList us) = .ok (e, .ofList us) := by
  refine factors_eq_ok.2 (.inl ⟨?_, rfl, rfl⟩)
  rw [Tokens.peek_ofList]
  exact startsFactor_eq_false h

theorem operations_stop {level : Level} (e : Expr K) {us : List (Token K)}
    (h : headBinding us < level.binding) :
    operations limit level left e (.ofList us) = .ok (e, .ofList us) := by
  refine operations_eq_ok.2 (.inl ⟨?_, rfl, rfl⟩)
  rw [Tokens.peek_ofList]
  exact operator?_eq_none h

theorem conversions_stop (e : Expr K) {us : List (Token K)} (h : headBinding us < 1) :
    conversions limit left e (.ofList us) = .ok (e, .ofList us) := by
  refine conversions_eq_ok.2 (.inl ⟨?_, rfl, rfl⟩)
  rw [Tokens.peek_ofList]
  exact head?_ne_into h

theorem primary_shortName (us : List (Token K)) :
    primary limit left (.ofList (shortName :: us)) = .ok (.symbol "a", .ofList us) :=
  primary_eq_ok.2 (.inr (.inl ⟨"a", rfl, Tokens.advance_ofList _ us, rfl⟩))

theorem power_shortName {us : List (Token K)} (h : headBinding us ≤ 5) :
    power limit left (.ofList (shortName :: us)) = .ok (.symbol "a", .ofList us) := by
  have happlication : application limit left (.ofList (shortName :: us)) =
      .ok (.symbol "a", .ofList us) :=
    application_eq_ok.2 ⟨_, _, primary_shortName us, calls_stop _ (by omega)⟩
  refine power_eq_ok.2 ⟨_, _, happlication, .inl ⟨?_, rfl, rfl⟩⟩
  rw [Tokens.peek_ofList]
  exact isPower_eq_false h

theorem unary_shortName {us : List (Token K)} (h : headBinding us ≤ 5) :
    unary limit left (.ofList (shortName :: us)) = .ok (.symbol "a", .ofList us) :=
  unary_eq_ok.2 (.inl ⟨rfl, power_shortName h⟩)

theorem operand_shortName (level : Level) {us : List (Token K)}
    (h : headBinding us ≤ level.binding) :
    operand limit level left (.ofList (shortName :: us)) = .ok (.symbol "a", .ofList us) := by
  have hproduct (h : headBinding us ≤ 4) :
      operand limit .product left (.ofList (shortName :: us)) = .ok (.symbol "a", .ofList us) := by
    rw [operand]
    exact implicit_eq_ok.2 ⟨_, _, unary_shortName (by omega), factors_stop _ h⟩
  have hsum (h : headBinding us ≤ 3) :
      operand limit .sum left (.ofList (shortName :: us)) = .ok (.symbol "a", .ofList us) := by
    rw [operand]
    exact operation_eq_ok.2 ⟨_, _, hproduct (by omega), operations_stop _ (Nat.lt_succ_of_le h)⟩
  cases level with
  | product => exact hproduct h
  | sum => exact hsum h
  | comparison =>
    rw [operand]
    exact operation_eq_ok.2
      ⟨_, _, hsum (Nat.le_succ_of_le h), operations_stop _ (Nat.lt_succ_of_le h)⟩

/-! ### Chains as long as there are levels -/

theorem exists_factors_eq (limit left : Nat) (first : Expr K) {us : List (Token K)}
    (hus : headBinding us < 5) :
    ∃ e, factors limit left first (.ofList (chain [shortName] left ++ us)) = .ok (e, .ofList us) ∧
      e.height = first.height + left := by
  refine exists_chain_eq (factors limit) (fun e ↦ .binary .multiply e (.symbol "a"))
    (fun _ ↦ Nat.le_refl 5) (fun e ↦ e.height_binary_symbol .multiply "a")
    (fun _ e us h ↦ factors_stop e (Nat.le_of_lt_succ h)) (fun l e us r h hr ↦ ?_) left first hus
  exact factors_eq_ok.2 (.inr ⟨l, _, _, rfl, rfl, power_shortName h, hr⟩)

theorem exists_operations_eq (limit left : Nat) (level : Level) (first : Expr K)
    {us : List (Token K)} (hus : headBinding us < level.binding) :
    ∃ e, operations limit level left first (.ofList (chain [level.sign, shortName] left ++ us)) =
        .ok (e, .ofList us) ∧
      e.height = first.height + left := by
  obtain ⟨op, hop⟩ : ∃ op, level.operator? (level.sign : Token K) = some op := by
    cases level <;> exact ⟨_, rfl⟩
  have hsign : (level.sign : Token K).binding = level.binding := by cases level <;> rfl
  refine exists_chain_eq (operations limit level) (fun e ↦ .binary op e (.symbol "a"))
    (fun _ ↦ hsign.le) (fun e ↦ e.height_binary_symbol op "a") (fun _ e us h ↦ operations_stop e h)
    (fun l e us r h hr ↦ ?_) left first hus
  exact operations_eq_ok.2
    (.inr ⟨l, op, _, _, _, rfl, hop, Tokens.advance_ofList _ _, operand_shortName level h, hr⟩)

theorem unitTarget_shortName {us : List (Token K)} (h : headBinding us ≤ 1) :
    unitTarget false (.ofList (shortName :: us)) = .ok ([⟨"a", 1⟩], .ofList us) := by
  have hexponent : optionalExponent (.ofList us) = .ok (1, .ofList us) := by
    rw [optionalExponent, Tokens.peek_ofList, isPower_eq_false (by omega)]
    rfl
  have hfactor : unitFactor false (.ofList (shortName :: us)) = .ok (⟨"a", 1⟩, .ofList us) := by
    rw [unitFactor, Tokens.peek_ofList]
    exact Outcome.bind_eq_ok.2
      ⟨_, Tokens.advance_ofList _ _, Outcome.bind_eq_ok.2 ⟨_, hexponent, rfl⟩⟩
  rw [unitTarget]
  split
  · rename_i he
    rw [hfactor] at he
    contradiction
  · rename_i u vs hu
    rw [hfactor, Except.ok.injEq, Prod.mk.injEq] at hu
    obtain ⟨rfl, rfl⟩ := hu
    split
    · rfl
    · rename_i hjoins
      rw [Tokens.peek_ofList, joinsFactors?_eq_none (by omega)] at hjoins
      contradiction

theorem exists_conversions_eq (limit left : Nat) (first : Expr K) {us : List (Token K)}
    (hus : headBinding us < 1) :
    ∃ e, conversions limit left first (.ofList (chain [.into, shortName] left ++ us)) =
        .ok (e, .ofList us) ∧
      e.height = first.height + left := by
  refine exists_chain_eq (conversions limit) (fun e ↦ .convert e [⟨"a", 1⟩]) (fun _ ↦ Nat.le_refl 1)
    (fun e ↦ by rw [Expr.height]) (fun _ e us h ↦ conversions_stop e h)
    (fun l e us r h hr ↦ ?_) left first hus
  exact conversions_eq_ok.2
    (.inr ⟨l, _, _, _, rfl, rfl, Tokens.advance_ofList _ _, unitTarget_shortName h, hr⟩)

/-- Every chain with as many operators as there are levels, from the tightest to the loosest. -/
def chains (n : Nat) : List (Token K) :=
  chain [shortName] n ++ (chain [Level.product.sign, shortName] n ++
    (chain [Level.sum.sign, shortName] n ++ (chain [Level.comparison.sign, shortName] n ++
      chain [.into, shortName] n)))

omit [Scalar K] in
theorem headBinding_chains_le {n : Nat} {us : List (Token K)} (hus : headBinding us = 0) :
    headBinding (chains n ++ us) ≤ 5 := by
  simp only [chains, List.append_assoc]
  refine headBinding_chain_le (fun _ ↦ Nat.le_refl 5) ?_
  refine headBinding_chain_le (fun _ ↦ show 4 ≤ 5 by omega) ?_
  refine headBinding_chain_le (fun _ ↦ show 3 ≤ 5 by omega) ?_
  refine headBinding_chain_le (fun _ ↦ show 2 ≤ 5 by omega) ?_
  exact headBinding_chain_le (fun _ ↦ show 1 ≤ 5 by omega) (by omega)

/-- All chains together put five nodes for each level on top of a power. -/
theorem exists_expression_eq {ts : Tokens K} {base : Expr K} {us : List (Token K)}
    (hsign : ts.peek.bind Token.sign? = none)
    (hpower : power limit left ts = .ok (base, .ofList (chains left ++ us)))
    (hus : headBinding us = 0) :
    ∃ e, expression limit (left + 1) ts = .ok (e, .ofList us) ∧
      e.height = base.height + 5 * left := by
  -- What is left to read in front of each chain, from the last one backwards.
  let conversion := chain [.into, shortName] left ++ us
  let comparison := chain [Level.comparison.sign, shortName] left ++ conversion
  let sum := chain [Level.sum.sign, shortName] left ++ comparison
  let product := chain [Level.product.sign, shortName] left ++ sum
  have hconversion : headBinding conversion ≤ 1 :=
    headBinding_chain_le (fun _ ↦ Nat.le_refl 1) (by omega)
  have hcomparison : headBinding comparison ≤ 2 :=
    headBinding_chain_le (fun _ ↦ Nat.le_refl 2) (by omega)
  have hsum : headBinding sum ≤ 3 := headBinding_chain_le (fun _ ↦ Nat.le_refl 3) (by omega)
  have hproduct : headBinding product ≤ 4 := headBinding_chain_le (fun _ ↦ Nat.le_refl 4) (by omega)
  have hchains : chains left ++ us = chain [shortName] left ++ product := by
    simp only [chains, List.append_assoc, product, sum, comparison, conversion]
  rw [hchains] at hpower
  obtain ⟨e₁, h₁, hh₁⟩ := exists_factors_eq limit left base (Nat.lt_succ_of_le hproduct)
  obtain ⟨e₂, h₂, hh₂⟩ := exists_operations_eq limit left .product e₁
    (Nat.lt_succ_of_le hsum)
  obtain ⟨e₃, h₃, hh₃⟩ := exists_operations_eq limit left .sum e₂
    (Nat.lt_succ_of_le hcomparison)
  obtain ⟨e₄, h₄, hh₄⟩ := exists_operations_eq limit left .comparison e₃
    (Nat.lt_succ_of_le hconversion)
  obtain ⟨e₅, h₅, hh₅⟩ := exists_conversions_eq limit left e₄
    (show headBinding us < 1 by omega)
  have himplicit := implicit_eq_ok.2 ⟨_, _, unary_eq_ok.2 (.inl ⟨hsign, hpower⟩), h₁⟩
  have hproducts := operation_eq_ok.2 ⟨_, _, (by rw [operand]; exact himplicit), h₂⟩
  have hsums := operation_eq_ok.2 ⟨_, _, (by rw [operand]; exact hproducts), h₃⟩
  have hcomparisons := operation_eq_ok.2 ⟨_, _, (by rw [operand]; exact hsums), h₄⟩
  exact ⟨e₅, expression_eq_ok.2 ⟨left, _, _, rfl, hcomparisons, h₅⟩, by omega⟩

/-! ### The tallest expression -/

theorem closing_rightParen (us : List (Token K)) :
    closing (.ofList (.rightParen :: us)) = .ok (.ofList us) :=
  Tokens.advance_ofList .rightParen us

theorem application_noArguments {us : List (Token K)} (h : headBinding us ≤ 6) :
    application limit (left + 1) (.ofList (shortName :: .leftParen :: .rightParen :: us)) =
      .ok (.call (.symbol "a") [], .ofList us) :=
  application_eq_ok.2 ⟨_, _, primary_shortName _, calls_eq_ok.2
    (.inr ⟨left, _, [], _, _, rfl, rfl, rfl, Tokens.advance_ofList _ _, rfl, closing_rightParen us,
      calls_stop _ h⟩)⟩

theorem application_parentheses {ts us : List (Token K)} {e : Expr K}
    (h : expression limit left (.ofList (ts ++ .rightParen :: us)) =
      .ok (e, .ofList (.rightParen :: us)))
    (hus : headBinding us ≤ 6) :
    application limit left (.ofList (.leftParen :: (ts ++ .rightParen :: us))) =
      .ok (e, .ofList us) :=
  application_eq_ok.2 ⟨_, _, primary_eq_ok.2
    (.inr (.inr ⟨_, _, rfl, Tokens.advance_ofList _ _, h, closing_rightParen us⟩)),
    calls_stop e hus⟩

theorem power_caret {ts : Tokens K} {base : Expr K} {us : List (Token K)}
    (h : application limit (left + 1) ts = .ok (base, .ofList (.caret :: shortName :: us)))
    (hus : headBinding us ≤ 5) :
    power limit (left + 1) ts = .ok (.binary .power base (.symbol "a"), .ofList us) :=
  power_eq_ok.2 ⟨_, _, h,
    .inr ⟨left, _, _, rfl, rfl, Tokens.advance_ofList _ _, unary_shortName hus, rfl⟩⟩

/-- The tokens of an expression that is as high as it gets with one level more than given. -/
def tallest : Nat → List (Token K)
  | 0 => [shortName]
  | 1 => shortName :: .leftParen :: .rightParen :: .caret :: shortName :: chains 1
  | l + 2 => .leftParen :: (tallest (l + 1) ++ .rightParen :: .caret :: shortName :: chains (l + 2))

theorem exists_tallest_eq (limit l : Nat) {us : List (Token K)} (hus : headBinding us = 0) :
    ∃ e, expression limit (l + 1) (.ofList (tallest l ++ us)) = .ok (e, .ofList us) ∧
      e.height = maxHeight (l + 1) := by
  induction l using tallest.induct generalizing us with
  | case1 =>
    have hpower : power limit 0 (.ofList (shortName :: us)) = .ok (.symbol "a", .ofList us) :=
      power_shortName (by omega)
    exact exists_expression_eq rfl hpower hus
  | case2 =>
    have happlication : application limit 1 (.ofList (tallest 1 ++ us)) =
        .ok (.call (.symbol "a") [], .ofList (.caret :: shortName :: (chains 1 ++ us))) :=
      application_noArguments (Nat.le_refl 6)
    have hpower := power_caret happlication (headBinding_chains_le hus)
    obtain ⟨e, he, hheight⟩ := exists_expression_eq rfl hpower hus
    exact ⟨e, he, hheight⟩
  | case3 l ih =>
    let rest : List (Token K) := .caret :: shortName :: (chains (l + 2) ++ us)
    have hrest : headBinding (.rightParen :: rest) = 0 := rfl
    obtain ⟨inner, hinner, hle⟩ := ih hrest
    have hle : inner.height = maxHeight (l + 2) := hle
    have hpower := power_caret (application_parentheses hinner (Nat.le_refl 6))
      (headBinding_chains_le hus)
    obtain ⟨e, he, hheight⟩ := exists_expression_eq rfl hpower hus
    refine ⟨e, ?_, ?_⟩
    · rw [tallest, List.cons_append, List.append_assoc]
      exact he
    · rw [hheight, Expr.height_binary_symbol, hle, maxHeight_succ_of_two_le (Nat.le_add_left 2 l)]
      omega

/-- The tokens that tall expressions are made of. -/
def alphabet : List (Token K) :=
  [shortName, .leftParen, .rightParen, .caret, .times, .plus, .less, .into]

omit [Scalar K] in
theorem mem_alphabet_of_mem_chains {t : Token K} {n : Nat} (h : t ∈ chains n) : t ∈ alphabet := by
  have hchain {piece : List (Token K)} (hpiece : piece ⊆ alphabet) (h : t ∈ chain piece n) :
      t ∈ alphabet := hpiece (mem_of_mem_chain h)
  simp only [chains, List.mem_append] at h
  rcases h with h | h | h | h | h
  all_goals exact hchain (by simp [alphabet, Level.sign]) h

omit [Scalar K] in
theorem mem_alphabet_of_mem_tallest {t : Token K} {l : Nat} (h : t ∈ tallest l) : t ∈ alphabet := by
  induction l using tallest.induct with
  | case1 => exact List.mem_cons.2 (.inl (List.mem_singleton.1 h))
  | case2 =>
    simp only [tallest, List.mem_cons] at h
    rcases h with rfl | rfl | rfl | rfl | rfl | h
    iterate 5 simp [alphabet]
    exact mem_alphabet_of_mem_chains h
  | case3 l ih =>
    simp only [tallest, List.mem_cons, List.mem_append] at h
    rcases h with rfl | h | rfl | rfl | rfl | h
    · simp [alphabet]
    · exact ih h
    iterate 3 simp [alphabet]
    exact mem_alphabet_of_mem_chains h

end Reader

/-! ### Written tokens -/

variable [Scalar K]

/-- The text of some tokens, with a blank in front of each. -/
def spell (ts : List (Token K)) : List Char := ts.flatMap fun t ↦ ' ' :: t.text.toList

namespace Token

/-- In front of a blank, and at the end of a line, the text of the token is read as this token. -/
def Plain (t : Token K) : Prop :=
  ∃ c cs, t.text = String.ofList (c :: cs) ∧ Text.isBlank c = false ∧ c ≠ '#' ∧
    ∀ rest : List Char, (∀ d ∈ rest.head?, d = ' ') → lexeme? c (cs ++ rest) = some (t, cs.length)

/-- A character that begins neither a number nor a name, and is neither blank nor the sign of a
comment. -/
def StartsMark (c : Char) : Prop :=
  Text.isBlank c = false ∧ c ≠ '#' ∧ Decimal.isDigit c = false ∧ (c == '.') = false ∧
    isNameStart c = false

instance : DecidablePred StartsMark := fun _ ↦ inferInstanceAs (Decidable (_ ∧ _))

/-- The characters with which the marks begin. -/
def markStarts : List Char := ['+', '-', '*', '/', '%', '^', '=', '<', '>', '!', '(', ')', ',', ';']

theorem startsMark_of_mem {c : Char} (h : c ∈ markStarts) : StartsMark c := by
  have hall : markStarts.all (StartsMark ·) = true := by decide +kernel
  exact of_decide_eq_true (List.all_eq_true.1 hall c h)

theorem plain_of_mark {t : Token K} (c : Char) (cs : List Char)
    (htext : t.text = String.ofList (c :: cs)) (hc : StartsMark c)
    (hmark : ∀ rest : List Char, (∀ d ∈ rest.head?, d = ' ') →
      mark? c (cs ++ rest) = some (t, cs.length)) :
    t.Plain := by
  obtain ⟨hblank, hsharp, hdigit, hpoint, hname⟩ := hc
  refine ⟨c, cs, htext, hblank, hsharp, fun rest hrest ↦ ?_⟩
  rw [lexeme?, hdigit, hpoint, hname]
  exact hmark rest hrest

/-- In front of what is no part of a name, a word is taken as a whole. -/
theorem lexeme?_word {c : Char} {cs rest : List Char}
    (hc : Decimal.isDigit c = false ∧ (c == '.') = false ∧ isNameStart c = true)
    (hcs : ∀ d ∈ cs, isNamePart d = true) (hrest : ∀ d ∈ rest.head?, isNamePart d = false) :
    lexeme? (K := K) c (cs ++ rest) = some (ofWord (String.ofList (c :: cs)), cs.length) := by
  obtain ⟨hdigit, hpoint, hname⟩ := hc
  have hstop : rest.takeWhile isNamePart = [] := by
    rcases rest with - | ⟨d, rest⟩
    · rfl
    · have hd : isNamePart d = false := hrest d rfl
      exact List.takeWhile_cons_of_neg (by simp [hd])
  rw [lexeme?, hdigit, hpoint, hname, List.takeWhile_append_of_pos hcs, hstop, List.append_nil]
  rfl

/-- Names end in front of a blank, a power and a parenthesis. -/
theorem endsName_of_mem {c : Char} (h : c ∈ [' ', '^', ')']) : isNamePart c = false := by
  have hall : [' ', '^', ')'].all (!isNamePart ·) = true := by decide +kernel
  simpa using List.all_eq_true.1 hall c h

theorem plain_of_word {t : Token K} (c : Char) (cs : List Char)
    (htext : t.text = String.ofList (c :: cs))
    (hc : Text.isBlank c = false ∧ c ≠ '#' ∧ Decimal.isDigit c = false ∧ (c == '.') = false ∧
      isNameStart c = true)
    (hcs : ∀ d ∈ cs, isNamePart d = true) (hword : ofWord (String.ofList (c :: cs)) = t) :
    t.Plain := by
  obtain ⟨hblank, hsharp, hc⟩ := hc
  refine ⟨c, cs, htext, hblank, hsharp, fun rest hrest ↦ ?_⟩
  have hstop : ∀ d ∈ rest.head?, isNamePart d = false := by
    intro d hd
    obtain rfl := hrest d hd
    exact endsName_of_mem (by decide)
  rw [lexeme?_word hc hcs hstop, hword]

theorem Plain.ofChars_append {t : Token K} (h : t.Plain) {rest : List Char}
    (hrest : ∀ d ∈ rest.head?, d = ' ') (column : Nat) :
    ∃ next, Tokens.ofChars column (t.text.toList ++ rest) = .more t (Tokens.ofChars next rest) := by
  obtain ⟨c, cs, htext, hblank, hsharp, hlexeme⟩ := h
  refine ⟨column + 1 + cs.length, ?_⟩
  rw [htext, String.toList_ofList, List.cons_append, Tokens.ofChars, hblank, if_neg (by simp),
    if_neg hsharp, hlexeme rest hrest]
  dsimp only
  rw [List.drop_left]

/-- Whether the token is neither a number nor a name. -/
def isMark : Token K → Bool
  | number _ | name _ => false
  | _ => true

theorem plain_of_isMark {t : Token K} (h : t.isMark = true) : t.Plain := by
  -- The signs that begin a longer one are told from it by the blank after them.
  have hne (rest : List Char) (hrest : ∀ d ∈ rest.head?, d = ' ') (c : Char) (hc : c ≠ ' ') :
      rest.head? ≠ some c :=
    fun h ↦ hc (hrest c h)
  cases t with
  | number | name => contradiction
  | into =>
    refine plain_of_word 't' ['o'] rfl (by decide +kernel) (fun d hd ↦ ?_) (if_pos (.inl rfl))
    obtain rfl := List.mem_singleton.1 hd
    decide +kernel
  | times =>
    exact plain_of_mark '*' [] rfl (startsMark_of_mem (by decide)) fun rest hrest ↦
      congrArg some (if_neg (hne rest hrest '*' (by decide)))
  | less =>
    exact plain_of_mark '<' [] rfl (startsMark_of_mem (by decide)) fun rest hrest ↦
      congrArg some (if_neg (hne rest hrest '=' (by decide)))
  | greater =>
    exact plain_of_mark '>' [] rfl (startsMark_of_mem (by decide)) fun rest hrest ↦
      congrArg some (if_neg (hne rest hrest '=' (by decide)))
  | assign =>
    exact plain_of_mark '=' [] rfl (startsMark_of_mem (by decide)) fun rest hrest ↦
      congrArg some (if_neg (hne rest hrest '=' (by decide)))
  | plus => exact plain_of_mark '+' [] rfl (startsMark_of_mem (by decide)) fun _ _ ↦ rfl
  | minus => exact plain_of_mark '-' [] rfl (startsMark_of_mem (by decide)) fun _ _ ↦ rfl
  | divide => exact plain_of_mark '/' [] rfl (startsMark_of_mem (by decide)) fun _ _ ↦ rfl
  | modulo => exact plain_of_mark '%' [] rfl (startsMark_of_mem (by decide)) fun _ _ ↦ rfl
  | caret => exact plain_of_mark '^' [] rfl (startsMark_of_mem (by decide)) fun _ _ ↦ rfl
  | leftParen => exact plain_of_mark '(' [] rfl (startsMark_of_mem (by decide)) fun _ _ ↦ rfl
  | rightParen => exact plain_of_mark ')' [] rfl (startsMark_of_mem (by decide)) fun _ _ ↦ rfl
  | comma => exact plain_of_mark ',' [] rfl (startsMark_of_mem (by decide)) fun _ _ ↦ rfl
  | semicolon => exact plain_of_mark ';' [] rfl (startsMark_of_mem (by decide)) fun _ _ ↦ rfl
  | stars => exact plain_of_mark '*' ['*'] rfl (startsMark_of_mem (by decide)) fun _ _ ↦ rfl
  | lessEqual => exact plain_of_mark '<' ['='] rfl (startsMark_of_mem (by decide)) fun _ _ ↦ rfl
  | greaterEqual => exact plain_of_mark '>' ['='] rfl (startsMark_of_mem (by decide)) fun _ _ ↦ rfl
  | equal => exact plain_of_mark '=' ['='] rfl (startsMark_of_mem (by decide)) fun _ _ ↦ rfl
  | notEqual => exact plain_of_mark '!' ['='] rfl (startsMark_of_mem (by decide)) fun _ _ ↦ rfl

theorem plain_of_mem_alphabet {t : Token K} (h : t ∈ Reader.alphabet) : t.Plain := by
  rcases List.mem_cons.1 h with rfl | hmark
  · exact plain_of_word 'a' [] rfl (by decide +kernel) (by simp) (if_neg (by decide))
  · refine plain_of_isMark ?_
    simp only [List.mem_cons, List.not_mem_nil, or_false] at hmark
    rcases hmark with rfl | rfl | rfl | rfl | rfl | rfl | rfl
    all_goals rfl

end Token

theorem head?_spell (ts : List (Token K)) : ∀ d ∈ (spell ts).head?, d = ' ' := by
  cases ts <;> simp [spell]

theorem Tokens.ofChars_spell {ts : List (Token K)} (h : ∀ t ∈ ts, t.Plain) (column : Nat) :
    Tokens.ofChars column (spell ts) = .ofList ts := by
  induction ts generalizing column with
  | nil => rw [spell, List.flatMap_nil, Tokens.ofChars]; rfl
  | cons t ts ih =>
    have hspell : spell (t :: ts) = ' ' :: (t.text.toList ++ spell ts) := List.flatMap_cons
    obtain ⟨next, hnext⟩ := (h t List.mem_cons_self).ofChars_append (head?_spell ts) (column + 1)
    rw [hspell, Tokens.ofChars, if_pos (by decide), hnext,
      ih fun t ht ↦ h t (List.mem_cons_of_mem _ ht)]
    rfl

/-! ### Lines -/

/-- Under every limit but zero some line holds an expression of the greatest height. -/
theorem Statement.exists_height_eq_maxHeight (K : Type) [Scalar K] {limit : Nat} (h : 0 < limit) :
    ∃ (text : String) (s : Statement K), Statement.ofText limit text = .ok s ∧
      ∃ e ∈ s.exprs, e.height = Reader.maxHeight limit := by
  obtain ⟨l, rfl⟩ := Nat.exists_eq_succ_of_ne_zero h.ne'
  have hend : Reader.headBinding (K := K) [] = 0 := rfl
  obtain ⟨e, he, hheight⟩ := Reader.exists_tallest_eq (l + 1) l hend
  rw [List.append_nil] at he
  refine ⟨String.ofList (spell (Reader.tallest (K := K) l)), ⟨.expression e, false⟩, ?_, e,
    List.mem_singleton_self e, hheight⟩
  have htokens : Tokens.ofText (String.ofList (spell (Reader.tallest (K := K) l))) =
      Tokens.ofList (Reader.tallest (K := K) l) := by
    rw [Tokens.ofText, String.toList_ofList]
    exact Tokens.ofChars_spell
      (fun t ht ↦ Token.plain_of_mem_alphabet (Reader.mem_alphabet_of_mem_tallest ht)) 0
  have hhead : ¬((Tokens.ofList (Reader.tallest (K := K) l)).peek = none ∨
      (Tokens.ofList (Reader.tallest (K := K) l)).peek = some .semicolon) := by
    rcases l with - | - | l <;> exact fun h ↦ h.elim nofun nofun
  refine Statement.ofText_eq_ok.2
    ⟨.ofList (Reader.tallest l), .ofList [], .ofList [], ?_, ?_, rfl, rfl⟩
  · rw [htokens, Tokens.look_ofList]
  · exact Reader.action_eq_ok.2 (.inr ⟨hhead, e, _, he, .inl ⟨nofun, rfl, rfl⟩⟩)

/-- **The greatest height.** `maxHeight` bounds the expressions of all lines, and one line reaches
it unless nothing can be read at all; so the limit itself is a bound for limits up to one only. -/
theorem Statement.greatest_height (K : Type) [Scalar K] (limit : Nat) :
    (∀ text (s : Statement K), Statement.ofText limit text = .ok s →
      ∀ e ∈ s.exprs, e.height ≤ Reader.maxHeight limit) ∧
    (limit = 0 ∨ ∃ (text : String) (s : Statement K), Statement.ofText limit text = .ok s ∧
      ∃ e ∈ s.exprs, e.height = Reader.maxHeight limit) ∧
    ((∀ text (s : Statement K), Statement.ofText limit text = .ok s →
      ∀ e ∈ s.exprs, e.height ≤ limit) ↔ limit ≤ 1) := by
  have hbound : ∀ text (s : Statement K), Statement.ofText limit text = .ok s →
      ∀ e ∈ s.exprs, e.height ≤ Reader.maxHeight limit :=
    fun text s h ↦ Statement.height_le_maxHeight h
  refine ⟨hbound, ?_, fun h ↦ ?_, fun hlimit text s h e he ↦ ?_⟩
  · rcases Nat.eq_zero_or_pos limit with hzero | hpos
    · exact .inl hzero
    · exact .inr (Statement.exists_height_eq_maxHeight K hpos)
  · by_contra hlimit
    obtain ⟨text, s, hs, e, he, hheight⟩ :=
      Statement.exists_height_eq_maxHeight K (show 0 < limit by omega)
    have hle := h text s hs e he
    rw [hheight, Reader.maxHeight_of_two_le (by omega)] at hle
    omega
  · have hle := hbound text s h e he
    rw [Reader.maxHeight, if_pos (by omega)] at hle
    exact hle

set_option maxRecDepth 10000 in
/-- Two levels, and three nodes on the longest path: the comparison starts over with both levels. -/
theorem Statement.exists_height_eq_three :
    ∃ s : Statement Float, Statement.ofText 2 "a+a<a" = .ok s ∧ s.exprs.map Expr.height = [3] := by
  refine ⟨⟨.expression
    (.binary .less (.binary .add (.symbol "a") (.symbol "a")) (.symbol "a")), false⟩, ?_, by decide⟩
  cbv

end Reckoner
