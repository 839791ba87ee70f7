import Reckoner.Proofs.Readers

/-!
# More levels never change what is read

The limit of depth only rejects. A reader that has enough levels does with more of them what it does
with these, whether it succeeds or fails; and if it has not enough, it says so. So the result of every
reader is settled from some number of levels on, and below it the result is that the limit has been
exceeded, and nothing else.

`Extends` relates the results under two limits. It is kept by running one reader after another
(`Extends.bind`), and the only steps that the numbers of levels decide are those at which none is left.
The readers are treated in the order in which they call each other, each with the assumption that
expressions are settled with as many levels as it has itself.
-/

namespace Reckoner

variable {K α β : Type}

/-- The second result is the first one, unless that is that the limit has been exceeded. -/
def Extends (limit : Nat) (x y : Except ParseError α) : Prop :=
  x = .error (.tooDeep limit) ∨ y = x

namespace Extends

variable {limit : Nat}

theorem refl (x : Except ParseError α) : Extends limit x x := .inr rfl

theorem tooDeep (y : Except ParseError α) : Extends limit (.error (.tooDeep limit)) y := .inl rfl

theorem bind {x y : Except ParseError α} {f g : α → Except ParseError β} (h : Extends limit x y)
    (hnext : ∀ a, Extends limit (f a) (g a)) : Extends limit (x >>= f) (y >>= g) := by
  rcases h with rfl | rfl
  · exact .inl rfl
  · cases y with
    | error e => exact .inr rfl
    | ok a => exact hnext a

theorem ite {c : Prop} [Decidable c] {x y x' y' : Except ParseError α} (h : Extends limit x y)
    (h' : Extends limit x' y') :
    Extends limit (if c then x else x') (if c then y else y') := by
  split
  · exact h
  · exact h'

/-- What succeeds goes on to do so. -/
theorem eq_ok {x y : Except ParseError α} {a : α} (h : Extends limit x y) (hx : x = .ok a) :
    y = .ok a := by
  rcases h with hdeep | hsame
  · rw [hx] at hdeep
    contradiction
  · exact hsame.trans hx

/-- What does not succeed yet has exceeded the limit. -/
theorem eq_tooDeep {x y : Except ParseError α} {a : α} (h : Extends limit x y) (hy : y = .ok a)
    (hx : x ≠ .ok a) : x = .error (.tooDeep limit) :=
  h.resolve_right fun hsame ↦ hx (hsame.symm.trans hy)

end Extends

namespace Reader

/-- With at least as many levels, the second reader does what the first one does. -/
def ExtendedBy (limit : Nat) (read read' : Tokens K → Except ParseError (α × Tokens K)) : Prop :=
  ∀ ts, Extends limit (read ts) (read' ts)

variable {limit limit' left left' : Nat}

theorem separated_extended {read read' : Tokens K → Except ParseError (α × Tokens K)}
    (h : ExtendedBy limit read read') :
    ExtendedBy limit (separated read) (separated read') := by
  intro ts
  induction hn : ts.length using Nat.strongRecOn generalizing ts with
  | ind n ih =>
    rw [separated, separated.eq_def read']
    refine (h ts).bind ?_
    rintro ⟨first, us⟩
    dsimp only
    split
    · refine (Extends.refl _).bind fun vs ↦ ?_
      split
      · rename_i hlt
        exact (ih vs.length (hn ▸ hlt) vs rfl).bind fun _ ↦ .refl _
      · exact .refl _
    · exact .refl _

theorem argumentList_extended {read read' : Tokens K → Except ParseError (α × Tokens K)}
    (h : ExtendedBy limit read read') :
    ExtendedBy limit (argumentList read) (argumentList read') := by
  intro ts
  rw [argumentList, argumentList]
  split
  · exact .refl _
  · exact separated_extended h ts

variable [Scalar K]

theorem conversions_extended (hle : left ≤ left') (value : Expr K) :
    ExtendedBy limit (conversions limit left value) (conversions limit' left' value) := by
  intro ts
  induction left generalizing left' value ts with
  | zero =>
    rw [conversions.eq_def, conversions.eq_def limit']
    split
    · exact .tooDeep _
    · exact .refl _
  | succ left ih =>
    obtain ⟨left', rfl⟩ := Nat.exists_eq_add_of_lt hle
    rw [conversions.eq_def, conversions.eq_def limit']
    split
    · refine (Extends.refl _).bind fun us ↦ (Extends.refl _).bind fun r ↦ ?_
      exact ih (by omega) _ r.2
    · exact .refl _

/-- The hypothesis of the induction: the expressions that are read with at most `left` levels are
settled. -/
def ExpressionsExtended (K : Type) [Scalar K] (limit limit' left : Nat) : Prop :=
  ∀ l ≤ left, ∀ l', l ≤ l' → ExtendedBy limit (expression (K := K) limit l) (expression limit' l')

theorem ExpressionsExtended.mono {l : Nat} (h : ExpressionsExtended K limit limit' left)
    (hl : l ≤ left) : ExpressionsExtended K limit limit' l :=
  fun k hk ↦ h k (Nat.le_trans hk hl)

theorem primary_extended (h : ExpressionsExtended K limit limit' left) (hle : left ≤ left') :
    ExtendedBy limit (primary (K := K) limit left) (primary limit' left') := by
  intro ts
  rw [primary, primary]
  split
  · exact .refl _
  · exact .refl _
  · refine (Extends.refl _).bind fun us ↦ ?_
    exact (h left (Nat.le_refl left) left' hle us).bind fun _ ↦ .refl _
  · exact .refl _

theorem calls_extended (h : ExpressionsExtended K limit limit' left) (hle : left ≤ left')
    (callee : Expr K) : ExtendedBy limit (calls limit left callee) (calls limit' left' callee) := by
  intro ts
  induction left generalizing left' callee ts with
  | zero =>
    rw [calls.eq_def, calls.eq_def limit']
    exact .ite (.tooDeep _) (.refl _)
  | succ left ih =>
    obtain ⟨left', rfl⟩ := Nat.exists_eq_add_of_lt hle
    have hargs : ExtendedBy limit (argumentList fun ts ↦ expression (K := K) limit left ts)
        (argumentList fun ts ↦ expression limit' (left + left') ts) :=
      argumentList_extended (h left (Nat.le_succ left) _ (by omega))
    rw [calls.eq_def, calls.eq_def limit']
    refine .ite ((Extends.refl _).bind fun us ↦ (hargs us).bind ?_) (.refl _)
    rintro ⟨args, vs⟩
    exact (Extends.refl _).bind fun ws ↦ ih (h.mono (Nat.le_succ left)) (by omega) _ ws

theorem application_extended (h : ExpressionsExtended K limit limit' left) (hle : left ≤ left') :
    ExtendedBy limit (application (K := K) limit left) (application limit' left') := by
  intro ts
  rw [application, application]
  refine (primary_extended h hle ts).bind ?_
  rintro ⟨callee, us⟩
  exact calls_extended h hle callee us

/-- An exponent may have a sign, and a sign stands before a power. -/
theorem power_unary_extended (h : ExpressionsExtended K limit limit' left) (hle : left ≤ left') :
    ExtendedBy limit (power (K := K) limit left) (power limit' left') ∧
      ExtendedBy limit (unary (K := K) limit left) (unary limit' left') := by
  induction left generalizing left' with
  | zero =>
    have hpower : ExtendedBy limit (power (K := K) limit 0) (power limit' left') := by
      intro ts
      rw [power, power]
      refine (application_extended h hle ts).bind ?_
      rintro ⟨base, us⟩
      dsimp only
      split
      · exact .tooDeep _
      · exact .refl _
    refine ⟨hpower, fun ts ↦ ?_⟩
    rw [unary, unary]
    split
    · exact hpower ts
    · exact .tooDeep _
  | succ left ih =>
    obtain ⟨left', rfl⟩ := Nat.exists_eq_add_of_lt hle
    have hunary : ExtendedBy limit (unary (K := K) limit left) (unary limit' (left + left')) :=
      (ih (h.mono (Nat.le_succ left)) (by omega)).2
    have hpower : ExtendedBy limit (power (K := K) limit (left + 1))
        (power limit' (left + left' + 1)) := by
      intro ts
      rw [power, power]
      refine (application_extended h (by omega) ts).bind ?_
      rintro ⟨base, us⟩
      dsimp only
      split
      · exact (Extends.refl _).bind fun vs ↦ (hunary vs).bind fun _ ↦ .refl _
      · exact .refl _
    refine ⟨hpower, fun ts ↦ ?_⟩
    rw [unary.eq_def, unary.eq_def limit']
    split
    · exact hpower ts
    · exact (Extends.refl _).bind fun vs ↦ (hunary vs).bind fun _ ↦ .refl _

theorem factors_extended (h : ExpressionsExtended K limit limit' left) (hle : left ≤ left')
    (first : Expr K) : ExtendedBy limit (factors limit left first) (factors limit' left' first) := by
  intro ts
  induction left generalizing left' first ts with
  | zero =>
    rw [factors.eq_def, factors.eq_def limit']
    split
    · exact .tooDeep _
    · exact .refl _
  | succ left ih =>
    obtain ⟨left', rfl⟩ := Nat.exists_eq_add_of_lt hle
    have hmono := h.mono (Nat.le_succ left)
    have hpower : ExtendedBy limit (power (K := K) limit left) (power limit' (left + left')) :=
      (power_unary_extended hmono (by omega)).1
    rw [factors.eq_def, factors.eq_def limit']
    split
    · refine (hpower ts).bind ?_
      rintro ⟨second, us⟩
      exact ih hmono (by omega) _ us
    · exact .refl _

theorem implicit_extended (h : ExpressionsExtended K limit limit' left) (hle : left ≤ left') :
    ExtendedBy limit (implicit (K := K) limit left) (implicit limit' left') := by
  intro ts
  rw [implicit, implicit]
  refine ((power_unary_extended h hle).2 ts).bind ?_
  rintro ⟨first, us⟩
  exact factors_extended h hle first us

theorem operations_extended {level : Level}
    (h : ∀ l < left, ∀ l', l ≤ l' →
      ExtendedBy limit (operand (K := K) limit level l) (operand limit' level l'))
    (hle : left ≤ left') (first : Expr K) :
    ExtendedBy limit (operations limit level left first) (operations limit' level left' first) := by
  intro ts
  induction left generalizing left' first ts with
  | zero =>
    rw [operations.eq_def, operations.eq_def limit']
    split
    · exact .refl _
    · exact .tooDeep _
  | succ left ih =>
    obtain ⟨left', rfl⟩ := Nat.exists_eq_add_of_lt hle
    have hoperand := h left (Nat.lt_succ_self left) (left + left') (by omega)
    rw [operations.eq_def, operations.eq_def limit']
    split
    · exact .refl _
    · refine (Extends.refl _).bind fun us ↦ (hoperand us).bind ?_
      rintro ⟨second, vs⟩
      exact ih (fun l hl ↦ h l (Nat.lt_succ_of_lt hl)) (by omega) _ vs

theorem operation_extended {level : Level}
    (h : ∀ l ≤ left, ∀ l', l ≤ l' →
      ExtendedBy limit (operand (K := K) limit level l) (operand limit' level l'))
    (hle : left ≤ left') :
    ExtendedBy limit (operation (K := K) limit level left) (operation limit' level left') := by
  intro ts
  rw [operation, operation]
  refine (h left (Nat.le_refl left) left' hle ts).bind ?_
  rintro ⟨first, us⟩
  exact operations_extended (fun l hl ↦ h l (Nat.le_of_lt hl)) hle first us

theorem operand_extended (level : Level) (h : ExpressionsExtended K limit limit' left)
    (hle : left ≤ left') :
    ExtendedBy limit (operand (K := K) limit level left) (operand limit' level left') := by
  have hproduct : ∀ l ≤ left, ∀ l', l ≤ l' →
      ExtendedBy limit (operand (K := K) limit .product l) (operand limit' .product l') := by
    intro l hl l' hl' ts
    rw [operand, operand]
    exact implicit_extended (h.mono hl) hl' ts
  have hsum : ∀ l ≤ left, ∀ l', l ≤ l' →
      ExtendedBy limit (operand (K := K) limit .sum l) (operand limit' .sum l') := by
    intro l hl l' hl' ts
    rw [operand, operand]
    exact operation_extended (fun k hk ↦ hproduct k (Nat.le_trans hk hl)) hl' ts
  cases level with
  | product => exact hproduct left (Nat.le_refl left) left' hle
  | sum => exact hsum left (Nat.le_refl left) left' hle
  | comparison =>
    intro ts
    rw [operand, operand]
    exact operation_extended hsum hle ts

/-- **Expressions are settled**: with more levels, what is read is the same unless the levels had not
been enough. -/
theorem expression_extended (limit limit' : Nat) (hle : left ≤ left') :
    ExtendedBy limit (expression (K := K) limit left) (expression limit' left') := by
  induction left using Nat.strongRecOn generalizing left' with
  | ind left ih =>
    intro ts
    rw [expression.eq_def, expression.eq_def limit']
    cases left with
    | zero => exact .tooDeep _
    | succ left =>
      obtain ⟨left', rfl⟩ := Nat.exists_eq_add_of_lt hle
      have h : ExpressionsExtended K limit limit' left :=
        fun l hl l' hl' ↦ ih l (Nat.lt_succ_of_le hl) hl'
      have hoperation : ExtendedBy limit (operation (K := K) limit .comparison left)
          (operation limit' .comparison (left + left')) :=
        operation_extended (fun l hl l' hl' ↦ operand_extended .comparison (h.mono hl) hl')
          (by omega)
      refine (hoperation ts).bind ?_
      rintro ⟨value, us⟩
      exact conversions_extended (by omega) value us

theorem action_extended (hle : limit ≤ limit') :
    ExtendedBy limit (action (K := K) limit) (action limit') := by
  have h := expression_extended (K := K) limit limit' hle
  intro ts
  rw [action, action]
  split
  · exact .refl _
  · exact .refl _
  · refine (h ts).bind ?_
    rintro ⟨first, us⟩
    dsimp only
    split
    · exact (Extends.refl _).bind fun vs ↦ (h vs).bind fun _ ↦ .refl _
    · exact .refl _

end Reader

variable [Scalar K] {limit limit' : Nat}

/-- A line that is not rejected for its depth means the same under every larger limit. -/
theorem Statement.ofText_extends (hle : limit ≤ limit') (text : String) :
    Extends limit (ofText (K := K) limit text) (ofText limit' text) := by
  refine (Extends.refl _).bind fun ts ↦ ?_
  exact (Reader.action_extended hle ts).bind fun _ ↦ .refl _

/-- An expression that is not rejected for its depth is the same under every larger limit. -/
theorem Expr.ofText_extends (hle : limit ≤ limit') (text : String) :
    Extends limit (ofText (K := K) limit text) (ofText limit' text) := by
  refine (Extends.refl _).bind fun ts ↦ ?_
  exact (Reader.expression_extended limit limit' hle ts).bind fun _ ↦ .refl _

end Reckoner
