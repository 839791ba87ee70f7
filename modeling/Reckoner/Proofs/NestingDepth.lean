import Mathlib.Data.Nat.Choose.Basic
import Reckoner.Proofs.Readers

/-!
# How high expressions can grow under a limit of depth

The limit of depth counts levels, and a reader gives its levels back when it returns. So the chain
of operators of each kind starts over with all the levels of its expression, although its first
operand may be as high as these levels allow: under the limit two, `a + a < a` is read, and has
height three. The limit bounds the height all the same, but by a square: five chains can stand on
top of each other in one expression (juxtaposition, products, sums, comparisons and conversions),
each as long as there are levels left, on top of a power whose base is again an expression in
parentheses, with one level less.

`Reader.maxHeight` is what this comes to, and this module shows that no expression grows higher. The
bounds of the readers follow the grammar upwards: `applicationHeight` for what can stand before a
power sign, `powerHeight` for a factor, `operandHeight` for the operands of the operators of a
level. What can be called needs a bound of its own, `callHeight`, since `calls` is a chain as well:
it starts from a name or from a call in parentheses, and never from an expression of the greatest
height.
-/

namespace Reckoner

variable {K : Type}

/-! ### Expressions of a line -/

/-- The expressions in what a line does. -/
def Action.exprs : Action K → List (Expr K)
  | .empty => []
  | .expression e => [e]
  | .assign _ value => [value]
  | .define _ _ body => [body]

/-- The expressions in a line. -/
def Statement.exprs (s : Statement K) : List (Expr K) := s.action.exprs

namespace Expr

theorem heights_le {n : Nat} {es : List (Expr K)} (h : ∀ e ∈ es, e.height ≤ n) :
    heights es ≤ n := by
  induction es with
  | nil => exact Nat.zero_le n
  | cons e es ih =>
    have he := h e List.mem_cons_self
    have hes := ih fun e he ↦ h e (List.mem_cons_of_mem _ he)
    rw [heights]
    omega

end Expr

/-! ### Bounds -/

/-- How many kinds of chains stand below the operators of a level. -/
def Level.chains : Level → Nat
  | product => 1
  | sum => 2
  | comparison => 3

namespace Reader

/-- The greatest height of an expression that is read with so many levels. -/
def maxHeight (levels : Nat) : Nat :=
  if levels < 2 then levels else levels + 5 * (levels * (levels - 1) / 2) + 1

/-- The greatest height of an application. -/
def applicationHeight (left : Nat) : Nat := max (maxHeight left) (left + 1)

/-- The greatest height of an application that can be called again. -/
def callHeight (left : Nat) : Nat := applicationHeight (left - 1) + left

/-- The greatest height of a power. -/
def powerHeight (left : Nat) : Nat := applicationHeight left + min left 1

/-- The greatest height of an operand of a level. -/
def operandHeight (level : Level) (left : Nat) : Nat := powerHeight left + level.chains * left

theorem maxHeight_of_two_le {levels : Nat} (h : 2 ≤ levels) :
    maxHeight levels = levels + 5 * (levels * (levels - 1) / 2) + 1 :=
  if_neg (by omega)

/-- With two levels or more, each further one lengthens five chains and adds one power. -/
theorem maxHeight_succ_of_two_le {levels : Nat} (h : 2 ≤ levels) :
    maxHeight (levels + 1) = maxHeight levels + 5 * levels + 1 := by
  rw [maxHeight_of_two_le h, maxHeight_of_two_le (by omega), Nat.triangle_succ]
  omega

theorem maxHeight_le_applicationHeight (left : Nat) : maxHeight left ≤ applicationHeight left :=
  Nat.le_max_left _ _

theorem applicationHeight_of_two_le {left : Nat} (h : 2 ≤ left) :
    applicationHeight left = maxHeight left := by
  rw [applicationHeight, maxHeight_of_two_le h]
  omega

/-- An expression is a power under five chains. -/
theorem maxHeight_succ (left : Nat) : maxHeight (left + 1) = powerHeight left + 5 * left := by
  -- Below two levels an application may be higher than an expression in parentheses.
  match left with
  | 0 => rfl
  | 1 => rfl
  | left + 2 =>
    have hleft : 2 ≤ left + 2 := by omega
    rw [maxHeight_succ_of_two_le hleft, powerHeight, applicationHeight_of_two_le hleft]
    omega

theorem applicationHeight_lt_succ (left : Nat) :
    applicationHeight left < applicationHeight (left + 1) := by
  match left with
  | 0 => decide
  | 1 => decide
  | left + 2 =>
    have hleft : 2 ≤ left + 2 := by omega
    rw [applicationHeight_of_two_le hleft, applicationHeight_of_two_le (Nat.le_succ_of_le hleft),
      maxHeight_succ_of_two_le hleft]
    omega

theorem applicationHeight_mono {l left : Nat} (h : l ≤ left) :
    applicationHeight l ≤ applicationHeight left := by
  induction left, h using Nat.le_induction with
  | base => exact Nat.le_refl _
  | succ left _ ih => exact ih.trans (applicationHeight_lt_succ left).le

/-- A chain of calls stays below the other applications. -/
theorem callHeight_le_applicationHeight (left : Nat) :
    callHeight left ≤ applicationHeight left := by
  match left with
  | 0 => decide
  | 1 => decide
  | 2 => decide
  | left + 3 =>
    have hpred : applicationHeight (left + 3 - 1) = maxHeight (left + 2) :=
      applicationHeight_of_two_le (by omega)
    rw [callHeight, hpred, applicationHeight_of_two_le (show 2 ≤ left + 3 by omega),
      maxHeight_succ_of_two_le (show 2 ≤ left + 2 by omega)]
    omega

theorem powerHeight_le_applicationHeight_succ (left : Nat) :
    powerHeight left ≤ applicationHeight (left + 1) := by
  have := applicationHeight_lt_succ left
  rw [powerHeight]
  omega

theorem operandHeight_product_add (left : Nat) :
    operandHeight .product left + left = operandHeight .sum left := by
  simp only [operandHeight, Level.chains]
  omega

theorem operandHeight_sum_add (left : Nat) :
    operandHeight .sum left + left = operandHeight .comparison left := by
  simp only [operandHeight, Level.chains]
  omega

theorem powerHeight_mono {l left : Nat} (h : l ≤ left) : powerHeight l ≤ powerHeight left := by
  have := applicationHeight_mono h
  rw [powerHeight, powerHeight]
  omega

theorem operandHeight_mono (level : Level) {l left : Nat} (h : l ≤ left) :
    operandHeight level l ≤ operandHeight level left :=
  Nat.add_le_add (powerHeight_mono h) (Nat.mul_le_mul_left _ h)

/-! ### Chains -/

/-- What a chain makes, in at most `l` steps, of a first operand at most as high as `n`. -/
structure Grown (n l : Nat) (first e : Expr K) : Prop where
  height_le : e.height ≤ n + l
  eq_of_isCallable : e.isCallable = true → e = first

namespace Grown

variable {n l : Nat} {first e : Expr K}

theorem refl (h : first.height ≤ n) : Grown n l first first :=
  ⟨Nat.le_add_right_of_le h, fun _ ↦ rfl⟩

/-- A step adds one node above the first operand, which cannot be called afterwards. -/
theorem step {next : Expr K} (hnext : next.isCallable = false) (h : Grown (n + 1) l next e) :
    Grown n (l + 1) first e := by
  refine ⟨?_, fun he ↦ ?_⟩
  · have := h.height_le
    omega
  · obtain rfl := h.eq_of_isCallable he
    rw [hnext] at he
    contradiction

/-- A chain is a loop that stops, or goes on from its operand with one more node above it, as long
as there are levels. The other operands are at most as high as `n`. -/
theorem of_loop {loop : Nat → Expr K → Tokens K → Except ParseError (Expr K × Tokens K)}
    {left : Nat} {ts us : Tokens K}
    (hloop : ∀ l first ts, l ≤ left → loop l first ts = .ok (e, us) → first = e ∨
      ∃ k next vs, l = k + 1 ∧ next.isCallable = false ∧ next.height ≤ max first.height n + 1 ∧
        loop k next vs = .ok (e, us))
    (hfirst : first.height ≤ n) (h : loop left first ts = .ok (e, us)) : Grown n left first e := by
  induction left generalizing n first ts with
  | zero =>
    rcases hloop 0 first ts (Nat.le_refl 0) h with rfl | ⟨k, -, -, hk, -⟩
    · exact .refl hfirst
    · omega
  | succ left ih =>
    rcases hloop (left + 1) first ts (Nat.le_refl _) h with rfl | ⟨k, next, vs, hk, hnext, hle, h⟩
    · exact .refl hfirst
    · obtain rfl := Nat.succ.inj hk
      refine .step hnext (ih (fun l first ts hl h ↦ ?_) (by omega) h)
      -- What has been said for `n` holds for `n + 1`, which the next operand may reach.
      rcases hloop l first ts (Nat.le_succ_of_le hl) h with rfl | ⟨k, next, vs, hk, hnext, hle, h⟩
      · exact .inl rfl
      · exact .inr ⟨k, next, vs, hk, hnext, by omega, h⟩

end Grown

variable [Scalar K] {limit : Nat}

theorem conversions_grown {n left : Nat} {value e : Expr K} {ts us : Tokens K}
    (hvalue : value.height ≤ n) (h : conversions limit left value ts = .ok (e, us)) :
    Grown n left value e := by
  refine .of_loop (fun l value ts _ h ↦ ?_) hvalue h
  rcases conversions_eq_ok.1 h with ⟨-, rfl, -⟩ | ⟨k, vs, target, ws, hk, -, -, -, h⟩
  · exact .inl rfl
  · refine .inr ⟨k, .convert value target, ws, hk, rfl, ?_, h⟩
    rw [Expr.height]
    omega

theorem operations_grown {level : Level} {n left : Nat} {first e : Expr K} {ts us : Tokens K}
    (hoperand : ∀ l < left, ∀ ts us (e : Expr K),
      operand limit level l ts = .ok (e, us) → e.height ≤ n)
    (hfirst : first.height ≤ n) (h : operations limit level left first ts = .ok (e, us)) :
    Grown n left first e := by
  refine .of_loop (fun l first ts hl h ↦ ?_) hfirst h
  rcases operations_eq_ok.1 h with ⟨-, rfl, -⟩ | ⟨k, op, vs, second, ws, hk, -, -, hsecond, h⟩
  · exact .inl rfl
  · have hle := hoperand k (by omega) vs ws second hsecond
    refine .inr ⟨k, .binary op first second, ws, hk, rfl, ?_, h⟩
    rw [Expr.height]
    omega

theorem factors_grown {n left : Nat} {first e : Expr K} {ts us : Tokens K}
    (hpower : ∀ l < left, ∀ ts us (e : Expr K), power limit l ts = .ok (e, us) → e.height ≤ n)
    (hfirst : first.height ≤ n) (h : factors limit left first ts = .ok (e, us)) :
    Grown n left first e := by
  refine .of_loop (fun l first ts hl h ↦ ?_) hfirst h
  rcases factors_eq_ok.1 h with ⟨-, rfl, -⟩ | ⟨k, second, vs, hk, -, hsecond, h⟩
  · exact .inl rfl
  · have hle := hpower k (by omega) ts vs second hsecond
    refine .inr ⟨k, .binary .multiply first second, vs, hk, rfl, ?_, h⟩
    rw [Expr.height]
    omega

/-- The one chain that goes on from a call: what can be called may have grown. -/
theorem height_calls_le {n left : Nat} {callee e : Expr K} {ts us : Tokens K}
    (hargs : ∀ l < left, ∀ ts us (e : Expr K), expression limit l ts = .ok (e, us) → e.height ≤ n)
    (hcallee : callee.height ≤ n) (h : calls limit left callee ts = .ok (e, us)) :
    e.height ≤ n + left := by
  induction left generalizing n callee ts with
  | zero =>
    rcases calls_eq_ok.1 h with ⟨-, rfl, -⟩ | ⟨l, -, -, -, -, hl, -⟩
    · exact hcallee
    · omega
  | succ left ih =>
    rcases calls_eq_ok.1 h with
      ⟨-, rfl, -⟩ | ⟨l, vs, args, ws, xs, hl, -, -, -, hlist, -, h⟩
    · exact Nat.le_add_right_of_le hcallee
    · obtain rfl := Nat.succ.inj hl
      have hheights : Expr.heights args ≤ n := Expr.heights_le fun arg harg ↦ by
        obtain ⟨_, _, harg⟩ := exists_item_of_argumentList hlist arg harg
        exact hargs _ (Nat.lt_succ_self _) _ _ _ harg
      have := ih (n := n + 1) (fun l hl ts us e he ↦ ?_) (by rw [Expr.height]; omega) h
      · omega
      · exact (hargs l (Nat.lt_succ_of_lt hl) ts us e he).trans (Nat.le_succ n)

/-! ### The readers -/

/-- A reader of expressions at most as high as `n`, and at most as high as `m` if they can be
called. -/
def ReadsUpTo (n m : Nat) (read : Tokens K → Except ParseError (Expr K × Tokens K)) : Prop :=
  ∀ ⦃ts us e⦄, read ts = .ok (e, us) → e.height ≤ n ∧ (e.isCallable = true → e.height ≤ m)

/-- The hypothesis of the induction: up to `left` levels, no expression is higher than it may be. -/
def ExpressionsUpTo (K : Type) [Scalar K] (limit left : Nat) : Prop :=
  ∀ l ≤ left, ReadsUpTo (K := K) (maxHeight l) (callHeight (l - 1)) (expression limit l)

theorem ExpressionsUpTo.mono {l left : Nat} (h : ExpressionsUpTo K limit left) (hl : l ≤ left) :
    ExpressionsUpTo K limit l :=
  fun k hk ↦ h k (hk.trans hl)

theorem one_le_applicationHeight (left : Nat) : 1 ≤ applicationHeight left :=
  (Nat.le_add_left 1 left).trans (Nat.le_max_right _ _)

variable {left : Nat}

theorem primary_readsUpTo (h : ExpressionsUpTo K limit left) :
    ReadsUpTo (K := K) (applicationHeight left) (applicationHeight (left - 1))
      (primary limit left) := by
  intro ts us e he
  rcases primary_eq_ok.1 he with ⟨value, -, -, rfl⟩ | ⟨name, -, -, rfl⟩ | ⟨vs, ws, -, -, he, -⟩
  · exact ⟨one_le_applicationHeight left, fun _ ↦ one_le_applicationHeight _⟩
  · exact ⟨one_le_applicationHeight left, fun _ ↦ one_le_applicationHeight _⟩
  · obtain ⟨hheight, hcallable⟩ := h left (Nat.le_refl left) he
    exact ⟨hheight.trans (maxHeight_le_applicationHeight left),
      fun he ↦ (hcallable he).trans (callHeight_le_applicationHeight _)⟩

theorem application_readsUpTo (h : ExpressionsUpTo K limit left) :
    ReadsUpTo (K := K) (applicationHeight left) (callHeight left) (application limit left) := by
  intro ts us e he
  obtain ⟨callee, vs, hcallee, hcalls⟩ := application_eq_ok.1 he
  obtain ⟨hheight, hcallable⟩ := primary_readsUpTo h hcallee
  cases hc : callee.isCallable with
  | false =>
    -- No argument list belongs to such a callee, so the callee is all that is read.
    rcases calls_eq_ok.1 hcalls with ⟨-, rfl, -⟩ | ⟨l, _, _, _, _, -, hc', -⟩
    · exact ⟨hheight, fun he ↦ by rw [hc] at he; contradiction⟩
    · rw [hc] at hc'
      contradiction
  | true =>
    have hargs : ∀ l < left, ∀ ts us (e : Expr K), expression limit l ts = .ok (e, us) →
        e.height ≤ applicationHeight (left - 1) := by
      intro l hl ts us e he
      have hle := (h l hl.le he).1
      exact (hle.trans (maxHeight_le_applicationHeight l)).trans
        (applicationHeight_mono (Nat.le_pred_of_lt hl))
    have hle : e.height ≤ callHeight left := height_calls_le hargs (hcallable hc) hcalls
    exact ⟨hle.trans (callHeight_le_applicationHeight left), fun _ ↦ hle⟩

/-- Powers and signs need each other: an exponent may have a sign, and a sign stands before a
power. -/
theorem power_unary_readsUpTo (h : ExpressionsUpTo K limit left) :
    ReadsUpTo (K := K) (powerHeight left) (callHeight left) (power limit left) ∧
      ReadsUpTo (K := K) (powerHeight left) (callHeight left) (unary limit left) := by
  induction left using Nat.strongRecOn with
  | ind left ih =>
    -- Whatever stands behind a power sign or a sign is read with a level less, and so it is no
    -- higher than an application with all levels; `powerHeight` adds the node above it.
    have hunary : ∀ l, left = l + 1 → ∀ {ts us} {e : Expr K}, unary limit l ts = .ok (e, us) →
        e.height ≤ applicationHeight left := by
      rintro l rfl ts us e he
      have hle := ((ih l (Nat.lt_succ_self l) (h.mono (Nat.le_succ l))).2 he).1
      exact hle.trans (powerHeight_le_applicationHeight_succ l)
    have hpower : ReadsUpTo (K := K) (powerHeight left) (callHeight left) (power limit left) := by
      intro ts us e he
      obtain ⟨base, vs, hbase, he⟩ := power_eq_ok.1 he
      obtain ⟨hheight, hcallable⟩ := application_readsUpTo h hbase
      rcases he with ⟨-, rfl, -⟩ | ⟨l, ws, exponent, hl, -, -, hexponent, rfl⟩
      · exact ⟨Nat.le_add_right_of_le hheight, hcallable⟩
      · have hexponent := hunary l hl hexponent
        refine ⟨?_, fun he ↦ nomatch he⟩
        rw [Expr.height, powerHeight]
        omega
    refine ⟨hpower, fun ts us e he ↦ ?_⟩
    rcases unary_eq_ok.1 he with ⟨-, he⟩ | ⟨l, sign, vs, operand, hl, -, -, hoperand, rfl⟩
    · exact hpower he
    · have hoperand := hunary l hl hoperand
      refine ⟨?_, fun he ↦ nomatch he⟩
      rw [Expr.height, powerHeight]
      omega

theorem implicit_readsUpTo (h : ExpressionsUpTo K limit left) :
    ReadsUpTo (K := K) (powerHeight left + left) (callHeight left) (implicit limit left) := by
  intro ts us e he
  obtain ⟨first, vs, hfirst, hfactors⟩ := implicit_eq_ok.1 he
  obtain ⟨hheight, hcallable⟩ := (power_unary_readsUpTo h).2 hfirst
  have hgrown := factors_grown (fun l hl ts us e he ↦
    ((power_unary_readsUpTo (h.mono hl.le)).1 he).1.trans (powerHeight_mono hl.le)) hheight hfactors
  refine ⟨hgrown.height_le, fun he ↦ ?_⟩
  obtain rfl := hgrown.eq_of_isCallable he
  exact hcallable he

/-- A chain of operators of a level, from a bound for its operands. -/
theorem operation_readsUpTo {level : Level}
    (h : ∀ l ≤ left,
      ReadsUpTo (K := K) (operandHeight level l) (callHeight l) (operand limit level l)) :
    ReadsUpTo (K := K) (operandHeight level left + left) (callHeight left)
      (operation limit level left) := by
  intro ts us e he
  obtain ⟨first, vs, hfirst, hoperations⟩ := operation_eq_ok.1 he
  obtain ⟨hheight, hcallable⟩ := h left (Nat.le_refl left) hfirst
  have hgrown := operations_grown (fun l hl ts us e he ↦
    (h l hl.le he).1.trans (operandHeight_mono level hl.le)) hheight hoperations
  refine ⟨hgrown.height_le, fun he ↦ ?_⟩
  obtain rfl := hgrown.eq_of_isCallable he
  exact hcallable he

theorem operand_readsUpTo (level : Level) (h : ExpressionsUpTo K limit left) :
    ReadsUpTo (K := K) (operandHeight level left) (callHeight left) (operand limit level left) := by
  have hproduct : ∀ l ≤ left,
      ReadsUpTo (K := K) (operandHeight .product l) (callHeight l) (operand limit .product l) := by
    intro l hl ts us e he
    rw [operand] at he
    rw [operandHeight, Level.chains, Nat.one_mul]
    exact implicit_readsUpTo (h.mono hl) he
  have hsum : ∀ l ≤ left,
      ReadsUpTo (K := K) (operandHeight .sum l) (callHeight l) (operand limit .sum l) := by
    intro l hl ts us e he
    rw [operand] at he
    rw [← operandHeight_product_add]
    exact operation_readsUpTo (fun k hk ↦ hproduct k (hk.trans hl)) he
  cases level with
  | product => exact hproduct left (Nat.le_refl left)
  | sum => exact hsum left (Nat.le_refl left)
  | comparison =>
    intro ts us e he
    rw [operand] at he
    rw [← operandHeight_sum_add]
    exact operation_readsUpTo hsum he

theorem expression_readsUpTo (limit left : Nat) :
    ReadsUpTo (K := K) (maxHeight left) (callHeight (left - 1)) (expression limit left) := by
  -- The readers below need the bound for parentheses and arguments with as many levels as they have
  -- themselves, which is one less than here.
  induction left using Nat.strongRecOn with
  | ind left ih =>
    intro ts us e he
    obtain ⟨l, value, vs, rfl, hvalue, hconversions⟩ := expression_eq_ok.1 he
    have h : ExpressionsUpTo K limit l := fun k hk ↦ ih k (Nat.lt_succ_of_le hk)
    obtain ⟨hheight, hcallable⟩ := operation_readsUpTo
      (fun k hk ↦ operand_readsUpTo .comparison (h.mono hk)) hvalue
    have hgrown := conversions_grown hheight hconversions
    refine ⟨?_, fun he ↦ ?_⟩
    · have := hgrown.height_le
      rw [maxHeight_succ]
      rw [operandHeight, Level.chains] at this
      omega
    · obtain rfl := hgrown.eq_of_isCallable he
      exact hcallable he

/-! ### Lines -/

omit [Scalar K] in
theorem Action.exprs_of_ofEquation? {target value : Expr K} {a : Action K}
    (h : Action.ofEquation? target value = .ok a) : a.exprs = [value] := by
  rw [Action.ofEquation?.eq_def] at h
  split at h
  · obtain rfl := Except.ok.inj h
    rfl
  · split at h
    · obtain rfl := Except.ok.inj h
      rfl
    · contradiction
  · contradiction

/-- The expressions of a line have been read with all levels. -/
theorem exists_expression_of_action {ts us : Tokens K} {a : Action K}
    (h : action limit ts = .ok (a, us)) :
    ∀ e ∈ a.exprs, ∃ vs ws, expression limit limit vs = .ok (e, ws) := by
  intro e he
  rcases action_eq_ok.1 h with
    ⟨-, rfl, -⟩ | ⟨-, first, vs, hfirst, ⟨-, rfl, -⟩ | ⟨ws, value, -, -, hvalue, ha⟩⟩
  · simp [Action.exprs] at he
  · obtain rfl := List.mem_singleton.1 he
    exact ⟨ts, vs, hfirst⟩
  · rw [Action.exprs_of_ofEquation? ha, List.mem_singleton] at he
    exact ⟨ws, us, he ▸ hvalue⟩

end Reader

/-- No expression in a line is higher than the limit allows. -/
theorem Statement.height_le_maxHeight [Scalar K] {limit : Nat} {text : String} {s : Statement K}
    (h : Statement.ofText limit text = .ok s) :
    ∀ e ∈ s.exprs, e.height ≤ Reader.maxHeight limit := by
  intro e he
  obtain ⟨ts, us, vs, -, ha, -⟩ := Statement.ofText_eq_ok.1 h
  obtain ⟨_, _, he⟩ := Reader.exists_expression_of_action ha e he
  exact (Reader.expression_readsUpTo limit limit he).1

end Reckoner
