import Mathlib.Order.Filter.AtTopBot.Basic
import Reckoner.Proofs.Grammar
import Reckoner.Proofs.TallestLines

/-!
# Every phrase is read

With enough levels the readers take every phrase of the grammar, although they never go back on a
decision and the grammar is ambiguous.

Only juxtaposition is ambiguous, since a parenthesis may go on with a call there or start a factor.
So a juxtaposed phrase is seen as what it is for a reader that does not look ahead: signs, a first
primary (`Atom`), and then pieces in any order, each of which is an argument list, a power sign with
an exponent, or a further primary (`Tail`). Wherever the readers are among these pieces, they can go
on, and at the end all pieces are taken. The one thing to be kept is that an argument list which is
not also a single expression in parentheses stands behind something that can be called. If the last
primary can be called in the derivation, then it can be called in the tree that has been built; the
converse fails, and need not hold.

The levels above are not ambiguous. What the readers take of a phrase depends on the token behind it,
which must not bind too tightly.
-/

open Filter

namespace Reckoner

variable {K : Type}

/-- Every phrase begins with a sign or with a token that starts a factor. -/
theorem Derives.exists_first [Scalar K] {s : Nonterminal} {w : List (Token K)} {x : s.Tree K}
    (h : Derives s w x) :
    ∃ t v, w = t :: v ∧ (t.startsFactor = true ∨ t.sign?.isSome = true) := by
  induction h with
  | comparison _ ih | first _ ih | sum _ ih | product _ ih | implicit _ ih | unary _ ih
  | power _ ih | application _ ih | primary _ ih | argument _ ih | factor _ ih => exact ih
  | converted _ _ ih _ | joined _ _ _ ih _ | juxtaposed _ _ ih _ | raised _ _ _ ih _
  | called _ _ ih | calledWith _ _ _ ih _ | more _ _ ih _ | factors _ _ _ ih _ =>
    obtain ⟨t, v, rfl, ht⟩ := ih
    exact ⟨t, _, rfl, ht⟩
  | signed hsign => exact ⟨_, _, rfl, .inr (Option.isSome_of_eq_some hsign)⟩
  | number | name | parenthesized | unit | unitPower | unitNegativePower =>
    exact ⟨_, _, rfl, .inl rfl⟩

/-- No phrase is empty, and none begins with a right parenthesis. -/
theorem Derives.exists_head [Scalar K] {s : Nonterminal} {w : List (Token K)} {x : s.Tree K}
    (h : Derives s w x) : ∃ t v, w = t :: v ∧ t ≠ .rightParen := by
  obtain ⟨t, v, rfl, ht⟩ := h.exists_first
  refine ⟨t, v, rfl, ?_⟩
  rintro rfl
  exact ht.elim nofun nofun

namespace Reader

/-- The tokens begin with one that starts a factor, so with no sign. -/
def StartsFactor (w : List (Token K)) : Prop := ∃ t v, w = t :: v ∧ t.startsFactor = true

theorem StartsFactor.append {w : List (Token K)} (h : StartsFactor w) (v : List (Token K)) :
    StartsFactor (w ++ v) := by
  obtain ⟨t, u, rfl, ht⟩ := h
  exact ⟨t, u ++ v, rfl, ht⟩

theorem StartsFactor.sign?_eq_none {w : List (Token K)} (h : StartsFactor w) :
    w.head?.bind Token.sign? = none := by
  obtain ⟨t, v, rfl, ht⟩ := h
  cases t with
  | number | name | leftParen => rfl
  | _ => contradiction

variable [Scalar K]

/-! ### Readers with enough levels -/

/-- With enough levels, a reader takes the tokens `ts` down to `us`. -/
def Takes {α : Type} (read : Nat → Nat → Tokens K → Except ParseError (α × Tokens K))
    (ts : List (Token K)) (x : α) (us : List (Token K)) : Prop :=
  ∀ᶠ left in atTop, ∀ limit, read limit left (.ofList ts) = .ok (x, .ofList us)

theorem eventually_of_succ {p : Nat → Prop} (h : ∀ᶠ left in atTop, p (left + 1)) :
    ∀ᶠ left in atTop, p left := by
  rw [← map_add_atTop_eq_nat 1]
  exact h

section Steps

variable {ts us vs : List (Token K)} {t : Token K} {e f : Expr K}

theorem takes_primary_number (value : K) (us : List (Token K)) :
    Takes primary (.number value :: us) (.number value) us :=
  .of_forall fun _ _ ↦ primary_eq_ok.2 (.inl ⟨value, rfl, Tokens.advance_ofList _ us, rfl⟩)

theorem takes_primary_name (name : String) (us : List (Token K)) :
    Takes primary (.name name :: us) (.symbol name) us :=
  .of_forall fun _ _ ↦ primary_eq_ok.2 (.inr (.inl ⟨name, rfl, Tokens.advance_ofList _ us, rfl⟩))

theorem closing_ofList (us : List (Token K)) :
    closing (.ofList (.rightParen :: us)) = .ok (.ofList us) :=
  closing_eq_ok.2 ⟨rfl, Tokens.advance_ofList _ us⟩

theorem takes_primary_parenthesized (h : Takes expression ts e (.rightParen :: us)) :
    Takes primary (.leftParen :: ts) e us := by
  filter_upwards [h] with left h limit
  exact primary_eq_ok.2
    (.inr (.inr ⟨_, _, rfl, Tokens.advance_ofList _ ts, h limit, closing_ofList us⟩))

theorem takes_application (hprimary : Takes primary ts e vs)
    (hcalls : Takes (fun limit left ↦ calls limit left e) vs f us) :
    Takes application ts f us := by
  filter_upwards [hprimary, hcalls] with left hprimary hcalls limit
  exact application_eq_ok.2 ⟨_, _, hprimary limit, hcalls limit⟩

theorem takes_calls_stop (h : ¬(e.isCallable = true ∧ us.head? = some .leftParen)) :
    Takes (fun limit left ↦ calls limit left e) us e us := by
  refine .of_forall fun _ _ ↦ calls_eq_ok.2 (.inl ⟨?_, rfl, rfl⟩)
  rwa [Tokens.peek_ofList]

theorem takes_calls {args : List (Expr K)} (hcallable : e.isCallable = true)
    (hargs : Takes (fun limit left ↦ argumentList (expression limit left)) ts args
      (.rightParen :: vs))
    (hcalls : Takes (fun limit left ↦ calls limit left (.call e args)) vs f us) :
    Takes (fun limit left ↦ calls limit left e) (.leftParen :: ts) f us := by
  refine eventually_of_succ ?_
  filter_upwards [hargs, hcalls] with left hargs hcalls limit
  exact calls_eq_ok.2 (.inr ⟨left, _, args, _, _, rfl, hcallable, rfl, Tokens.advance_ofList _ ts,
    hargs limit, closing_ofList vs, hcalls limit⟩)

theorem takes_power_stop (happlication : Takes application ts e us)
    (hstop : us.head?.any Token.isPower = false) : Takes power ts e us := by
  filter_upwards [happlication] with left happlication limit
  refine power_eq_ok.2 ⟨_, _, happlication limit, .inl ⟨?_, rfl, rfl⟩⟩
  rwa [Tokens.peek_ofList]

theorem takes_power (hpower : t.isPower = true) (happlication : Takes application ts e (t :: vs))
    (hunary : Takes unary vs f us) : Takes power ts (.binary .power e f) us := by
  refine eventually_of_succ ?_
  filter_upwards [(tendsto_add_atTop_nat 1).eventually happlication, hunary] with
    left happlication hunary limit
  exact power_eq_ok.2 ⟨_, _, happlication limit,
    .inr ⟨left, _, _, rfl, hpower, Tokens.advance_ofList t vs, hunary limit, rfl⟩⟩

theorem takes_unary_power (hpower : Takes power ts e us)
    (hsign : ts.head?.bind Token.sign? = none) : Takes unary ts e us := by
  filter_upwards [hpower] with left hpower limit
  refine unary_eq_ok.2 (.inl ⟨?_, hpower limit⟩)
  rwa [Tokens.peek_ofList]

theorem takes_unary_signed {sign : Sign} (hsign : t.sign? = some sign)
    (hunary : Takes unary ts e us) : Takes unary (t :: ts) (.signed sign e) us := by
  refine eventually_of_succ ?_
  filter_upwards [hunary] with left hunary limit
  exact unary_eq_ok.2
    (.inr ⟨left, sign, _, _, rfl, hsign, Tokens.advance_ofList t ts, hunary limit, rfl⟩)

theorem takes_implicit (hunary : Takes unary ts e vs)
    (hfactors : Takes (fun limit left ↦ factors limit left e) vs f us) :
    Takes implicit ts f us := by
  filter_upwards [hunary, hfactors] with left hunary hfactors limit
  exact implicit_eq_ok.2 ⟨_, _, hunary limit, hfactors limit⟩

theorem takes_factors {g : Expr K} (hstarts : ts.head?.any Token.startsFactor = true)
    (hpower : Takes power ts f vs)
    (hfactors : Takes (fun limit left ↦ factors limit left (.binary .multiply e f)) vs g us) :
    Takes (fun limit left ↦ factors limit left e) ts g us := by
  refine eventually_of_succ ?_
  filter_upwards [hpower, hfactors] with left hpower hfactors limit
  refine factors_eq_ok.2 (.inr ⟨left, f, _, rfl, ?_, hpower limit, hfactors limit⟩)
  rwa [Tokens.peek_ofList]

theorem takes_operand_product (h : Takes implicit ts e us) :
    Takes (fun limit left ↦ operand limit .product left) ts e us := by
  filter_upwards [h] with left h limit
  rw [operand]
  exact h limit

theorem takes_operand_sum (h : Takes (fun limit left ↦ operation limit .product left) ts e us) :
    Takes (fun limit left ↦ operand limit .sum left) ts e us := by
  filter_upwards [h] with left h limit
  rw [operand]
  exact h limit

theorem takes_operand_comparison
    (h : Takes (fun limit left ↦ operation limit .sum left) ts e us) :
    Takes (fun limit left ↦ operand limit .comparison left) ts e us := by
  filter_upwards [h] with left h limit
  rw [operand]
  exact h limit

theorem takes_operation {level : Level}
    (hoperand : Takes (fun limit left ↦ operand limit level left) ts e vs)
    (hoperations : Takes (fun limit left ↦ operations limit level left e) vs f us) :
    Takes (fun limit left ↦ operation limit level left) ts f us := by
  filter_upwards [hoperand, hoperations] with left hoperand hoperations limit
  exact operation_eq_ok.2 ⟨_, _, hoperand limit, hoperations limit⟩

theorem takes_operations {level : Level} {op : Operator} {g : Expr K}
    (hop : level.operator? t = some op)
    (hoperand : Takes (fun limit left ↦ operand limit level left) ts f vs)
    (hoperations : Takes (fun limit left ↦ operations limit level left (.binary op e f)) vs g us) :
    Takes (fun limit left ↦ operations limit level left e) (t :: ts) g us := by
  refine eventually_of_succ ?_
  filter_upwards [hoperand, hoperations] with left hoperand hoperations limit
  exact operations_eq_ok.2 (.inr ⟨left, op, _, f, _, rfl, hop, Tokens.advance_ofList t ts,
    hoperand limit, hoperations limit⟩)

theorem takes_expression
    (hoperation : Takes (fun limit left ↦ operation limit .comparison left) ts e vs)
    (hconversions : Takes (fun limit left ↦ conversions limit left e) vs f us) :
    Takes expression ts f us := by
  refine eventually_of_succ ?_
  filter_upwards [hoperation, hconversions] with left hoperation hconversions limit
  exact expression_eq_ok.2 ⟨left, _, _, rfl, hoperation limit, hconversions limit⟩

theorem takes_conversions {target : List UnitPower}
    (htarget : unitTarget false (.ofList ts) = .ok (target, .ofList vs))
    (hconversions : Takes (fun limit left ↦ conversions limit left (.convert e target)) vs f us) :
    Takes (fun limit left ↦ conversions limit left e) (.into :: ts) f us := by
  refine eventually_of_succ ?_
  filter_upwards [hconversions] with left hconversions limit
  exact conversions_eq_ok.2 (.inr ⟨left, _, target, _, rfl, rfl, Tokens.advance_ofList _ ts, htarget,
    hconversions limit⟩)

end Steps

/-! ### Juxtaposition, as a reader meets it -/

/-- The tokens are read as an expression in front of a token that ends one; if `c` is set, then as one
that can be called. -/
def ReadsExpression (c : Bool) (w : List (Token K)) : Prop :=
  (∃ t v, w = t :: v ∧ t ≠ .rightParen) ∧
    ∀ us, headBinding us = 0 →
      ∃ e, (c = true → e.isCallable = true) ∧ Takes expression (w ++ us) e us

/-- The tokens are read as arguments in front of a right parenthesis. -/
def ReadsArguments (w : List (Token K)) : Prop :=
  ∀ us, ∃ args, Takes (fun limit left ↦ argumentList (expression limit left))
    (w ++ .rightParen :: us) args (.rightParen :: us)

/-- The tokens of a primary, and whether it can be called. -/
inductive Atom : Bool → List (Token K) → Prop where
  | number (value : K) : Atom false [.number value]
  | name (name : String) : Atom true [.name name]
  | parenthesized {c : Bool} {w : List (Token K)} : ReadsExpression c w →
      Atom c (.leftParen :: w ++ [.rightParen])

/-- Tokens of signs. -/
def Signs (s : List (Token K)) : Prop := ∀ t ∈ s, ∃ sign, t.sign? = some sign

/-- The pieces that may follow a primary, if it can be called or not. -/
inductive Tail : Bool → List (Token K) → Prop where
  | nil {c : Bool} : Tail c []
  | group {w t : List (Token K)} : ReadsArguments w → Tail true t →
      Tail true (.leftParen :: w ++ .rightParen :: t)
  | power {c d : Bool} {p : Token K} {s a t : List (Token K)} : p.isPower = true → Signs s →
      Atom d a → Tail d t → Tail c (p :: (s ++ a ++ t))
  | atom {c d : Bool} {a t : List (Token K)} : Atom d a → Tail d t → Tail c (a ++ t)

/-- A further primary with what follows it, or nothing. -/
def Factors (t : List (Token K)) : Prop :=
  t = [] ∨ ∃ d a r, t = a ++ r ∧ Atom d a ∧ Tail d r

/-- A power sign with what follows it. -/
def Exponent (t : List (Token K)) : Prop :=
  ∃ p s d a r, t = p :: (s ++ a ++ r) ∧ p.isPower = true ∧ Signs s ∧ Atom d a ∧ Tail d r

/-- What `separated_eq_ok` says of expressions, which are not read backwards. -/
theorem separated_expression_eq_ok (limit left : Nat) {ts us : Tokens K} {args : List (Expr K)} :
    separated (expression limit left) ts = .ok (args, us) ↔
      ∃ first vs, expression limit left ts = .ok (first, vs) ∧
        ((vs.peek ≠ some .comma ∧ [first] = args ∧ vs = us) ∨
        ∃ ws more, vs.peek = some .comma ∧ vs.advance = .ok ws ∧
          separated (expression limit left) ws = .ok (more, us) ∧ first :: more = args) :=
  separated_eq_ok fun _ _ _ h ↦ (expression_sound limit left h).length_le

theorem takes_separated_single {ts us : List (Token K)} {e : Expr K} (he : Takes expression ts e us)
    (hus : us.head? ≠ some .comma) :
    Takes (fun limit left ↦ separated (expression limit left)) ts [e] us := by
  filter_upwards [he] with left he limit
  refine (separated_expression_eq_ok limit left).2 ⟨e, _, he limit, .inl ⟨?_, rfl, rfl⟩⟩
  rwa [Tokens.peek_ofList]

theorem takes_separated_cons {ts us vs : List (Token K)} {e : Expr K} {args : List (Expr K)}
    (he : Takes expression ts e (.comma :: vs))
    (hargs : Takes (fun limit left ↦ separated (expression limit left)) vs args us) :
    Takes (fun limit left ↦ separated (expression limit left)) ts (e :: args) us := by
  filter_upwards [he, hargs] with left he hargs limit
  exact (separated_expression_eq_ok limit left).2 ⟨e, _, he limit,
    .inr ⟨_, args, rfl, Tokens.advance_ofList _ vs, hargs limit, rfl⟩⟩

theorem takes_argumentList {ts us : List (Token K)} {args : List (Expr K)}
    (hts : ts.head? ≠ some .rightParen)
    (hargs : Takes (fun limit left ↦ separated (expression limit left)) ts args us) :
    Takes (fun limit left ↦ argumentList (expression limit left)) ts args us := by
  filter_upwards [hargs] with left hargs limit
  refine argumentList_eq_ok.2 (.inr ⟨?_, hargs limit⟩)
  rwa [Tokens.peek_ofList]

theorem takes_argumentList_nil (us : List (Token K)) :
    Takes (fun limit left ↦ argumentList (expression limit left)) (.rightParen :: us) []
      (.rightParen :: us) :=
  .of_forall fun _ _ ↦ argumentList_eq_ok.2 (.inl ⟨rfl, rfl, rfl⟩)

theorem ReadsExpression.arguments {c : Bool} {w : List (Token K)} (h : ReadsExpression c w) :
    ReadsArguments w := by
  intro us
  obtain ⟨⟨t, v, rfl, ht⟩, h⟩ := h
  obtain ⟨e, -, he⟩ := h (.rightParen :: us) rfl
  have hone := takes_separated_single he nofun
  exact ⟨[e], takes_argumentList (fun hhead ↦ ht (Option.some.inj hhead)) hone⟩

theorem Atom.startsFactor {c : Bool} {a : List (Token K)} (h : Atom c a) : StartsFactor a := by
  cases h <;> exact ⟨_, _, rfl, rfl⟩

theorem Atom.takes_primary {c : Bool} {a : List (Token K)} (h : Atom c a) (us : List (Token K)) :
    ∃ e, (c = true → e.isCallable = true) ∧ Takes primary (a ++ us) e us := by
  cases h with
  | number value => exact ⟨.number value, nofun, takes_primary_number value us⟩
  | name name => exact ⟨.symbol name, fun _ ↦ rfl, takes_primary_name name us⟩
  | parenthesized h =>
    obtain ⟨e, hcallable, he⟩ := h.2 (.rightParen :: us) rfl
    refine ⟨e, hcallable, ?_⟩
    rw [List.cons_append, List.cons_append, List.append_assoc]
    exact takes_primary_parenthesized he

section

variable {us : List (Token K)}

/-- The argument lists that follow are taken, until a power sign or a further primary comes. -/
theorem Tail.exists_takes_calls (hus : headBinding us ≤ 4) {c : Bool} {t : List (Token K)}
    (h : Tail c t) {callee : Expr K} (hcallee : c = true → callee.isCallable = true) :
    ∃ e r, r.length ≤ t.length ∧ (Factors r ∨ Exponent r) ∧
      Takes (fun limit left ↦ calls limit left callee) (t ++ us) e (r ++ us) := by
  induction hn : t.length using Nat.strongRecOn generalizing c t callee with
  | ind n ih =>
    -- An argument list, for which the callee has to be one.
    have hgroup : ∀ {d : Bool} {w r : List (Token K)}, t = .leftParen :: w ++ .rightParen :: r →
        callee.isCallable = true → ReadsArguments w → Tail d r →
        ∃ e r, r.length ≤ n ∧ (Factors r ∨ Exponent r) ∧
          Takes (fun limit left ↦ calls limit left callee) (t ++ us) e (r ++ us) := by
      rintro d w r rfl hcallable hw hr
      have hlt : r.length < n := by
        rw [← hn]
        simp only [List.length_append, List.length_cons]
        omega
      obtain ⟨args, hargs⟩ := hw (r ++ us)
      have hcall : (Expr.call callee args).isCallable = true := rfl
      obtain ⟨e, r', hle, hr', he⟩ := ih r.length hlt hr (fun _ ↦ hcall) rfl
      refine ⟨e, r', hle.trans hlt.le, hr', ?_⟩
      rw [List.append_assoc, List.cons_append, List.cons_append]
      exact takes_calls hcallable hargs he
    have hstop : ¬(callee.isCallable = true ∧ (t ++ us).head? = some .leftParen) →
        Factors t ∨ Exponent t →
        ∃ e r, r.length ≤ n ∧ (Factors r ∨ Exponent r) ∧
          Takes (fun limit left ↦ calls limit left callee) (t ++ us) e (r ++ us) :=
      fun hhead ht ↦ ⟨callee, t, hn.le, ht, takes_calls_stop hhead⟩
    cases h with
    | nil =>
      have hhead : us.head? ≠ some .leftParen := head?_ne_leftParen (hus.trans (by decide))
      exact hstop (fun h ↦ hhead h.2) (.inl (.inl rfl))
    | group hw ht => exact hgroup rfl (hcallee rfl) hw ht
    | power hp hs ha ht =>
      refine hstop (fun hhead ↦ ?_) (.inr ⟨_, _, _, _, _, rfl, hp, hs, ha, ht⟩)
      obtain rfl := Option.some.inj hhead.2
      contradiction
    | atom ha ht =>
      cases ha with
      | number value =>
        exact hstop (fun hhead ↦ nomatch hhead.2) (.inl (.inr ⟨_, _, _, rfl, .number value, ht⟩))
      | name name =>
        exact hstop (fun hhead ↦ nomatch hhead.2) (.inl (.inr ⟨_, _, _, rfl, .name name, ht⟩))
      | parenthesized hw =>
        -- A primary in parentheses is an argument if there is something to be called.
        cases hcallable : callee.isCallable with
        | true => exact hgroup (by simp) hcallable hw.arguments ht
        | false =>
          refine hstop (fun hhead ↦ ?_) (.inl (.inr ⟨_, _, _, rfl, .parenthesized hw, ht⟩))
          rw [hcallable] at hhead
          exact Bool.false_ne_true hhead.1

/-- Signs are taken with the power behind them. -/
theorem Signs.exists_takes_unary {s ts : List (Token K)} (hs : Signs s) {e : Expr K}
    (hpower : Takes power ts e us) (hsign : ts.head?.bind Token.sign? = none) :
    ∃ e, Takes unary (s ++ ts) e us := by
  induction s with
  | nil => exact ⟨e, takes_unary_power hpower hsign⟩
  | cons t s ih =>
    obtain ⟨sign, ht⟩ := hs t List.mem_cons_self
    obtain ⟨f, hf⟩ := ih fun t ht ↦ hs t (List.mem_cons_of_mem _ ht)
    exact ⟨.signed sign f, takes_unary_signed ht hf⟩

/-- A primary with what follows it is taken up to a further primary: exponents belong to the power,
and what follows in an exponent belongs to the exponent. -/
theorem Atom.exists_takes_power (hus : headBinding us ≤ 4) {c : Bool} {a t : List (Token K)}
    (ha : Atom c a) (ht : Tail c t) :
    ∃ e r, r.length ≤ t.length ∧ Factors r ∧ Takes power (a ++ t ++ us) e (r ++ us) := by
  induction hn : t.length using Nat.strongRecOn generalizing c a t with
  | ind n ih =>
    obtain ⟨callee, hcallable, hcallee⟩ := ha.takes_primary (t ++ us)
    obtain ⟨base, r, hle, hr, hbase⟩ := ht.exists_takes_calls hus hcallable
    rw [← List.append_assoc] at hcallee
    have happlication : Takes application (a ++ t ++ us) base (r ++ us) :=
      takes_application hcallee hbase
    rcases hr with hr | ⟨p, s, d, b, v, rfl, hp, hs, hb, hv⟩
    · refine ⟨base, r, hn ▸ hle, hr, takes_power_stop happlication ?_⟩
      rcases hr with rfl | ⟨d, b, v, rfl, hb, -⟩
      · exact isPower_eq_false (hus.trans (by decide))
      · obtain ⟨t, v, rfl, hstarts⟩ := hb.startsFactor
        cases t <;> first | rfl | contradiction
    · have hlt : v.length < n := by
        rw [← hn]
        simp only [List.length_append, List.length_cons] at hle
        omega
      obtain ⟨e, r, hle', hr, he⟩ := ih v.length hlt hb hv rfl
      have hsign : (b ++ v ++ us).head?.bind Token.sign? = none :=
        ((hb.startsFactor.append _).append _).sign?_eq_none
      obtain ⟨exponent, hexponent⟩ := hs.exists_takes_unary he hsign
      rw [← List.append_assoc, ← List.append_assoc] at hexponent
      exact ⟨.binary .power base exponent, r, hle'.trans hlt.le, hr,
        takes_power hp happlication hexponent⟩

/-- All further primaries are taken as factors. -/
theorem Factors.exists_takes_factors (hus : headBinding us ≤ 4) {t : List (Token K)}
    (ht : Factors t) (first : Expr K) :
    ∃ e, Takes (fun limit left ↦ factors limit left first) (t ++ us) e us := by
  induction hn : t.length using Nat.strongRecOn generalizing t first with
  | ind n ih =>
    rcases ht with rfl | ⟨d, a, v, rfl, ha, hv⟩
    · exact ⟨first, .of_forall fun _ _ ↦ factors_stop first hus⟩
    · obtain ⟨second, r, hle, hr, hsecond⟩ := ha.exists_takes_power hus hv
      obtain ⟨x, u, rfl, hstarts⟩ := ha.startsFactor
      have hlt : r.length < n := by
        rw [← hn]
        simp only [List.length_append, List.length_cons]
        omega
      obtain ⟨e, he⟩ := ih r.length hlt hr (.binary .multiply first second) rfl
      exact ⟨e, takes_factors hstarts hsecond he⟩

/-- **Juxtaposed pieces are taken**, all of them. -/
theorem exists_takes_implicit (hus : headBinding us ≤ 4) {c : Bool} {s a t : List (Token K)}
    (hs : Signs s) (ha : Atom c a) (ht : Tail c t) :
    ∃ e, Takes implicit (s ++ a ++ t ++ us) e us := by
  obtain ⟨first, r, -, hr, hfirst⟩ := ha.exists_takes_power hus ht
  have hsign : (a ++ t ++ us).head?.bind Token.sign? = none :=
    ((ha.startsFactor.append _).append _).sign?_eq_none
  obtain ⟨signed, hsigned⟩ := hs.exists_takes_unary hfirst hsign
  obtain ⟨e, he⟩ := hr.exists_takes_factors hus signed
  refine ⟨e, takes_implicit ?_ he⟩
  simpa only [List.append_assoc] using hsigned

end

/-! ### What can be called -/

/-- Argument lists, one behind the other. -/
inductive Groups : List (Token K) → Prop where
  | nil : Groups []
  | cons {w g : List (Token K)} : ReadsArguments w → Groups g →
      Groups (.leftParen :: w ++ .rightParen :: g)

/-- A primary with argument lists behind it, if it can be called; `c` says whether the whole can be
called. -/
def Calls (c : Bool) (w : List (Token K)) : Prop :=
  ∃ d a g, w = a ++ g ∧ Atom d a ∧ Groups g ∧ (g ≠ [] ∨ c = true → d = true)

theorem Groups.tail {g : List (Token K)} (h : Groups g) : Tail true g := by
  induction h with
  | nil => exact .nil
  | cons hw _ ih => exact .group hw ih

theorem Groups.snoc {g w : List (Token K)} (h : Groups g) (hw : ReadsArguments w) :
    Groups (g ++ .leftParen :: w ++ [.rightParen]) := by
  induction h with
  | nil => exact .cons hw .nil
  | cons hv _ ih => simpa using Groups.cons hv ih

theorem Groups.exists_takes_calls {g us : List (Token K)} (h : Groups g)
    (hus : headBinding us ≤ 4) {callee : Expr K} (hcallee : callee.isCallable = true) :
    ∃ e, e.isCallable = true ∧
      Takes (fun limit left ↦ calls limit left callee) (g ++ us) e us := by
  induction h generalizing callee with
  | nil =>
    exact ⟨callee, hcallee, .of_forall fun _ _ ↦ calls_stop callee (hus.trans (by decide))⟩
  | @cons w g hw _ ih =>
    obtain ⟨args, hargs⟩ := hw (g ++ us)
    have hcall : (Expr.call callee args).isCallable = true := rfl
    obtain ⟨e, hcallable, he⟩ := ih hcall
    refine ⟨e, hcallable, ?_⟩
    rw [List.append_assoc, List.cons_append, List.cons_append]
    exact takes_calls hcallee hargs he

/-- What can be called is read as something that can be called. -/
theorem Calls.exists_takes_implicit {w us : List (Token K)} (h : Calls true w)
    (hus : headBinding us ≤ 4) : ∃ e, e.isCallable = true ∧ Takes implicit (w ++ us) e us := by
  obtain ⟨d, a, g, rfl, ha, hg, hd⟩ := h
  obtain rfl := hd (.inr rfl)
  obtain ⟨callee, hcallee, hprimary⟩ := ha.takes_primary (g ++ us)
  obtain ⟨e, hcallable, he⟩ := hg.exists_takes_calls hus (hcallee rfl)
  rw [← List.append_assoc] at hprimary
  have hpower : Takes power (a ++ g ++ us) e us :=
    takes_power_stop (takes_application hprimary he) (isPower_eq_false (hus.trans (by decide)))
  have hsign : (a ++ g ++ us).head?.bind Token.sign? = none :=
    ((ha.startsFactor.append _).append _).sign?_eq_none
  exact ⟨e, hcallable, takes_implicit (takes_unary_power hpower hsign)
    (.of_forall fun _ _ ↦ factors_stop e hus)⟩

/-! ### Phrases, as the readers meet them -/

/-- Signs, a primary, and pieces behind it. -/
def Juxtaposed (w : List (Token K)) : Prop :=
  ∃ s d a t, w = s ++ a ++ t ∧ Signs s ∧ Atom d a ∧ Tail d t

theorem Tail.append {c : Bool} {t v : List (Token K)} (h : Tail c t) (hv : ∀ d, Tail d v) :
    Tail c (t ++ v) := by
  induction h with
  | nil => exact hv _
  | group hw _ ih => simpa using Tail.group hw ih
  | power hp hs ha _ ih => simpa using Tail.power hp hs ha ih
  | atom ha _ ih => simpa using Tail.atom ha ih

/-- What the induction over a derivation says about its phrase: the readers take it in front of what
may stand behind such a phrase. Phrases that a loop reads are given as what remains for the loop to
do. In all cases what can be called is read as something that can be called. -/
def Readable : (s : Nonterminal) → List (Token K) → s.Tree K → Prop
  | .expression, w, e => ∀ us, headBinding us ≤ 1 →
      ∃ value, (e.isCallable = true → value.isCallable = true) ∧
        ∀ f vs, Takes (fun limit left ↦ conversions limit left value) us f vs →
          Takes expression (w ++ us) f vs
  | .operation level, w, e => ∀ us, headBinding us ≤ level.binding →
      ∃ first, (e.isCallable = true → first.isCallable = true) ∧
        ∀ f vs, Takes (fun limit left ↦ operations limit level left first) us f vs →
          Takes (fun limit left ↦ operation limit level left) (w ++ us) f vs
  | .operand level, w, e => ∀ us, headBinding us ≤ level.binding →
      ∃ f, (e.isCallable = true → f.isCallable = true) ∧
        Takes (fun limit left ↦ operand limit level left) (w ++ us) f us
  | .implicit, w, e => Juxtaposed w ∧ (e.isCallable = true → Calls true w)
  | .unary, w, e => Juxtaposed w ∧ (e.isCallable = true → Calls true w)
  | .power, w, e => (∃ d a t, w = a ++ t ∧ Atom d a ∧ Tail d t) ∧
      (e.isCallable = true → Calls true w)
  | .application, w, e => Calls e.isCallable w
  | .primary, w, e => Atom e.isCallable w
  | .arguments, w, _ => ∀ us, ∃ args,
      Takes (fun limit left ↦ separated (expression limit left)) (w ++ .rightParen :: us) args
        (.rightParen :: us)
  | .target divided, w, _ => ∀ us, headBinding us ≤ 3 →
      ∃ target, unitTarget divided (.ofList (w ++ us)) = .ok (target, .ofList us)
  | .factor divided, w, _ => ∀ us, headBinding us ≤ 5 →
      ∃ u, unitFactor divided (.ofList (w ++ us)) = .ok (u, .ofList us)

section

variable {w v : List (Token K)} {e f : Expr K} {t : Token K}

theorem readable_first {level : Level} (h : Readable (.operand level) w e) :
    Readable (.operation level) w e := by
  intro us hus
  obtain ⟨first, hcallable, hfirst⟩ := h us hus
  exact ⟨first, hcallable, fun f vs hf ↦ takes_operation hfirst hf⟩

theorem readable_joined {level : Level} {op : Operator} (h : Readable (.operation level) w e)
    (hop : level.operator? t = some op) (h' : Readable (.operand level) v f) :
    Readable (.operation level) (w ++ t :: v) (.binary op e f) := by
  intro us hus
  obtain ⟨second, -, hsecond⟩ := h' us hus
  obtain ⟨first, -, hfirst⟩ := h (t :: v ++ us) (Token.binding_of_operator? hop).le
  refine ⟨.binary op first second, nofun, fun g vs hg ↦ ?_⟩
  rw [List.append_assoc]
  exact hfirst g vs (takes_operations hop hsecond hg)

/-- In front of a token that binds more loosely, an operation is taken as a whole. -/
theorem Readable.exists_takes_operation {level : Level} (h : Readable (.operation level) w e)
    {us : List (Token K)} (hus : headBinding us < level.binding) :
    ∃ f, (e.isCallable = true → f.isCallable = true) ∧
      Takes (fun limit left ↦ operation limit level left) (w ++ us) f us := by
  obtain ⟨first, hcallable, hfirst⟩ := h us hus.le
  exact ⟨first, hcallable, hfirst _ _ (.of_forall fun _ _ ↦ operations_stop first hus)⟩

theorem readable_sum (h : Readable (.operation .sum) w e) :
    Readable (.operand .comparison) w e := by
  intro us hus
  obtain ⟨f, hcallable, hf⟩ := h.exists_takes_operation (Nat.lt_succ_of_le hus)
  exact ⟨f, hcallable, takes_operand_comparison hf⟩

theorem readable_product (h : Readable (.operation .product) w e) :
    Readable (.operand .sum) w e := by
  intro us hus
  obtain ⟨f, hcallable, hf⟩ := h.exists_takes_operation (Nat.lt_succ_of_le hus)
  exact ⟨f, hcallable, takes_operand_sum hf⟩

theorem readable_implicit (h : Readable .implicit w e) : Readable (.operand .product) w e := by
  intro us hus
  obtain ⟨⟨s, d, a, t, rfl, hs, ha, ht⟩, hcalls⟩ := h
  cases hcallable : e.isCallable with
  | true =>
    obtain ⟨f, hf, htakes⟩ := (hcalls hcallable).exists_takes_implicit hus
    exact ⟨f, fun _ ↦ hf, takes_operand_product htakes⟩
  | false =>
    obtain ⟨f, hf⟩ := exists_takes_implicit hus hs ha ht
    exact ⟨f, nofun, takes_operand_product hf⟩

theorem readable_comparison (h : Readable (.operation .comparison) w e) :
    Readable .expression w e := by
  intro us hus
  obtain ⟨value, hcallable, hvalue⟩ := h.exists_takes_operation (Nat.lt_succ_of_le hus)
  exact ⟨value, hcallable, fun f vs hf ↦ takes_expression hvalue hf⟩

theorem readable_converted {target : List UnitPower} (h : Readable .expression w e)
    (h' : Readable (.target false) v target) :
    Readable .expression (w ++ .into :: v) (.convert e target) := by
  intro us hus
  obtain ⟨target, htarget⟩ := h' us (hus.trans (by decide))
  obtain ⟨value, -, hvalue⟩ := h (.into :: v ++ us) (Nat.le_refl 1)
  refine ⟨.convert value target, nofun, fun f vs hf ↦ ?_⟩
  rw [List.append_assoc]
  exact hvalue f vs (takes_conversions htarget hf)

/-- An expression is taken as a whole in front of a token that ends one. -/
theorem Readable.readsExpression (h : Readable .expression w e)
    (hhead : ∃ t v, w = t :: v ∧ t ≠ .rightParen) : ReadsExpression e.isCallable w := by
  refine ⟨hhead, fun us hus ↦ ?_⟩
  obtain ⟨value, hcallable, hvalue⟩ := h us (by omega)
  exact ⟨value, hcallable, hvalue _ _ (.of_forall fun _ _ ↦ conversions_stop value (by omega))⟩

theorem readable_juxtaposed (h : Readable .implicit w e) (h' : Readable .power v f) :
    Readable .implicit (w ++ v) (.binary .multiply e f) := by
  obtain ⟨⟨s, d, a, t, rfl, hs, ha, ht⟩, -⟩ := h
  obtain ⟨⟨c, b, u, rfl, hb, hu⟩, -⟩ := h'
  refine ⟨⟨s, d, a, t ++ (b ++ u), ?_, hs, ha, ht.append fun _ ↦ .atom hb hu⟩, nofun⟩
  simp only [List.append_assoc]

theorem readable_signed {sign : Sign} (hsign : t.sign? = some sign) (h : Readable .unary w e) :
    Readable .unary (t :: w) (.signed sign e) := by
  obtain ⟨⟨s, d, a, r, rfl, hs, ha, hr⟩, -⟩ := h
  refine ⟨⟨t :: s, d, a, r, rfl, ?_, ha, hr⟩, nofun⟩
  intro x hx
  rcases List.mem_cons.1 hx with rfl | hx
  · exact ⟨sign, hsign⟩
  · exact hs x hx

theorem readable_power (h : Readable .power w e) : Readable .unary w e := by
  obtain ⟨⟨d, a, t, rfl, ha, ht⟩, hcalls⟩ := h
  exact ⟨⟨[], d, a, t, rfl, nofun, ha, ht⟩, hcalls⟩

theorem readable_application (h : Readable .application w e) : Readable .power w e := by
  refine ⟨?_, fun he ↦ he ▸ h⟩
  obtain ⟨d, a, g, rfl, ha, hg, hd⟩ := h
  refine ⟨d, a, g, rfl, ha, ?_⟩
  cases g with
  | nil => exact .nil
  | cons t g =>
    obtain rfl := hd (.inl nofun)
    exact hg.tail

theorem readable_raised (h : Readable .application w e) (hpower : t.isPower = true)
    (h' : Readable .unary v f) : Readable .power (w ++ t :: v) (.binary .power e f) := by
  obtain ⟨⟨d, a, u, rfl, ha, hu⟩, -⟩ := readable_application h
  obtain ⟨⟨s, c, b, r, rfl, hs, hb, hr⟩, -⟩ := h'
  refine ⟨⟨d, a, u ++ t :: (s ++ b ++ r), ?_, ha, hu.append fun _ ↦ .power hpower hs hb hr⟩,
    nofun⟩
  rw [List.append_assoc]

theorem readable_primary (h : Readable .primary w e) : Readable .application w e :=
  ⟨e.isCallable, w, [], (List.append_nil w).symm, h, .nil, fun hc ↦ hc.resolve_left fun h ↦ h rfl⟩

theorem readable_called {args : List (Expr K)} (h : Readable .application w e)
    (hcallable : e.isCallable = true) (hargs : ReadsArguments v) :
    Readable .application (w ++ .leftParen :: v ++ [.rightParen]) (.call e args) := by
  obtain ⟨d, a, g, rfl, ha, hg, hd⟩ := h
  refine ⟨d, a, g ++ .leftParen :: v ++ [.rightParen], ?_, ha, hg.snoc hargs, fun _ ↦ ?_⟩
  · simp only [List.append_assoc]
  · exact hd (.inr hcallable)

/-- An item of a list is taken in front of a right parenthesis. -/
theorem readable_argument (h : ReadsExpression e.isCallable w) :
    Readable .arguments w [e] := by
  intro us
  obtain ⟨f, -, hf⟩ := h.2 (.rightParen :: us) rfl
  exact ⟨[f], takes_separated_single hf nofun⟩

theorem readable_more {args : List (Expr K)} (h : ReadsExpression e.isCallable w)
    (h' : Readable .arguments v args) : Readable .arguments (w ++ .comma :: v) (e :: args) := by
  intro us
  obtain ⟨f, -, hf⟩ := h.2 (.comma :: v ++ .rightParen :: us) rfl
  obtain ⟨more, hmore⟩ := h' us
  refine ⟨f :: more, ?_⟩
  rw [List.append_assoc]
  exact takes_separated_cons hf hmore

theorem readsArguments_nil : ReadsArguments (K := K) [] :=
  fun us ↦ ⟨[], takes_argumentList_nil us⟩

theorem Readable.readsArguments {args : List (Expr K)} (h : Readable .arguments w args)
    (hhead : ∃ t v, w = t :: v ∧ t ≠ .rightParen) : ReadsArguments w := by
  intro us
  obtain ⟨t, v, rfl, ht⟩ := hhead
  obtain ⟨args, hargs⟩ := h us
  exact ⟨args, takes_argumentList (fun hhead ↦ ht (Option.some.inj hhead)) hargs⟩

/-! ### Targets -/

theorem unitFactor_name (name : String) (divided : Bool) {us : List (Token K)}
    (hus : headBinding us ≤ 5) :
    unitFactor divided (.ofList (.name name :: us)) =
      .ok (.ofExponent name divided 1, .ofList us) := by
  have hpeek : (Tokens.ofList us).peek.any Token.isPower = false := by
    rw [Tokens.peek_ofList]
    exact isPower_eq_false hus
  exact unitFactor_eq_ok.2
    ⟨name, .ofList us, 1, rfl, Tokens.advance_ofList _ us, .inl ⟨hpeek, rfl, rfl⟩, rfl⟩

/-- A name, a power sign and what is read as an exponent are a factor. -/
theorem unitFactor_power (name : String) (divided : Bool) (hpower : t.isPower = true) {n : Int}
    {ts us : List (Token K)} (h : unitExponent (.ofList ts) = .ok (n, .ofList us)) :
    unitFactor divided (.ofList (.name name :: t :: ts)) =
      .ok (.ofExponent name divided n, .ofList us) :=
  unitFactor_eq_ok.2 ⟨name, .ofList (t :: ts), n, rfl, Tokens.advance_ofList _ _,
    .inr ⟨.ofList ts, hpower, Tokens.advance_ofList _ _, h⟩, rfl⟩

theorem unitExponent_number {value : K} {n : Int} (hinteger : Scalar.integer? value = some n)
    (hle : n ≤ maxUnitExponent) (us : List (Token K)) :
    unitExponent (.ofList (.number value :: us)) = .ok (n, .ofList us) :=
  unitExponent_eq_ok.2 ⟨false, .ofList (.number value :: us), value, n, rfl, rfl, hinteger, hle,
    Tokens.advance_ofList _ us, rfl⟩

theorem unitExponent_minus {value : K} {n : Int} (hinteger : Scalar.integer? value = some n)
    (hle : n ≤ maxUnitExponent) (us : List (Token K)) :
    unitExponent (.ofList (.minus :: .number value :: us)) = .ok (-n, .ofList us) :=
  unitExponent_eq_ok.2 ⟨true, .ofList (.number value :: us), value, n, rfl, rfl, hinteger, hle,
    Tokens.advance_ofList _ us, rfl⟩

theorem readable_unit (name : String) (divided : Bool) (u : UnitPower) :
    Readable (K := K) (.factor divided) [.name name] u :=
  fun _ hus ↦ ⟨_, unitFactor_name name divided hus⟩

theorem readable_unitPower (name : String) (divided : Bool) (u : UnitPower)
    (hpower : t.isPower = true) {value : K} {n : Int} (hinteger : Scalar.integer? value = some n)
    (hle : n ≤ maxUnitExponent) :
    Readable (.factor divided) [.name name, t, .number value] u :=
  fun us _ ↦ ⟨_, unitFactor_power name divided hpower (unitExponent_number hinteger hle us)⟩

theorem readable_unitNegativePower (name : String) (divided : Bool) (u : UnitPower)
    (hpower : t.isPower = true) {value : K} {n : Int} (hinteger : Scalar.integer? value = some n)
    (hle : n ≤ maxUnitExponent) :
    Readable (.factor divided) [.name name, t, .minus, .number value] u :=
  fun us _ ↦ ⟨_, unitFactor_power name divided hpower (unitExponent_minus hinteger hle us)⟩

theorem readable_factor {divided : Bool} {u : UnitPower} (h : Readable (.factor divided) w u) :
    Readable (.target divided) w [u] := by
  intro us hus
  obtain ⟨u, hu⟩ := h us (hus.trans (by decide))
  refine ⟨[u], unitTarget_eq_ok.2 ⟨u, _, hu, .inl ⟨?_, rfl, rfl⟩⟩⟩
  rw [Tokens.peek_ofList]
  exact joinsFactors?_eq_none hus

theorem readable_factors {divided next : Bool} {u : UnitPower} {more : List UnitPower}
    (h : Readable (.factor divided) w u) (hjoins : t.joinsFactors? = some next)
    (h' : Readable (.target next) v more) :
    Readable (.target divided) (w ++ t :: v) (u :: more) := by
  intro us hus
  have hnext : headBinding (t :: v ++ us) ≤ 5 := by
    rw [headBinding_of_head? rfl, Token.binding_of_joinsFactors? hjoins]
    decide
  obtain ⟨u, hu⟩ := h (t :: v ++ us) hnext
  obtain ⟨more, hmore⟩ := h' us hus
  refine ⟨u :: more, ?_⟩
  rw [List.append_assoc]
  exact unitTarget_eq_ok.2
    ⟨u, _, hu, .inr ⟨next, _, more, hjoins, Tokens.advance_ofList t _, hmore, rfl⟩⟩

end

/-- **Every phrase is readable**, by induction on its derivation: one lemma for each rule. -/
theorem readable {s : Nonterminal} {w : List (Token K)} {x : s.Tree K} (h : Derives s w x) :
    Readable s w x := by
  induction h with
  | comparison _ ih => exact readable_comparison ih
  | converted _ _ ih ih' => exact readable_converted ih ih'
  | first _ ih => exact readable_first ih
  | joined _ hop _ ih ih' => exact readable_joined ih hop ih'
  | sum _ ih => exact readable_sum ih
  | product _ ih => exact readable_product ih
  | implicit _ ih => exact readable_implicit ih
  | unary _ ih => exact ih
  | juxtaposed _ _ ih ih' => exact readable_juxtaposed ih ih'
  | signed hsign _ ih => exact readable_signed hsign ih
  | power _ ih => exact readable_power ih
  | application _ ih => exact readable_application ih
  | raised _ hpower _ ih ih' => exact readable_raised ih hpower ih'
  | primary _ ih => exact readable_primary ih
  | @called w e _ hcallable ih =>
    have h : Readable .application (w ++ [.leftParen] ++ [.rightParen]) (.call e []) :=
      readable_called ih hcallable readsArguments_nil
    rwa [List.append_assoc] at h
  | calledWith _ hcallable hargs ih ih' =>
    exact readable_called ih hcallable (ih'.readsArguments hargs.exists_head)
  | argument he ih => exact readable_argument (ih.readsExpression he.exists_head)
  | more he _ ih ih' => exact readable_more (ih.readsExpression he.exists_head) ih'
  | number => exact .number _
  | name => exact .name _
  | parenthesized he ih => exact .parenthesized (ih.readsExpression he.exists_head)
  | factor _ ih => exact readable_factor ih
  | factors _ hjoins _ ih ih' => exact readable_factors ih hjoins ih'
  | unit => exact readable_unit _ _ _
  | unitPower hpower hinteger hle => exact readable_unitPower _ _ _ hpower hinteger hle
  | unitNegativePower hpower hinteger hle =>
    exact readable_unitNegativePower _ _ _ hpower hinteger hle

end Reader

theorem Tokens.prepend_done (w : List (Token K)) : prepend w .done = ofList w := by
  induction w with
  | nil => rfl
  | cons t w ih => exact congrArg (Tokens.more t) ih

namespace Expr

variable [Scalar K]

/-- What is read as an expression is the tree of a phrase, and the text has no other tokens. -/
theorem exists_read_of_ofText {limit : Nat} {text : String} {e : Expr K}
    (h : ofText limit text = .ok e) :
    ∃ w, Tokens.ofText text = .ofList w ∧ Derives .expression w e ∧
      Reader.expression limit limit (.ofList w) = .ok (e, .done) := by
  obtain ⟨ts, us, hts, he, hnone⟩ := ofText_eq_ok.1 h
  obtain ⟨w, hread, hw⟩ := Reader.expression_sound limit limit he
  obtain rfl := Tokens.eq_of_look hts
  -- Nothing is left, since a character that starts no token would have been met by looking.
  cases us with
  | done =>
    have htokens := hread.eq.trans (Tokens.prepend_done w)
    exact ⟨w, htokens, hw, htokens ▸ he⟩
  | broken e => exact absurd hread.looked nofun
  | more t us => contradiction

theorem exists_derives_of_ofText {limit : Nat} {text : String} {e : Expr K}
    (h : ofText limit text = .ok e) :
    ∃ w, Tokens.ofText text = .ofList w ∧ Derives .expression w e := by
  obtain ⟨w, htokens, hw, -⟩ := exists_read_of_ofText h
  exact ⟨w, htokens, hw⟩

theorem exists_ofText_eq_ok_of_derives {text : String} {w : List (Token K)} {e : Expr K}
    (htokens : Tokens.ofText text = .ofList w) (h : Derives .expression w e) :
    ∃ limit f, ofText (K := K) limit text = .ok f := by
  have hreads := ((Reader.readable h).readsExpression h.exists_head).2 [] rfl
  obtain ⟨f, -, hf⟩ := hreads
  obtain ⟨limit, hlimit⟩ := hf.exists
  rw [List.append_nil] at hlimit
  refine ⟨limit, f, ofText_eq_ok.2 ⟨.ofList w, .ofList [], ?_, hlimit limit, rfl⟩⟩
  rw [htokens, Tokens.look_ofList]

/-- **Exactly the phrases of the grammar are read**: a text is read as an expression under some limit
of depth if and only if it consists of tokens that are a phrase, and the tree that is read is always
a tree of this phrase. -/
theorem ofText_iff_derives (text : String) :
    ((∃ limit e, ofText (K := K) limit text = .ok e) ↔
      ∃ w e, Tokens.ofText (K := K) text = .ofList w ∧ Derives .expression w e) ∧
    ∀ limit (e : Expr K), ofText limit text = .ok e →
      ∃ w, Tokens.ofText text = .ofList w ∧ Derives .expression w e := by
  refine ⟨⟨?_, ?_⟩, fun limit e h ↦ exists_derives_of_ofText h⟩
  · rintro ⟨limit, e, h⟩
    obtain ⟨w, htokens, hw⟩ := exists_derives_of_ofText h
    exact ⟨w, e, htokens, hw⟩
  · rintro ⟨w, e, htokens, h⟩
    exact exists_ofText_eq_ok_of_derives htokens h

end Expr

end Reckoner
