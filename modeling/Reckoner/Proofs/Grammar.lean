import Mathlib.Order.Nat
import Reckoner.Proofs.Readers

/-!
# The grammar of expressions

The productions of the grammar as rules of derivation: `Derives s w x` says that the tokens `w` are a
phrase of kind `s`, and that `x` is a tree of this phrase. A repetition is a rule that puts one more
piece behind a phrase, so that chains of operators lean to the left as their trees do.

The grammar is ambiguous. In `f (2)` the parentheses may hold the arguments of a call or a second
factor, and in `a ^ b (2)` they may belong to the exponent or to the whole power. The readers decide
such cases without looking further than one token, in favour of the innermost reader.

In this module the readers are shown to be sound: what they read is a phrase of their kind, of which
they give a tree. A reader looks at the token behind its phrase, and so the tokens that it leaves do
not begin with a character that starts none; `Tokens.Read` carries this along.
-/

namespace Reckoner

variable {K : Type}

/-! ### Phrases -/

/-- The kinds of phrases. -/
inductive Nonterminal where
  /-- A comparison with the conversions behind it. -/
  | expression
  /-- Operands joined by operators of a level. -/
  | operation (level : Level)
  | operand (level : Level)
  | implicit
  | unary
  | power
  /-- A primary with the argument lists behind it. -/
  | application
  | primary
  /-- The expressions in an argument list, one or more. -/
  | arguments
  /-- The target of a conversion, or the rest of one; the flag says whether its first factor is
  divided by. -/
  | target (divided : Bool)
  | factor (divided : Bool)
deriving DecidableEq, Repr

/-- What the phrases of a kind stand for. -/
abbrev Nonterminal.Tree (K : Type) : Nonterminal → Type
  | arguments => List (Expr K)
  | target _ => List UnitPower
  | factor _ => UnitPower
  | _ => Expr K

/-- The power of a factor of a target, from the exponent that is written. -/
def UnitPower.ofExponent (name : String) (divided : Bool) (n : Int) : UnitPower :=
  ⟨name, if divided then -n else n⟩

/-- **The grammar of expressions**, with its trees. Two rules ask for more than their phrases: an
argument list follows only what can be called, and the exponent in a target is a whole number within
the limit. -/
inductive Derives [Scalar K] : (s : Nonterminal) → List (Token K) → s.Tree K → Prop where
  -- Expression ::= Comparison ( ( "to" | "in" ) Target )*
  | comparison {w e} : Derives (.operation .comparison) w e → Derives .expression w e
  | converted {w e v target} : Derives .expression w e → Derives (.target false) v target →
      Derives .expression (w ++ .into :: v) (.convert e target)
  -- Comparison, Sum, Product ::= Operand ( Operator Operand )*
  | first {level w e} : Derives (.operand level) w e → Derives (.operation level) w e
  | joined {level w e t op v f} : Derives (.operation level) w e → level.operator? t = some op →
      Derives (.operand level) v f → Derives (.operation level) (w ++ t :: v) (.binary op e f)
  | sum {w e} : Derives (.operation .sum) w e → Derives (.operand .comparison) w e
  | product {w e} : Derives (.operation .product) w e → Derives (.operand .sum) w e
  | implicit {w e} : Derives .implicit w e → Derives (.operand .product) w e
  -- Implicit ::= Unary Power*
  | unary {w e} : Derives .unary w e → Derives .implicit w e
  | juxtaposed {w e v f} : Derives .implicit w e → Derives .power v f →
      Derives .implicit (w ++ v) (.binary .multiply e f)
  -- Unary ::= ( "+" | "-" ) Unary | Power
  | signed {t sign w e} : t.sign? = some sign → Derives .unary w e →
      Derives .unary (t :: w) (.signed sign e)
  | power {w e} : Derives .power w e → Derives .unary w e
  -- Power ::= Application ( ( "**" | "^" ) Unary )?
  | application {w e} : Derives .application w e → Derives .power w e
  | raised {w e t v f} : Derives .application w e → t.isPower = true → Derives .unary v f →
      Derives .power (w ++ t :: v) (.binary .power e f)
  -- Application ::= Primary ( "(" Arguments? ")" )*
  | primary {w e} : Derives .primary w e → Derives .application w e
  | called {w e} : Derives .application w e → e.isCallable = true →
      Derives .application (w ++ [.leftParen, .rightParen]) (.call e [])
  | calledWith {w e v args} : Derives .application w e → e.isCallable = true →
      Derives .arguments v args →
      Derives .application (w ++ .leftParen :: v ++ [.rightParen]) (.call e args)
  -- Arguments ::= Expression ( "," Expression )*
  | argument {w e} : Derives .expression w e → Derives .arguments w [e]
  | more {w e v args} : Derives .expression w e → Derives .arguments v args →
      Derives .arguments (w ++ .comma :: v) (e :: args)
  -- Primary ::= Number | Name | "(" Expression ")"
  | number {value} : Derives .primary [.number value] (.number value)
  | name {name} : Derives .primary [.name name] (.symbol name)
  | parenthesized {w e} : Derives .expression w e →
      Derives .primary (.leftParen :: w ++ [.rightParen]) e
  -- Target ::= Factor ( ( "*" | "/" ) Factor )*
  | factor {divided w u} : Derives (.factor divided) w u → Derives (.target divided) w [u]
  | factors {divided w u t next v us} : Derives (.factor divided) w u →
      t.joinsFactors? = some next → Derives (.target next) v us →
      Derives (.target divided) (w ++ t :: v) (u :: us)
  -- Factor ::= Name ( ( "**" | "^" ) "-"? Number )?
  | unit {divided name} : Derives (.factor divided) [.name name] (.ofExponent name divided 1)
  | unitPower {divided name t value n} : t.isPower = true → Scalar.integer? value = some n →
      n ≤ Reader.maxUnitExponent →
      Derives (.factor divided) [.name name, t, .number value] (.ofExponent name divided n)
  | unitNegativePower {divided name t value n} : t.isPower = true →
      Scalar.integer? value = some n → n ≤ Reader.maxUnitExponent →
      Derives (.factor divided) [.name name, t, .minus, .number value]
        (.ofExponent name divided (-n))

/-! ### What has been read -/

namespace Tokens

/-- Tokens with others in front of them. -/
def prepend (w : List (Token K)) (us : Tokens K) : Tokens K := w.foldr more us

theorem prepend_append (v w : List (Token K)) (us : Tokens K) :
    prepend (v ++ w) us = prepend v (prepend w us) :=
  List.foldr_append

theorem length_prepend (w : List (Token K)) (us : Tokens K) :
    (prepend w us).length = w.length + us.length := by
  induction w with
  | nil => rw [List.length_nil, Nat.zero_add]; rfl
  | cons t w ih =>
    have hcons : (prepend (t :: w) us).length = (prepend w us).length + 1 := rfl
    rw [hcons, ih, List.length_cons]
    omega

/-- The tokens `w` have been read, and what is behind them has been looked at. -/
structure Read (ts : Tokens K) (w : List (Token K)) (us : Tokens K) : Prop where
  eq : ts = us.prepend w
  looked : us.look = .ok us

variable {ts us vs : Tokens K} {v w : List (Token K)} {t : Token K}

theorem Read.append (h : Read ts w us) (h' : Read us v vs) : Read ts (w ++ v) vs := by
  refine ⟨?_, h'.looked⟩
  rw [h.eq, h'.eq, prepend_append]

theorem Read.length_le (h : Read ts w us) : us.length ≤ ts.length := by
  rw [h.eq, length_prepend]
  omega

/-- A step reads the token that was next. -/
theorem read_of_advance (hpeek : ts.peek = some t) (h : ts.advance = .ok us) :
    Read ts [t] us := by
  cases ts with
  | done => contradiction
  | broken e => contradiction
  | more t' rest =>
    obtain rfl : t' = t := Option.some.inj hpeek
    obtain rfl : us = rest := eq_of_look h
    exact ⟨rfl, h⟩

end Tokens

/-- A phrase of a kind has been read, of which `x` is a tree. -/
def Parsed [Scalar K] (s : Nonterminal) (ts : Tokens K) (x : s.Tree K) (us : Tokens K) : Prop :=
  ∃ w, ts.Read w us ∧ Derives s w x

namespace Parsed

variable [Scalar K] {ts us vs ws xs : Tokens K} {e f : Expr K} {t : Token K}

theorem length_le {s : Nonterminal} {x : s.Tree K} (h : Parsed s ts x us) :
    us.length ≤ ts.length := by
  obtain ⟨w, hread, -⟩ := h
  exact hread.length_le

/-- A production with one phrase. -/
theorem map {s s' : Nonterminal} {x : s.Tree K} {y : s'.Tree K}
    (hrule : ∀ w, Derives s w x → Derives s' w y) (h : Parsed s ts x us) : Parsed s' ts y us := by
  obtain ⟨w, hread, hw⟩ := h
  exact ⟨w, hread, hrule w hw⟩

/-- A production with two phrases. -/
theorem map₂ {s s' s'' : Nonterminal} {x : s.Tree K} {y : s'.Tree K} {z : s''.Tree K}
    (hrule : ∀ w v, Derives s w x → Derives s' v y → Derives s'' (w ++ v) z)
    (h : Parsed s ts x us) (h' : Parsed s' us y vs) : Parsed s'' ts z vs := by
  obtain ⟨w, hread, hw⟩ := h
  obtain ⟨v, hread', hv⟩ := h'
  exact ⟨w ++ v, hread.append hread', hrule w v hw hv⟩

/-- A production with two phrases and a token between them. -/
theorem joined {s s' s'' : Nonterminal} {x : s.Tree K} {y : s'.Tree K} {z : s''.Tree K}
    (hrule : ∀ w v, Derives s w x → Derives s' v y → Derives s'' (w ++ t :: v) z)
    (h : Parsed s ts x us) (hpeek : us.peek = some t) (hadvance : us.advance = .ok vs)
    (h' : Parsed s' vs y ws) : Parsed s'' ts z ws := by
  obtain ⟨w, hread, hw⟩ := h
  obtain ⟨v, hread', hv⟩ := h'
  have htoken := Tokens.read_of_advance hpeek hadvance
  exact ⟨w ++ ([t] ++ v), hread.append (htoken.append hread'), hrule w v hw hv⟩

theorem number {value : K} (hpeek : ts.peek = some (.number value))
    (hadvance : ts.advance = .ok us) : Parsed .primary ts (.number value) us :=
  ⟨[.number value], Tokens.read_of_advance hpeek hadvance, .number⟩

theorem name {name : String} (hpeek : ts.peek = some (.name name))
    (hadvance : ts.advance = .ok us) : Parsed .primary ts (.symbol name) us :=
  ⟨[.name name], Tokens.read_of_advance hpeek hadvance, .name⟩

theorem parenthesized (hpeek : ts.peek = some .leftParen) (hadvance : ts.advance = .ok us)
    (h : Parsed .expression us e vs) (hclosing : Reader.closing vs = .ok ws) :
    Parsed .primary ts e ws := by
  obtain ⟨w, hread, hw⟩ := h
  obtain ⟨hright, hlast⟩ := Reader.closing_eq_ok.1 hclosing
  have hopen := Tokens.read_of_advance hpeek hadvance
  have hclose := Tokens.read_of_advance hright hlast
  exact ⟨.leftParen :: w ++ [.rightParen], (hopen.append hread).append hclose, .parenthesized hw⟩

theorem signed {sign : Sign} (hpeek : ts.peek.bind Token.sign? = some sign)
    (hadvance : ts.advance = .ok us) (h : Parsed .unary us e vs) :
    Parsed .unary ts (.signed sign e) vs := by
  obtain ⟨t, ht, hsign⟩ := Option.bind_eq_some_iff.1 hpeek
  obtain ⟨w, hread, hw⟩ := h
  exact ⟨t :: w, (Tokens.read_of_advance ht hadvance).append hread, .signed hsign hw⟩

/-- The arguments between parentheses, of which there may be none. -/
theorem called {args : List (Expr K)} (h : Parsed .application ts e us)
    (hcallable : e.isCallable = true) (hpeek : us.peek = some .leftParen)
    (hadvance : us.advance = .ok vs)
    (hargs : args = [] ∧ vs = ws ∨ Parsed .arguments vs args ws)
    (hclosing : Reader.closing ws = .ok xs) : Parsed .application ts (.call e args) xs := by
  obtain ⟨w, hread, hw⟩ := h
  obtain ⟨hright, hlast⟩ := Reader.closing_eq_ok.1 hclosing
  have hopen := Tokens.read_of_advance hpeek hadvance
  have hclose := Tokens.read_of_advance hright hlast
  rcases hargs with ⟨rfl, rfl⟩ | ⟨v, hread', hv⟩
  · have hboth : Tokens.Read us [.leftParen, .rightParen] xs := hopen.append hclose
    exact ⟨w ++ [.leftParen, .rightParen], hread.append hboth, .called hw hcallable⟩
  · refine ⟨w ++ .leftParen :: v ++ [.rightParen], ?_, .calledWith hw hcallable hv⟩
    exact (hread.append (hopen.append hread')).append hclose

end Parsed

/-! ### Soundness of the readers -/

namespace Reader

/-- A reader gives trees of the phrases that it reads. -/
def Sound [Scalar K] (s : Nonterminal)
    (read : Tokens K → Except ParseError (s.Tree K × Tokens K)) : Prop :=
  ∀ ⦃ts us x⦄, read ts = .ok (x, us) → Parsed s ts x us

variable [Scalar K] {limit left : Nat}

theorem unitFactor_sound (divided : Bool) :
    Sound (K := K) (.factor divided) (unitFactor divided) := by
  intro ts us u h
  obtain ⟨name, vs, power, hname, hvs, hpower, rfl⟩ := unitFactor_eq_ok.1 h
  have hread := Tokens.read_of_advance hname hvs
  rcases hpower with ⟨-, rfl, rfl⟩ | ⟨ws, hany, hws, hexponent⟩
  · exact ⟨[.name name], hread, .unit⟩
  obtain ⟨t, ht, hsign⟩ := (Option.any_eq_true _ _).1 hany
  have hraised := hread.append (Tokens.read_of_advance ht hws)
  obtain ⟨negative, xs, value, n, hminus, hvalue, hinteger, hle, hus, rfl⟩ :=
    unitExponent_eq_ok.1 hexponent
  have hnumber := Tokens.read_of_advance hvalue hus
  rw [Tokens.advanceIf] at hminus
  split at hminus
  · rename_i hany
    obtain ⟨_, hxs, hpair⟩ := Outcome.map_eq_ok.1 hminus
    simp only [Prod.mk.injEq] at hpair
    obtain ⟨rfl, rfl⟩ := hpair
    obtain ⟨sign, hsign', hisMinus⟩ := (Option.any_eq_true _ _).1 hany
    obtain rfl : sign = .minus := by
      cases sign <;> first | rfl | contradiction
    have hread' := hraised.append ((Tokens.read_of_advance hsign' hxs).append hnumber)
    exact ⟨[.name name, t, .minus, .number value], hread',
      .unitNegativePower hsign hinteger hle⟩
  · simp only [Except.ok.injEq, Prod.mk.injEq] at hminus
    obtain ⟨rfl, rfl⟩ := hminus
    exact ⟨[.name name, t, .number value], hraised.append hnumber, .unitPower hsign hinteger hle⟩

theorem unitTarget_sound (divided : Bool) :
    Sound (K := K) (.target divided) (unitTarget divided) := by
  intro ts us target h
  induction hn : ts.length using Nat.strongRecOn generalizing divided ts target with
  | ind n ih =>
    obtain ⟨u, vs, hfactor, h⟩ := unitTarget_eq_ok.1 h
    have hparsed := unitFactor_sound divided hfactor
    rcases h with ⟨-, rfl, rfl⟩ | ⟨next, ws, more, hnext, hws, hmore, rfl⟩
    · exact hparsed.map fun w ↦ .factor
    · obtain ⟨t, ht, hjoins⟩ := Option.bind_eq_some_iff.1 hnext
      have hlt := (Tokens.length_advance ht hws).trans_le hparsed.length_le
      exact hparsed.joined (fun w v hw ↦ .factors hw hjoins) ht hws
        (ih ws.length (hn ▸ hlt) next hmore rfl)

/-- A loop that puts further pieces behind a phrase, with one level less after each of them. -/
theorem sound_of_loop {s : Nonterminal} {rs us : Tokens K} {e : s.Tree K}
    {loop : Nat → s.Tree K → Tokens K → Except ParseError (s.Tree K × Tokens K)}
    (hloop : ∀ l ≤ left, ∀ first ts, Parsed s rs first ts → loop l first ts = .ok (e, us) →
      (first = e ∧ ts = us) ∨
        ∃ k next vs, l = k + 1 ∧ Parsed s rs next vs ∧ loop k next vs = .ok (e, us))
    {first : s.Tree K} {ts : Tokens K} (hfirst : Parsed s rs first ts)
    (h : loop left first ts = .ok (e, us)) : Parsed s rs e us := by
  induction left generalizing first ts with
  | zero =>
    rcases hloop 0 (Nat.le_refl 0) first ts hfirst h with ⟨rfl, rfl⟩ | ⟨k, -, -, hk, -⟩
    · exact hfirst
    · omega
  | succ left ih =>
    rcases hloop (left + 1) (Nat.le_refl _) first ts hfirst h with
      ⟨rfl, rfl⟩ | ⟨k, next, vs, hk, hnext, h⟩
    · exact hfirst
    · obtain rfl := Nat.succ.inj hk
      exact ih (fun l hl ↦ hloop l (Nat.le_succ_of_le hl)) hnext h

theorem conversions_sound {rs ts us : Tokens K} {value e : Expr K}
    (hvalue : Parsed .expression rs value ts)
    (h : conversions limit left value ts = .ok (e, us)) : Parsed .expression rs e us := by
  refine sound_of_loop (fun l _ value ts hvalue h ↦ ?_) hvalue h
  rcases conversions_eq_ok.1 h with ⟨-, rfl, rfl⟩ | ⟨k, vs, target, ws, hk, hpeek, hvs, htarget, h⟩
  · exact .inl ⟨rfl, rfl⟩
  · have hconverted : Parsed .expression rs (.convert value target) ws :=
      hvalue.joined (fun w v ↦ .converted) hpeek hvs (unitTarget_sound false htarget)
    exact .inr ⟨k, _, ws, hk, hconverted, h⟩

theorem operations_sound {level : Level} {rs ts us : Tokens K} {first e : Expr K}
    (hoperand : ∀ l < left, Sound (K := K) (.operand level) (operand limit level l))
    (hfirst : Parsed (.operation level) rs first ts)
    (h : operations limit level left first ts = .ok (e, us)) :
    Parsed (.operation level) rs e us := by
  refine sound_of_loop (fun l hl first ts hfirst h ↦ ?_) hfirst h
  rcases operations_eq_ok.1 h with ⟨-, rfl, rfl⟩ | ⟨k, op, vs, second, ws, hk, hop, hvs, hsecond, h⟩
  · exact .inl ⟨rfl, rfl⟩
  · obtain ⟨t, ht, hop⟩ := Option.bind_eq_some_iff.1 hop
    have hjoined : Parsed (.operation level) rs (.binary op first second) ws :=
      hfirst.joined (fun w v hw ↦ .joined hw hop) ht hvs (hoperand k (by omega) hsecond)
    exact .inr ⟨k, _, ws, hk, hjoined, h⟩

theorem factors_sound {rs ts us : Tokens K} {first e : Expr K}
    (hpower : ∀ l < left, Sound (K := K) .power (power limit l))
    (hfirst : Parsed .implicit rs first ts) (h : factors limit left first ts = .ok (e, us)) :
    Parsed .implicit rs e us := by
  refine sound_of_loop (fun l hl first ts hfirst h ↦ ?_) hfirst h
  rcases factors_eq_ok.1 h with ⟨-, rfl, rfl⟩ | ⟨k, second, vs, hk, -, hsecond, h⟩
  · exact .inl ⟨rfl, rfl⟩
  · have hjuxtaposed : Parsed .implicit rs (.binary .multiply first second) vs :=
      hfirst.map₂ (fun w v ↦ .juxtaposed) (hpower k (by omega) hsecond)
    exact .inr ⟨k, _, vs, hk, hjuxtaposed, h⟩

theorem separated_sound {item : Tokens K → Except ParseError (Expr K × Tokens K)}
    (hitem : Sound .expression item) : Sound .arguments (separated item) := by
  intro ts us args h
  induction hn : ts.length using Nat.strongRecOn generalizing ts args with
  | ind n ih =>
    obtain ⟨first, vs, hfirst, h⟩ :=
      (separated_eq_ok fun _ _ _ hread ↦ (hitem hread).length_le).1 h
    have hparsed := hitem hfirst
    rcases h with ⟨-, rfl, rfl⟩ | ⟨ws, more, hcomma, hws, hmore, rfl⟩
    · exact hparsed.map fun w ↦ .argument
    · have hlt := (Tokens.length_advance hcomma hws).trans_le hparsed.length_le
      exact hparsed.joined (fun w v ↦ .more) hcomma hws (ih ws.length (hn ▸ hlt) hmore rfl)

theorem calls_sound {rs ts us : Tokens K} {callee e : Expr K}
    (hexpression : ∀ l < left, Sound (K := K) .expression (expression limit l))
    (hcallee : Parsed .application rs callee ts)
    (h : calls limit left callee ts = .ok (e, us)) : Parsed .application rs e us := by
  refine sound_of_loop (fun l hl callee ts hcallee h ↦ ?_) hcallee h
  rcases calls_eq_ok.1 h with
    ⟨-, rfl, rfl⟩ | ⟨k, vs, args, ws, xs, hk, hcallable, hparen, hvs, hargs, hclosing, h⟩
  · exact .inl ⟨rfl, rfl⟩
  · have hparsed : args = [] ∧ vs = ws ∨ Parsed .arguments vs args ws := by
      rcases argumentList_eq_ok.1 hargs with ⟨-, rfl, rfl⟩ | ⟨-, hargs⟩
      · exact .inl ⟨rfl, rfl⟩
      · exact .inr (separated_sound (hexpression k (by omega)) hargs)
    exact .inr ⟨k, _, xs, hk, hcallee.called hcallable hparen hvs hparsed hclosing, h⟩

/-- The hypothesis of the induction: the expressions that are read with at most `left` levels are
phrases. -/
def ExpressionsSound (K : Type) [Scalar K] (limit left : Nat) : Prop :=
  ∀ l ≤ left, Sound (K := K) .expression (expression limit l)

theorem ExpressionsSound.mono {l : Nat} (h : ExpressionsSound K limit left) (hl : l ≤ left) :
    ExpressionsSound K limit l :=
  fun k hk ↦ h k (hk.trans hl)

theorem primary_sound (h : ExpressionsSound K limit left) :
    Sound (K := K) .primary (primary limit left) := by
  intro ts us e he
  rcases primary_eq_ok.1 he with
    ⟨value, hpeek, hus, rfl⟩ | ⟨name, hpeek, hus, rfl⟩ | ⟨vs, ws, hpeek, hvs, he, hclosing⟩
  · exact .number hpeek hus
  · exact .name hpeek hus
  · exact .parenthesized hpeek hvs (h left (Nat.le_refl left) he) hclosing

theorem application_sound (h : ExpressionsSound K limit left) :
    Sound (K := K) .application (application limit left) := by
  intro ts us e he
  obtain ⟨callee, vs, hcallee, hcalls⟩ := application_eq_ok.1 he
  exact calls_sound (fun l hl ↦ h l hl.le) ((primary_sound h hcallee).map fun w ↦ .primary) hcalls

/-- An exponent may have a sign, and a sign stands before a power. -/
theorem power_unary_sound (h : ExpressionsSound K limit left) :
    Sound (K := K) .power (power limit left) ∧ Sound (K := K) .unary (unary limit left) := by
  induction left using Nat.strongRecOn with
  | ind left ih =>
    have hunary : ∀ l, left = l + 1 → Sound (K := K) .unary (unary limit l) := by
      rintro l rfl
      exact (ih l (Nat.lt_succ_self l) (h.mono (Nat.le_succ l))).2
    have hpower : Sound (K := K) .power (power limit left) := by
      intro ts us e he
      obtain ⟨base, vs, hbase, he⟩ := power_eq_ok.1 he
      have hparsed := application_sound h hbase
      rcases he with ⟨-, rfl, rfl⟩ | ⟨l, ws, exponent, hl, hany, hws, hexponent, rfl⟩
      · exact hparsed.map fun w ↦ .application
      · obtain ⟨t, ht, hsign⟩ := (Option.any_eq_true _ _).1 hany
        exact hparsed.joined (fun w v hw ↦ .raised hw hsign) ht hws (hunary l hl hexponent)
    refine ⟨hpower, fun ts us e he ↦ ?_⟩
    rcases unary_eq_ok.1 he with ⟨-, he⟩ | ⟨l, sign, vs, operand, hl, hsign, hvs, hoperand, rfl⟩
    · exact (hpower he).map fun w ↦ .power
    · exact .signed hsign hvs (hunary l hl hoperand)

theorem implicit_sound (h : ExpressionsSound K limit left) :
    Sound (K := K) .implicit (implicit limit left) := by
  intro ts us e he
  obtain ⟨first, vs, hfirst, hfactors⟩ := implicit_eq_ok.1 he
  have hparsed : Parsed .implicit ts first vs :=
    ((power_unary_sound h).2 hfirst).map fun w ↦ .unary
  exact factors_sound (fun l hl ↦ (power_unary_sound (h.mono hl.le)).1) hparsed hfactors

theorem operation_sound {level : Level}
    (h : ∀ l ≤ left, Sound (K := K) (.operand level) (operand limit level l)) :
    Sound (K := K) (.operation level) (operation limit level left) := by
  intro ts us e he
  obtain ⟨first, vs, hfirst, hoperations⟩ := operation_eq_ok.1 he
  have hparsed : Parsed (.operation level) ts first vs :=
    (h left (Nat.le_refl left) hfirst).map fun w ↦ .first
  exact operations_sound (fun l hl ↦ h l hl.le) hparsed hoperations

theorem operand_sound (level : Level) (h : ExpressionsSound K limit left) :
    Sound (K := K) (.operand level) (operand limit level left) := by
  have hproduct : ∀ l ≤ left, Sound (K := K) (.operand .product) (operand limit .product l) := by
    intro l hl ts us e he
    rw [operand] at he
    exact (implicit_sound (h.mono hl) he).map fun w ↦ .implicit
  have hsum : ∀ l ≤ left, Sound (K := K) (.operand .sum) (operand limit .sum l) := by
    intro l hl ts us e he
    rw [operand] at he
    exact (operation_sound (fun k hk ↦ hproduct k (hk.trans hl)) he).map fun w ↦ .product
  cases level with
  | product => exact hproduct left (Nat.le_refl left)
  | sum => exact hsum left (Nat.le_refl left)
  | comparison =>
    intro ts us e he
    rw [operand] at he
    exact (operation_sound hsum he).map fun w ↦ .sum

/-- **What is read as an expression is one.** -/
theorem expression_sound (limit left : Nat) :
    Sound (K := K) .expression (expression limit left) := by
  induction left using Nat.strongRecOn with
  | ind left ih =>
    intro ts us e he
    obtain ⟨l, value, vs, rfl, hvalue, hconversions⟩ := expression_eq_ok.1 he
    have h : ExpressionsSound K limit l := fun k hk ↦ ih k (Nat.lt_succ_of_le hk)
    have hparsed := operation_sound (fun k hk ↦ operand_sound .comparison (h.mono hk)) hvalue
    exact conversions_sound (hparsed.map fun w ↦ .comparison) hconversions

end Reader

end Reckoner
