import Reckoner.Proofs.GreedyReading

/-!
# What stands behind an expression

An expression is read in the same way at the end of a line and in front of a parenthesis that closes
or of a comma: with the same result, or with the failure that the levels are not enough
(`Reader.expression_carried`). Readers stop in front of such tokens, since these bind to nothing in
front of them. The one reader for which they mean something is that of arguments. It is told by the
end of the line that the parenthesis behind the arguments is missing, so what it does on the way to
this failure does not matter.

There is one exception. An argument list that is cut off behind its left parenthesis fails because of
the limit if no level is left for an argument, while with a right parenthesis it needs none. So the
tokens must not end in a left parenthesis (`Tokens.Closed`), and phrases never do.
-/

namespace Reckoner

variable {K α β : Type}

/-! ### Tokens behind others -/

namespace Tokens

/-- Tokens with others behind them, unless a character that starts no token comes first. -/
def followedBy : Tokens K → Tokens K → Tokens K
  | done, rest => rest
  | broken e, _ => broken e
  | more t ts, rest => more t (ts.followedBy rest)

theorem ofList_followedBy (w v : List (Token K)) :
    (ofList w).followedBy (ofList v) = ofList (w ++ v) := by
  induction w with
  | nil => rfl
  | cons t w ih => exact congrArg (more t) ih

/-- Tokens that do not end in a left parenthesis. -/
inductive Closed : Tokens K → Prop
  | done : Closed done
  | broken {e} : Closed (broken e)
  | more {t ts} : (t = .leftParen → ts ≠ done) → Closed ts → Closed (more t ts)

theorem closed_ofList {w : List (Token K)} (h : w.getLast? ≠ some .leftParen) :
    (ofList w).Closed := by
  induction w with
  | nil => exact .done
  | cons t w ih =>
    cases w with
    | nil => exact .more (fun ht ↦ absurd (congrArg some ht) h) .done
    | cons t' w => exact .more (fun _ ↦ nofun) (ih (by rwa [List.getLast?_cons_cons] at h))

/-- Tokens that begin with one that binds to nothing in front of it. -/
def Loose (rest : Tokens K) : Prop := ∃ t ts, rest = more t ts ∧ t.binding = 0

variable {ts rest : Tokens K} {t : Token K}

theorem peek_followedBy (h : ts.peek = some t) : (ts.followedBy rest).peek = some t := by
  cases ts with
  | more t' ts => exact h
  | _ => contradiction

theorem Loose.look_followedBy (h : rest.Loose) :
    (ts.followedBy rest).look = ts.look.map (·.followedBy rest) := by
  obtain ⟨t, us, rfl, -⟩ := h
  cases ts <;> rfl

/-- A test that no loose token passes is not passed by what is behind the tokens. -/
theorem Loose.any_peek (h : rest.Loose) {p : Token K → Bool} (hp : ∀ t, t.binding = 0 → p t = false) :
    (ts.followedBy rest).peek.any p = ts.peek.any p := by
  obtain ⟨t, us, rfl, ht⟩ := h
  cases ts with
  | done => exact hp t ht
  | _ => rfl

theorem Loose.bind_peek (h : rest.Loose) {p : Token K → Option β}
    (hp : ∀ t, t.binding = 0 → p t = none) :
    (ts.followedBy rest).peek.bind p = ts.peek.bind p := by
  obtain ⟨t, us, rfl, ht⟩ := h
  cases ts with
  | done => exact hp t ht
  | _ => rfl

theorem Loose.peek_eq (h : rest.Loose) (ht : t.binding ≠ 0) :
    (ts.followedBy rest).peek = some t ↔ ts.peek = some t := by
  obtain ⟨t', us, rfl, ht'⟩ := h
  cases ts with
  | done =>
    refine iff_of_false ?_ nofun
    rintro ⟨⟩
    exact ht ht'
  | _ => exact Iff.rfl

theorem matches_into {o : Option (Token K)} : (o matches some .into) = true ↔ o = some .into := by
  rcases o with - | t
  · exact iff_of_false nofun nofun
  · cases t <;> simp

theorem matches_leftParen {o : Option (Token K)} :
    (o matches some .leftParen) = true ↔ o = some .leftParen := by
  rcases o with - | t
  · exact iff_of_false nofun nofun
  · cases t <;> simp

theorem Loose.into_iff (h : rest.Loose) : ((ts.followedBy rest).peek matches some .into) = true ↔
    (ts.peek matches some .into) = true := by
  rw [matches_into, matches_into]
  exact h.peek_eq Nat.one_ne_zero

theorem Loose.leftParen_iff (h : rest.Loose) :
    ((ts.followedBy rest).peek matches some .leftParen) = true ↔
      (ts.peek matches some .leftParen) = true := by
  rw [matches_leftParen, matches_leftParen]
  exact h.peek_eq (Nat.succ_ne_zero 6)

end Tokens

namespace Token

variable {t : Token K}

theorem isPower_of_binding (h : t.binding = 0) : t.isPower = false := by
  cases t <;> simp [binding, isPower] at h ⊢

theorem startsFactor_of_binding (h : t.binding = 0) : t.startsFactor = false := by
  cases t <;> simp [binding, startsFactor] at h ⊢

theorem isMinus_of_binding (h : t.binding = 0) : t.isMinus = false := by
  cases t <;> simp [binding, isMinus] at h ⊢

theorem sign?_of_binding (h : t.binding = 0) : t.sign? = none := by
  cases t <;> simp [binding, sign?] at h ⊢

theorem joinsFactors?_of_binding (h : t.binding = 0) : t.joinsFactors? = none := by
  cases t <;> simp [binding, joinsFactors?] at h ⊢

theorem operator?_of_binding (level : Level) (h : t.binding = 0) : level.operator? t = none := by
  cases level <;> cases t <;> simp [binding, Level.operator?] at h ⊢

end Token

/-- No phrase ends in a left parenthesis. -/
theorem Derives.exists_last [Scalar K] {s : Nonterminal} {w : List (Token K)} {x : s.Tree K}
    (h : Derives s w x) : ∃ t, w.getLast? = some t ∧ t ≠ .leftParen := by
  induction h with
  | comparison _ ih | first _ ih | sum _ ih | product _ ih | implicit _ ih | unary _ ih
  | power _ ih | application _ ih | primary _ ih | argument _ ih | factor _ ih => exact ih
  | converted _ _ _ ih | joined _ _ _ _ ih | juxtaposed _ _ _ ih | raised _ _ _ _ ih
  | more _ _ _ ih | factors _ _ _ _ ih | signed _ _ ih =>
    obtain ⟨t, hlast, ht⟩ := ih
    refine ⟨t, ?_, ht⟩
    simp only [List.getLast?_append, List.getLast?_cons, hlast, Option.getD_some, Option.some_or]
  | called | calledWith | parenthesized =>
    exact ⟨.rightParen, by rw [List.getLast?_append]; rfl, nofun⟩
  | number | name | unit | unitPower | unitNegativePower => exact ⟨_, rfl, nofun⟩

theorem Derives.closed [Scalar K] {s : Nonterminal} {w : List (Token K)} {x : s.Tree K}
    (h : Derives s w x) : (Tokens.ofList w).Closed := by
  obtain ⟨t, hlast, ht⟩ := h.exists_last
  refine Tokens.closed_ofList ?_
  rw [hlast]
  exact fun h ↦ ht (Option.some.inj h)

/-! ### Outcomes of readers -/

namespace Reader

/-- **The second outcome is the first one** with more tokens left, if that is a result or says that the
limit has been exceeded; nothing is said about other failures. What is left does not end in a left
parenthesis. -/
inductive Carries (limit : Nat) (rest : Tokens K) :
    Except ParseError (α × Tokens K) → Except ParseError (α × Tokens K) → Prop
  | ok (a : α) {us : Tokens K} : us.Closed →
      Carries limit rest (.ok (a, us)) (.ok (a, us.followedBy rest))
  | tooDeep : Carries limit rest (.error (.tooDeep limit)) (.error (.tooDeep limit))
  | error {e : ParseError} {y : Except ParseError (α × Tokens K)} : e ≠ .tooDeep limit →
      Carries limit rest (.error e) y

namespace Carries

variable {limit : Nat} {rest ts : Tokens K}

theorem same (e : ParseError) : Carries (α := α) limit rest (.error e) (.error e) := by
  by_cases h : e = .tooDeep limit
  · rw [h]
    exact .tooDeep
  · exact .error h

theorem bind {x y : Except ParseError (α × Tokens K)}
    {f g : α × Tokens K → Except ParseError (β × Tokens K)} (h : Carries limit rest x y)
    (hnext : ∀ a us, x = .ok (a, us) → us.Closed →
      Carries limit rest (f (a, us)) (g (a, us.followedBy rest))) :
    Carries limit rest (x >>= f) (y >>= g) := by
  cases h with
  | ok a hus => exact hnext a _ rfl hus
  | tooDeep => exact .tooDeep
  | error he => exact .error he

theorem ite {c d : Prop} [Decidable c] [Decidable d] {x x' y y' : Except ParseError (α × Tokens K)}
    (hiff : d ↔ c) (h : c → Carries limit rest x y) (h' : ¬c → Carries limit rest x' y') :
    Carries limit rest (if c then x else x') (if d then y else y') := by
  by_cases hc : c
  · rw [if_pos hc, if_pos (hiff.2 hc)]
    exact h hc
  · rw [if_neg hc, if_neg (mt hiff.1 hc)]
    exact h' hc

/-- A step over a token, behind which there are others than a left parenthesis. -/
theorem advance (hrest : rest.Loose) {t : Token K} (hts : ts.Closed) (hpeek : ts.peek = some t)
    {f g : Tokens K → Except ParseError (β × Tokens K)}
    (hnext : ∀ us, us.length < ts.length → us.Closed → (t = .leftParen → us ≠ .done) →
      Carries limit rest (f us) (g (us.followedBy rest))) :
    Carries limit rest (ts.advance >>= f) ((ts.followedBy rest).advance >>= g) := by
  cases hts with
  | done => contradiction
  | broken => contradiction
  | @more t' us hparen hus =>
    obtain rfl : t' = t := Option.some.inj hpeek
    show Carries limit rest (us.look >>= f) ((us.followedBy rest).look >>= g)
    rw [hrest.look_followedBy]
    cases hlook : us.look with
    | error e => exact .same e
    | ok vs =>
      obtain rfl := Tokens.eq_of_look hlook
      exact hnext vs (Nat.lt_succ_self vs.length) hus hparen

end Carries

/-- A reader does the same with more tokens behind those that it is given. -/
def CarriedBy (limit : Nat) (rest : Tokens K)
    (read : Tokens K → Except ParseError (α × Tokens K)) : Prop :=
  ∀ ts, ts.Closed → Carries limit rest (read ts) (read (ts.followedBy rest))

section

variable {limit left : Nat} {rest ts : Tokens K}

theorem advanceIf_carried (hrest : rest.Loose) {test : Token K → Bool}
    (htest : ∀ t, t.binding = 0 → test t = false) :
    CarriedBy limit rest (Tokens.advanceIf test) := by
  intro ts hts
  rw [Tokens.advanceIf, Tokens.advanceIf, hrest.any_peek htest]
  cases hany : ts.peek.any test with
  | false => exact .ok false hts
  | true =>
    obtain ⟨t, ht, -⟩ := (Option.any_eq_true _ _).1 hany
    exact .advance hrest hts ht fun us _ hus _ ↦ .ok true hus

/-- Items separated by commas, as a chain of steps; `item` must not read backwards. -/
theorem separated_eq {item : Tokens K → Except ParseError (α × Tokens K)}
    (hitem : ∀ ⦃ts us a⦄, item ts = .ok (a, us) → us.length ≤ ts.length) (ts : Tokens K) :
    separated item ts = (do
      let (first, us) ← item ts
      if us.peek matches some .comma then do
        let (more, vs) ← separated item (← us.advance)
        .ok (first :: more, vs)
      else .ok ([first], us)) := by
  rw [separated]
  cases hfirst : item ts with
  | error e => rfl
  | ok r =>
    obtain ⟨first, us⟩ := r
    have hle := hitem hfirst
    rcases us with - | e | ⟨t, us⟩
    · rfl
    · rfl
    · cases t with
      | comma =>
        show (us.look >>= fun vs ↦ if vs.length < ts.length then _ else _) = (us.look >>= _)
        cases hus : us.look with
        | error e => rfl
        | ok vs =>
          obtain rfl := Tokens.eq_of_look hus
          exact if_pos hle
      | _ => rfl

/-- Items are read in the same way, unless they go on to the end of the tokens. -/
theorem separated_carried {item : Tokens K → Except ParseError (α × Tokens K)}
    (hrest : rest.Loose) (hlength : ∀ ⦃ts us a⦄, item ts = .ok (a, us) → us.length ≤ ts.length)
    (hitem : CarriedBy limit rest item) (hts : ts.Closed) :
    (∃ as, separated item ts = .ok (as, .done)) ∨
      Carries limit rest (separated item ts) (separated item (ts.followedBy rest)) := by
  induction hn : ts.length using Nat.strongRecOn generalizing ts with
  | ind n ih =>
    rw [separated_eq hlength, separated_eq hlength (ts.followedBy rest)]
    have hfirst := hitem ts hts
    generalize item (ts.followedBy rest) = y at hfirst ⊢
    cases hx : item ts with
    | error e =>
      rw [hx] at hfirst
      cases hfirst with
      | tooDeep => exact .inr .tooDeep
      | error he => exact .inr (.error he)
    | ok r =>
      obtain ⟨first, us⟩ := r
      have hle := hlength hx
      rw [hx] at hfirst
      cases hfirst with
      | ok _ hus =>
        cases hus with
        | done => exact .inl ⟨[first], rfl⟩
        | broken => exact .inr (.ok [first] .broken)
        | @more t vs hparen hvs =>
          cases t with
          | comma =>
            show (∃ as, (vs.look >>= _) = _) ∨
              Carries limit rest (vs.look >>= _) ((vs.followedBy rest).look >>= _)
            rw [hrest.look_followedBy]
            cases hlook : vs.look with
            | error e => exact .inr (.same e)
            | ok ws =>
              obtain rfl := Tokens.eq_of_look hlook
              have hlt : ws.length < n := hn ▸ hle
              rcases ih ws.length hlt hvs rfl with ⟨as, has⟩ | hmore
              · refine .inl ⟨first :: as, ?_⟩
                show (separated item ws >>= _) = _
                rw [has]
                rfl
              · exact .inr (hmore.bind fun more xs _ hxs ↦ .ok _ hxs)
          | _ => exact .inr (.ok [first] (.more hparen hvs))

/-- So are arguments, if there is at least one token. -/
theorem argumentList_carried {item : Tokens K → Except ParseError (α × Tokens K)}
    (hrest : rest.Loose) (hlength : ∀ ⦃ts us a⦄, item ts = .ok (a, us) → us.length ≤ ts.length)
    (hitem : CarriedBy limit rest item) (hts : ts.Closed) (hne : ts ≠ .done) :
    (∃ as, argumentList item ts = .ok (as, .done)) ∨
      Carries limit rest (argumentList item ts) (argumentList item (ts.followedBy rest)) := by
  have hseparated := separated_carried hrest hlength hitem hts
  rw [argumentList, argumentList]
  cases hts with
  | done => exact absurd rfl hne
  | broken => exact hseparated
  | @more t us hparen hus =>
    cases t with
    | rightParen => exact .inr (.ok [] (.more hparen hus))
    | _ => exact hseparated

variable [Scalar K]

/-- If the right parenthesis is missing at the end of the tokens, then what is behind them does not
matter. -/
theorem closing_carried (hrest : rest.Loose) (hts : ts.Closed)
    {f g : Tokens K → Except ParseError (β × Tokens K)}
    (hnext : ∀ us, us.Closed → Carries limit rest (f us) (g (us.followedBy rest))) :
    Carries limit rest (closing ts >>= f) (closing (ts.followedBy rest) >>= g) := by
  rw [closing, closing]
  by_cases hparen : ts.peek = some .rightParen
  · rw [hparen, Tokens.peek_followedBy hparen]
    exact .advance hrest hts hparen fun us _ hus _ ↦ hnext us hus
  · rw [if_neg]
    · exact .error (by simp)
    · split
      · contradiction
      · exact Bool.false_ne_true

/-! ### Targets of conversions -/

theorem unitExponent_carried (hrest : rest.Loose) :
    CarriedBy (K := K) limit rest unitExponent := by
  intro ts hts
  rw [unitExponent, unitExponent]
  refine (advanceIf_carried hrest (fun _ ↦ Token.isMinus_of_binding) ts hts).bind
    fun negative us _ hus ↦ ?_
  dsimp only
  split
  · rename_i value hvalue
    rw [Tokens.peek_followedBy hvalue]
    dsimp only
    split
    · exact .advance hrest hus hvalue fun vs _ hvs _ ↦ .ok _ hvs
    · exact .error (by simp)
  · exact .error (by simp)

theorem optionalExponent_carried (hrest : rest.Loose) :
    CarriedBy (K := K) limit rest optionalExponent := by
  intro ts hts
  rw [optionalExponent, optionalExponent, hrest.any_peek fun _ ↦ Token.isPower_of_binding]
  cases hany : ts.peek.any Token.isPower with
  | false => exact .ok 1 hts
  | true =>
    obtain ⟨t, ht, -⟩ := (Option.any_eq_true _ _).1 hany
    exact .advance hrest hts ht fun us _ hus _ ↦ unitExponent_carried hrest us hus

theorem unitFactor_carried (hrest : rest.Loose) (divided : Bool) :
    CarriedBy (K := K) limit rest (unitFactor divided) := by
  intro ts hts
  rw [unitFactor, unitFactor]
  split
  · rename_i name hname
    rw [Tokens.peek_followedBy hname]
    exact .advance hrest hts hname fun us _ hus _ ↦
      (optionalExponent_carried hrest us hus).bind fun power vs _ hvs ↦ .ok _ hvs
  · exact .error (by simp)

/-- The factors of a target one after the other, as a chain of steps. -/
theorem unitTarget_eq (divided : Bool) (ts : Tokens K) :
    unitTarget divided ts = (do
      let (u, us) ← unitFactor divided ts
      match us.peek.bind Token.joinsFactors? with
      | none => .ok ([u], us)
      | some next => do
        let (more, vs) ← unitTarget next (← us.advance)
        .ok (u :: more, vs)) := by
  rw [unitTarget]
  split
  · rename_i he
    rw [he]
    rfl
  · rename_i u us hu
    rw [hu]
    show _ = (match us.peek.bind Token.joinsFactors? with | none => _ | some next => _)
    split
    · rename_i hjoins
      rw [hjoins]
    · rename_i next hjoins
      rw [hjoins]
      split
      · rename_i ha
        rw [ha]
        rfl
      · rename_i vs ha
        rw [ha]
        show (unitTarget next vs).map _ = (unitTarget next vs >>= _)
        cases unitTarget next vs <;> rfl

theorem unitTarget_carried (hrest : rest.Loose) (divided : Bool) :
    CarriedBy (K := K) limit rest (unitTarget divided) := by
  intro ts hts
  induction hn : ts.length using Nat.strongRecOn generalizing divided ts with
  | ind n ih =>
    rw [unitTarget_eq, unitTarget_eq]
    refine (unitFactor_carried hrest divided ts hts).bind fun u us hfactor hus ↦ ?_
    have hlt := length_unitFactor hfactor
    dsimp only
    rw [hrest.bind_peek fun _ ↦ Token.joinsFactors?_of_binding]
    split
    · exact .ok [u] hus
    · rename_i next hjoins
      obtain ⟨t, ht, -⟩ := Option.bind_eq_some_iff.1 hjoins
      refine .advance hrest hus ht fun vs hvs hclosed _ ↦ ?_
      exact (ih vs.length (by omega) next vs hclosed rfl).bind fun more ws _ hws ↦ .ok _ hws

/-! ### Expressions -/

theorem conversions_carried (hrest : rest.Loose) (value : Expr K) :
    CarriedBy limit rest (conversions limit left value) := by
  intro ts hts
  induction left generalizing value ts with
  | zero =>
    rw [conversions.eq_def, conversions.eq_def limit 0 value (ts.followedBy rest)]
    exact .ite hrest.into_iff (fun _ ↦ .tooDeep) fun _ ↦ .ok value hts
  | succ left ih =>
    rw [conversions.eq_def, conversions.eq_def limit (left + 1) value (ts.followedBy rest)]
    refine .ite hrest.into_iff (fun hinto ↦ ?_) fun _ ↦ .ok value hts
    refine .advance hrest hts (Tokens.matches_into.1 hinto) fun us _ hus _ ↦ ?_
    refine (unitTarget_carried hrest false us hus).bind fun target vs _ hvs ↦ ?_
    exact ih (.convert value target) vs hvs

theorem length_expression ⦃limit left : Nat⦄ ⦃ts us : Tokens K⦄ ⦃e : Expr K⦄
    (h : expression limit left ts = .ok (e, us)) : us.length ≤ ts.length :=
  (expression_sound limit left h).length_le

/-- The hypothesis of the induction: the expressions that are read with at most `left` levels do not
depend on what is behind them. -/
def ExpressionsCarried (K : Type) [Scalar K] (limit left : Nat) (rest : Tokens K) : Prop :=
  ∀ l ≤ left, CarriedBy limit rest (expression (K := K) limit l)

theorem ExpressionsCarried.mono {l : Nat} (h : ExpressionsCarried K limit left rest)
    (hl : l ≤ left) : ExpressionsCarried K limit l rest :=
  fun k hk ↦ h k (hk.trans hl)

theorem primary_carried (hrest : rest.Loose) (h : ExpressionsCarried K limit left rest) :
    CarriedBy limit rest (primary (K := K) limit left) := by
  intro ts hts
  rw [primary, primary]
  split
  · rename_i value hvalue
    rw [Tokens.peek_followedBy hvalue]
    exact .advance hrest hts hvalue fun us _ hus _ ↦ .ok _ hus
  · rename_i name hname
    rw [Tokens.peek_followedBy hname]
    exact .advance hrest hts hname fun us _ hus _ ↦ .ok _ hus
  · rename_i hparen
    rw [Tokens.peek_followedBy hparen]
    refine .advance hrest hts hparen fun us _ hus _ ↦ ?_
    exact (h left le_rfl us hus).bind fun e vs _ hvs ↦
      closing_carried hrest hvs fun ws hws ↦ .ok e hws
  · exact .error (by simp)

theorem calls_carried (hrest : rest.Loose) (h : ExpressionsCarried K limit left rest)
    (callee : Expr K) : CarriedBy limit rest (calls limit left callee) := by
  have hiff {callee : Expr K} {ts : Tokens K} :
      (callee.isCallable && (ts.followedBy rest).peek matches some .leftParen) = true ↔
        (callee.isCallable && ts.peek matches some .leftParen) = true := by
    rw [Bool.and_eq_true, Bool.and_eq_true, hrest.leftParen_iff]
  intro ts hts
  induction left generalizing callee ts with
  | zero =>
    rw [calls.eq_def, calls.eq_def limit 0 callee (ts.followedBy rest)]
    exact .ite hiff (fun _ ↦ .tooDeep) fun _ ↦ .ok callee hts
  | succ left ih =>
    rw [calls.eq_def, calls.eq_def limit (left + 1) callee (ts.followedBy rest)]
    refine .ite hiff (fun hcall ↦ ?_) fun _ ↦ .ok callee hts
    have hparen := Tokens.matches_leftParen.1 (Bool.and_eq_true_iff.1 hcall).2
    refine .advance hrest hts hparen fun us _ hus hne ↦ ?_
    have hitem := h left (Nat.le_succ left)
    rcases argumentList_carried hrest (@length_expression K _ limit left) hitem hus (hne rfl) with
      ⟨args, hargs⟩ | hargs
    · -- The right parenthesis is missing.
      rw [hargs]
      exact .error (by simp)
    · refine hargs.bind fun args vs _ hvs ↦ closing_carried hrest hvs fun ws hws ↦ ?_
      exact ih (h.mono (Nat.le_succ left)) (.call callee args) ws hws

theorem application_carried (hrest : rest.Loose) (h : ExpressionsCarried K limit left rest) :
    CarriedBy limit rest (application (K := K) limit left) := by
  intro ts hts
  rw [application, application]
  exact (primary_carried hrest h ts hts).bind fun callee us _ hus ↦
    calls_carried hrest h callee us hus

/-- An exponent may have a sign, and a sign stands before a power. -/
theorem power_unary_carried (hrest : rest.Loose) (h : ExpressionsCarried K limit left rest) :
    CarriedBy limit rest (power (K := K) limit left) ∧
      CarriedBy limit rest (unary (K := K) limit left) := by
  have hstop {ts : Tokens K} :
      (ts.followedBy rest).peek.any Token.isPower = ts.peek.any Token.isPower :=
    hrest.any_peek fun _ ↦ Token.isPower_of_binding
  have hsign {ts : Tokens K} :
      (ts.followedBy rest).peek.bind Token.sign? = ts.peek.bind Token.sign? :=
    hrest.bind_peek fun _ ↦ Token.sign?_of_binding
  induction left with
  | zero =>
    have hpower : CarriedBy limit rest (power (K := K) limit 0) := by
      intro ts hts
      rw [power, power]
      refine (application_carried hrest h ts hts).bind fun base us _ hus ↦ ?_
      dsimp only
      rw [hstop]
      split
      · exact .tooDeep
      · exact .ok base hus
    refine ⟨hpower, fun ts hts ↦ ?_⟩
    rw [unary, unary, hsign]
    split
    · exact hpower ts hts
    · exact .tooDeep
  | succ left ih =>
    have hunary := (ih (h.mono (Nat.le_succ left))).2
    have hpower : CarriedBy limit rest (power (K := K) limit (left + 1)) := by
      intro ts hts
      rw [power, power]
      refine (application_carried hrest h ts hts).bind fun base us _ hus ↦ ?_
      dsimp only
      rw [hstop]
      split
      · rename_i hany
        obtain ⟨t, ht, -⟩ := (Option.any_eq_true _ _).1 hany
        exact .advance hrest hus ht fun vs _ hvs _ ↦
          (hunary vs hvs).bind fun exponent ws _ hws ↦ .ok _ hws
      · exact .ok base hus
    refine ⟨hpower, fun ts hts ↦ ?_⟩
    rw [unary.eq_def, unary.eq_def limit (left + 1) (ts.followedBy rest), hsign]
    split
    · exact hpower ts hts
    · rename_i sign hsome
      obtain ⟨t, ht, -⟩ := Option.bind_eq_some_iff.1 hsome
      exact .advance hrest hts ht fun us _ hus _ ↦
        (hunary us hus).bind fun operand vs _ hvs ↦ .ok _ hvs

theorem factors_carried (hrest : rest.Loose) (h : ExpressionsCarried K limit left rest)
    (first : Expr K) : CarriedBy limit rest (factors limit left first) := by
  have hstop {ts : Tokens K} :
      (ts.followedBy rest).peek.any Token.startsFactor = ts.peek.any Token.startsFactor :=
    hrest.any_peek fun _ ↦ Token.startsFactor_of_binding
  intro ts hts
  induction left generalizing first ts with
  | zero =>
    rw [factors.eq_def, factors.eq_def limit 0 first (ts.followedBy rest), hstop]
    split
    · exact .tooDeep
    · exact .ok first hts
  | succ left ih =>
    have hmono := h.mono (Nat.le_succ left)
    rw [factors.eq_def, factors.eq_def limit (left + 1) first (ts.followedBy rest), hstop]
    split
    · exact ((power_unary_carried hrest hmono).1 ts hts).bind fun second us _ hus ↦
        ih hmono _ us hus
    · exact .ok first hts

theorem implicit_carried (hrest : rest.Loose) (h : ExpressionsCarried K limit left rest) :
    CarriedBy limit rest (implicit (K := K) limit left) := by
  intro ts hts
  rw [implicit, implicit]
  exact ((power_unary_carried hrest h).2 ts hts).bind fun first us _ hus ↦
    factors_carried hrest h first us hus

theorem operations_carried (hrest : rest.Loose) {level : Level}
    (h : ∀ l < left, CarriedBy limit rest (operand (K := K) limit level l)) (first : Expr K) :
    CarriedBy limit rest (operations limit level left first) := by
  intro ts hts
  induction left generalizing first ts with
  | zero =>
    rw [operations.eq_def, operations.eq_def limit level 0 first (ts.followedBy rest),
      hrest.bind_peek fun _ ↦ Token.operator?_of_binding level]
    split
    · exact .ok first hts
    · exact .tooDeep
  | succ left ih =>
    rw [operations.eq_def, operations.eq_def limit level (left + 1) first (ts.followedBy rest),
      hrest.bind_peek fun _ ↦ Token.operator?_of_binding level]
    split
    · exact .ok first hts
    · rename_i op hop
      obtain ⟨t, ht, -⟩ := Option.bind_eq_some_iff.1 hop
      refine .advance hrest hts ht fun us _ hus _ ↦ ?_
      refine (h left (Nat.lt_succ_self left) us hus).bind fun second vs _ hvs ↦ ?_
      exact ih (fun l hl ↦ h l (Nat.lt_succ_of_lt hl)) (.binary op first second) vs hvs

theorem operation_carried (hrest : rest.Loose) {level : Level}
    (h : ∀ l ≤ left, CarriedBy limit rest (operand (K := K) limit level l)) :
    CarriedBy limit rest (operation (K := K) limit level left) := by
  intro ts hts
  rw [operation, operation]
  exact (h left le_rfl ts hts).bind fun first us _ hus ↦
    operations_carried hrest (fun l hl ↦ h l hl.le) first us hus

theorem operand_carried (hrest : rest.Loose) (level : Level)
    (h : ExpressionsCarried K limit left rest) :
    CarriedBy limit rest (operand (K := K) limit level left) := by
  have hproduct : ∀ l ≤ left, CarriedBy limit rest (operand (K := K) limit .product l) := by
    intro l hl ts hts
    rw [operand, operand]
    exact implicit_carried hrest (h.mono hl) ts hts
  have hsum : ∀ l ≤ left, CarriedBy limit rest (operand (K := K) limit .sum l) := by
    intro l hl ts hts
    rw [operand, operand]
    exact operation_carried hrest (fun k hk ↦ hproduct k (hk.trans hl)) ts hts
  cases level with
  | product => exact hproduct left le_rfl
  | sum => exact hsum left le_rfl
  | comparison =>
    intro ts hts
    rw [operand, operand]
    exact operation_carried hrest hsum ts hts

/-- **What is behind an expression does not matter**, if it begins with a token that binds to nothing
in front of it. -/
theorem expression_carried (limit left : Nat) (hrest : rest.Loose) :
    CarriedBy limit rest (expression (K := K) limit left) := by
  induction left using Nat.strongRecOn with
  | ind left ih =>
    intro ts hts
    rw [expression.eq_def, expression.eq_def limit left (ts.followedBy rest)]
    cases left with
    | zero => exact .tooDeep
    | succ left =>
      have h : ExpressionsCarried K limit left rest := fun l hl ↦ ih l (Nat.lt_succ_of_le hl)
      refine (operation_carried hrest (fun l hl ↦ operand_carried hrest .comparison (h.mono hl))
        ts hts).bind fun value us _ hus ↦ ?_
      exact conversions_carried hrest value us hus

end

end Reader

end Reckoner
