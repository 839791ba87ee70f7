import Reckoner.Proofs.TrailingTokens

/-!
# A parser with a counter of depth

The readers are handed the levels that are left, and what a reader does with them is over when it
returns. This module gives the parser that counts instead: one state holds the tokens and the depth,
a reader raises the depth as it goes and sets it back when it succeeds, and a reader that fails leaves
it as it is. Nothing in such a parser shows that its loops and its recursion end. So each reader is
given fuel, for the readers that may be waiting for each other, and does not come to an end where the
fuel is not enough; the passes of a loop are waited for, too.

What such a run does is said by comparison (`Parser.Mirrors`): it does what a reader does, and its books
are kept. The steps of the parser mirror the steps of the readers, and this is kept by doing one thing
after another (`Parser.Mirrors.bind`, `Parser.Mirrors.step`).
-/

namespace Reckoner

variable {K : Type}

namespace Tokens

theorem matches_rightParen {o : Option (Token K)} :
    (o matches some .rightParen) = true ↔ o = some .rightParen := by
  rcases o with - | t
  · exact iff_of_false nofun nofun
  · cases t <;> simp

theorem matches_comma {o : Option (Token K)} :
    (o matches some .comma) = true ↔ o = some .comma := by
  rcases o with - | t
  · exact iff_of_false nofun nofun
  · cases t <;> simp

theorem matches_assign {o : Option (Token K)} :
    (o matches some .assign) = true ↔ o = some .assign := by
  rcases o with - | t
  · exact iff_of_false nofun nofun
  · cases t <;> simp

theorem length_pos_of_peek {ts : Tokens K} {t : Token K} (h : ts.peek = some t) : 0 < ts.length := by
  cases ts with
  | done => contradiction
  | broken e => contradiction
  | more t' rest => exact Nat.succ_pos _

/-- A step over a token leaves one token less. -/
theorem length_advance_add_one {ts us : Tokens K} {t : Token K} (hpeek : ts.peek = some t)
    (h : ts.advance = .ok us) : us.length + 1 = ts.length := by
  cases ts with
  | done => contradiction
  | broken e => contradiction
  | more t' rest => rw [eq_of_look h, length]

end Tokens

/-- A parser: the tokens that are left, of which the first one has been requested, and the depth of
nesting. The largest depth so far and the requests for tokens are counted for what is said about them
below; nothing depends on them. -/
structure Parser (K : Type) where
  tokens : Tokens K
  depth : Nat
  peak : Nat
  requests : Nat

namespace Parser

/-- What a parser does. It may fail, and then its state is kept; and it may come to no end. -/
abbrev Run (K α : Type) := ExceptT ParseError (StateT (Parser K) Option) α

/-! ### The parser -/

/-- No end is in sight. -/
def unfinished {α : Type} : Run K α := ExceptT.mk fun _ ↦ none

/-- The next token. -/
def peek : Run K (Option (Token K)) := return (← get).tokens.peek

/-- The depth of nesting. -/
def currentDepth : Run K Nat := return (← get).depth

/-- Sets the depth of nesting. -/
def setDepth (depth : Nat) : Run K PUnit :=
  modify fun s ↦ { s with depth, peak := max s.peak depth }

/-- Goes one level deeper, if the limit allows it. -/
def descend (limit : Nat) : Run K PUnit := do
  let depth ← currentDepth
  if limit ≤ depth then throw (.tooDeep limit) else setDepth (depth + 1)

/-- Requests what comes after the next token. If that is a character that starts no token, the next
token stays. -/
def advance : Run K PUnit := do
  modify fun s ↦ { s with requests := s.requests + 1 }
  match (← get).tokens.advance with
  | .ok tokens => modify fun s ↦ { s with tokens }
  | .error e => throw e

/-- Requests the first token, which fails on a character that starts none. -/
def look : Run K PUnit := do
  modify fun s ↦ { s with requests := s.requests + 1 }
  match (← get).tokens.look with
  | .ok _ => return ⟨⟩
  | .error e => throw e

/-- Drops the next token if it satisfies a test, and tells whether it did. -/
def advanceIf (test : Token K → Bool) : Run K Bool := do
  if (← peek).any test then
    advance
    return true
  else return false

section Read

variable [Scalar K]

/-- Fails because something else had to follow. -/
def expected {α : Type} (what : String) : Run K α := do
  throw (.expected what (← get).tokens.found)

/-- Fails because of the next token. -/
def unexpected {α : Type} : Run K α := do throw (.unexpectedToken (← get).tokens.found)

/-- Reads the right parenthesis that has to follow. -/
def closing : Run K PUnit := do
  if (← peek) matches some .rightParen then advance
  else expected (Token.text (K := K) .rightParen)

/-- Reads the exponent after a power sign. -/
def unitExponent : Run K Int := do
  let negative ← advanceIf Token.isMinus
  match ← peek with
  | some (.number value) =>
    match (Scalar.integer? value).filter (· ≤ Reader.maxUnitExponent) with
    | some n => do
      advance
      return if negative then -n else n
    | none => throw (.invalidNumber (Scalar.text value))
  | _ => expected "exponent"

/-- Reads a power sign and the exponent after it, if there is one. -/
def optionalExponent : Run K Int := do
  if (← peek).any Token.isPower then
    advance
    unitExponent
  else return 1

/-- Reads one factor of a target. -/
def unitFactor (divided : Bool) : Run K UnitPower := do
  match ← peek with
  | some (.name name) => do
    advance
    let power ← optionalExponent
    return ⟨name, if divided then -power else power⟩
  | _ => expected "unit"

/-- Reads a target. -/
def unitTarget : (fuel : Nat) → (divided : Bool) → Run K (List UnitPower)
  | 0, _ => unfinished
  | fuel + 1, divided => do
    let u ← unitFactor divided
    match (← peek).bind Token.joinsFactors? with
    | none => return [u]
    | some divided => do
      advance
      let more ← unitTarget fuel divided
      return u :: more

variable (limit : Nat)

/-- Reads the conversions after a value. -/
def conversions : (fuel : Nat) → (value : Expr K) → Run K (Expr K)
  | 0, _ => unfinished
  | fuel + 1, value => do
    if (← peek) matches some .into then
      descend limit
      advance
      let target ← unitTarget fuel false
      conversions fuel (.convert value target)
    else return value

mutual

/-- Reads a comparison and the conversions after it. -/
def expression : (fuel : Nat) → Run K (Expr K)
  | 0 => unfinished
  | fuel + 1 => do
    let depth ← currentDepth
    descend limit
    let value ← operation fuel .comparison
    let e ← conversions limit fuel value
    setDepth depth
    return e

/-- Reads operands joined by operators of a level. -/
def operation : (fuel : Nat) → (level : Level) → Run K (Expr K)
  | 0, _ => unfinished
  | fuel + 1, level => do
    let depth ← currentDepth
    let first ← operand fuel level
    let e ← operations fuel level first
    setDepth depth
    return e

/-- Reads an operand of a level. -/
def operand : (fuel : Nat) → (level : Level) → Run K (Expr K)
  | 0, _ => unfinished
  | fuel + 1, .comparison => operation fuel .sum
  | fuel + 1, .sum => operation fuel .product
  | fuel + 1, .product => implicit fuel

/-- Reads the operators of a level, and their right operands, after a left operand. -/
def operations : (fuel : Nat) → (level : Level) → (first : Expr K) → Run K (Expr K)
  | 0, _, _ => unfinished
  | fuel + 1, level, first => do
    match (← peek).bind level.operator? with
    | none => return first
    | some op => do
      descend limit
      advance
      let second ← operand fuel level
      operations fuel level (.binary op first second)

/-- Reads juxtaposed factors. -/
def implicit : (fuel : Nat) → Run K (Expr K)
  | 0 => unfinished
  | fuel + 1 => do
    let depth ← currentDepth
    let first ← unary fuel
    let e ← factors fuel first
    setDepth depth
    return e

/-- Reads the factors after a first one. -/
def factors : (fuel : Nat) → (first : Expr K) → Run K (Expr K)
  | 0, _ => unfinished
  | fuel + 1, first => do
    if (← peek).any Token.startsFactor then
      descend limit
      let second ← power fuel
      factors fuel (.binary .multiply first second)
    else return first

/-- Reads an operand with the signs in front of it. -/
def unary : (fuel : Nat) → Run K (Expr K)
  | 0 => unfinished
  | fuel + 1 => do
    match (← peek).bind Token.sign? with
    | none => power fuel
    | some sign => do
      let depth ← currentDepth
      descend limit
      advance
      let operand ← unary fuel
      setDepth depth
      return .signed sign operand

/-- Reads a base and, after a power sign, its exponent. -/
def power : (fuel : Nat) → Run K (Expr K)
  | 0 => unfinished
  | fuel + 1 => do
    let base ← application fuel
    if (← peek).any Token.isPower then
      let depth ← currentDepth
      descend limit
      advance
      let exponent ← unary fuel
      setDepth depth
      return .binary .power base exponent
    else return base

/-- Reads a primary and the argument lists after it. -/
def application : (fuel : Nat) → Run K (Expr K)
  | 0 => unfinished
  | fuel + 1 => do
    let depth ← currentDepth
    let callee ← primary fuel
    let e ← calls fuel callee
    setDepth depth
    return e

/-- Reads the argument lists after something that can be called. -/
def calls : (fuel : Nat) → (callee : Expr K) → Run K (Expr K)
  | 0, _ => unfinished
  | fuel + 1, callee => do
    if callee.isCallable && (← peek) matches some .leftParen then
      descend limit
      advance
      let args ← argumentList fuel
      closing
      calls fuel (.call callee args)
    else return callee

/-- Reads a number, a name, or an expression in parentheses. -/
def primary : (fuel : Nat) → Run K (Expr K)
  | 0 => unfinished
  | fuel + 1 => do
    match ← peek with
    | some (.number value) => do
      advance
      return .number value
    | some (.name name) => do
      advance
      return .symbol name
    | some .leftParen => do
      advance
      let inner ← expression fuel
      closing
      return inner
    | _ => unexpected

/-- Reads the arguments of a call. -/
def argumentList : (fuel : Nat) → Run K (List (Expr K))
  | 0 => unfinished
  | fuel + 1 => do
    if (← peek) matches some .rightParen then return [] else separated fuel

/-- Reads one or more expressions separated by commas. -/
def separated : (fuel : Nat) → Run K (List (Expr K))
  | 0 => unfinished
  | fuel + 1 => do
    let first ← expression fuel
    if (← peek) matches some .comma then
      advance
      let more ← separated fuel
      return first :: more
    else return [first]

end

/-- An outcome that is found without the state. -/
def ofExcept {α : Type} (o : Except ParseError α) : Run K α := ExceptT.mk (pure o)

variable (fuel : Nat)

/-- Reads an expression, and what it is made equal to if an equality sign follows. -/
def equation : Run K (Action K) := do
  let first ← expression limit fuel
  if (← peek) matches some .assign then
    advance
    let value ← expression limit fuel
    ofExcept (Reader.Action.ofEquation? first value)
  else return .expression first

/-- Reads what a line does, up to an optional semicolon. -/
def action : Run K (Action K) := do
  match ← peek with
  | none | some .semicolon => return .empty
  | _ => equation limit fuel

/-- Succeeds at the end of the line only. -/
def ending {α : Type} (result : α) : Run K α := do
  match ← peek with
  | none => return result
  | some _ => unexpected

/-- Reads a line, from the request for its first token on. -/
def line : Run K (Statement K) := do
  look
  let a ← action limit fuel
  let silent ← advanceIf Token.isSemicolon
  ending ⟨a, silent⟩

end Read

/-- The parser in front of a text. -/
def start [Scalar K] (text : String) : Parser K := ⟨Tokens.ofText text, 0, 0, 0⟩

/-! ### What is kept -/

/-- The books balance from one state to a later one: no depth above the limit has been set, and there
has been one request for every token that has been taken. -/
structure Balances (limit : Nat) (s s' : Parser K) : Prop where
  peak_le : s'.peak ≤ max s.peak limit
  requests_add : s'.requests + s'.tokens.length = s.requests + s.tokens.length

/-- The books stay within bounds, though the last request may have failed. -/
structure StaysWithin (limit : Nat) (s s' : Parser K) : Prop where
  peak_le : s'.peak ≤ max s.peak limit
  requests_le : s'.requests ≤ s.requests + s.tokens.length

/-- **A run of the parser does what a reader does**: it comes to an end, with the same outcome, and on
success with the same tokens left and at a depth with the property `post`; and the books are kept. -/
inductive Mirrors {α : Type} (limit : Nat) (post : Nat → Prop) (s : Parser K) :
    Option (Except ParseError α × Parser K) → Except ParseError (α × Tokens K) → Prop
  | ok {a : α} {s' : Parser K} : post s'.depth → s.Balances limit s' →
      Mirrors limit post s (some (.ok a, s')) (.ok (a, s'.tokens))
  | error {e : ParseError} {s' : Parser K} : s.StaysWithin limit s' →
      Mirrors limit post s (some (.error e, s')) (.error e)

section Mirrors

variable {α β : Type} {limit left : Nat} {post post' : Nat → Prop} {s s' s'' : Parser K}

theorem Balances.refl (limit : Nat) (s : Parser K) : s.Balances limit s :=
  ⟨Nat.le_max_left _ _, rfl⟩

theorem Balances.trans (h : s.Balances limit s') (h' : s'.Balances limit s'') :
    s.Balances limit s'' :=
  ⟨h'.peak_le.trans (max_le h.peak_le (Nat.le_max_right _ _)), h'.requests_add.trans h.requests_add⟩

theorem Balances.staysWithin (h : s.Balances limit s') (h' : s'.StaysWithin limit s'') :
    s.StaysWithin limit s'' :=
  ⟨h'.peak_le.trans (max_le h.peak_le (Nat.le_max_right _ _)), h.requests_add ▸ h'.requests_le⟩

theorem StaysWithin.refl (limit : Nat) (s : Parser K) : s.StaysWithin limit s :=
  ⟨Nat.le_max_left _ _, Nat.le_add_right _ _⟩

theorem run_advance (s : Parser K) :
    (advance : Run K PUnit).run.run s =
      match s.tokens.advance with
      | .ok tokens => some (.ok ⟨⟩, { s with tokens, requests := s.requests + 1 })
      | .error e => some (.error e, { s with requests := s.requests + 1 }) := by
  show (match s.tokens.advance with | .ok _ => _ | .error _ => _ : Run K PUnit).run.run _ = _
  cases s.tokens.advance <;> rfl

namespace Mirrors

/-- What a later state mirrors has been mirrored from the start. -/
theorem after {run : Option (Except ParseError α × Parser K)}
    {r : Except ParseError (α × Tokens K)} (h : s.Balances limit s')
    (hrun : Mirrors limit post s' run r) : Mirrors limit post s run r := by
  cases hrun with
  | ok hpost hs => exact .ok hpost (h.trans hs)
  | error hs => exact .error (h.staysWithin hs)

theorem bind {x : Run K α} {f : α → Run K β} {r : Except ParseError (α × Tokens K)}
    {g : α × Tokens K → Except ParseError (β × Tokens K)} (h : Mirrors limit post s (x.run.run s) r)
    (hnext : ∀ a s', r = .ok (a, s'.tokens) → post s'.depth →
      Mirrors limit post' s' ((f a).run.run s') (g (a, s'.tokens))) :
    Mirrors limit post' s ((x >>= f).run.run s) (r >>= g) := by
  rw [Outcome.run_bind]
  generalize x.run.run s = run at h
  cases h with
  | ok hpost hs => exact .after hs (hnext _ _ rfl hpost)
  | error hs => exact .error hs

theorem pure {d : Nat} (hd : s.depth = d) (a : α) :
    Mirrors limit (· = d) s ((Pure.pure a : Run K α).run.run s) (.ok (a, s.tokens)) :=
  .ok hd (.refl limit s)

/-- The end of a loop, at some depth. -/
theorem stop (a : α) :
    Mirrors limit (fun _ ↦ True) s ((Pure.pure a : Run K α).run.run s) (.ok (a, s.tokens)) :=
  .ok trivial (.refl limit s)

theorem throw (e : ParseError) :
    Mirrors limit post s ((MonadExcept.throw e : Run K α).run.run s) (.error e) :=
  .error (.refl limit s)

/-! ### Steps of the parser -/

theorem peek {f : Option (Token K) → Run K α} {r : Except ParseError (α × Tokens K)}
    (h : Mirrors limit post s ((f s.tokens.peek).run.run s) r) :
    Mirrors limit post s ((Parser.peek >>= f).run.run s) r := h

theorem currentDepth {f : Nat → Run K α} {r : Except ParseError (α × Tokens K)}
    (h : Mirrors limit post s ((f s.depth).run.run s) r) :
    Mirrors limit post s ((Parser.currentDepth >>= f).run.run s) r := h

theorem tooDeep (hdepth : limit ≤ s.depth) {f : PUnit → Run K α} :
    Mirrors limit post s ((descend limit >>= f).run.run s) (.error (.tooDeep limit)) := by
  have hrun : (descend limit).run.run s = some (.error (.tooDeep limit), s) := by
    show (if limit ≤ s.depth then _ else _ : Run K PUnit).run.run s = _
    rw [if_pos hdepth]
    rfl
  rw [Outcome.run_bind, hrun]
  exact .error (.refl limit s)

/-- One level deeper, with one level less to go. -/
theorem descend (hdepth : s.depth + (left + 1) = limit) {f : PUnit → Run K α}
    {r : Except ParseError (α × Tokens K)}
    (h : ∀ s' : Parser K, s'.tokens = s.tokens → s'.depth + left = limit →
      Mirrors limit post s' ((f ⟨⟩).run.run s') r) :
    Mirrors limit post s ((Parser.descend limit >>= f).run.run s) r := by
  let s' : Parser K := { s with depth := s.depth + 1, peak := max s.peak (s.depth + 1) }
  have hrun : (Parser.descend limit).run.run s = some (.ok ⟨⟩, s') := by
    show (if limit ≤ s.depth then _ else _ : Run K PUnit).run.run s = _
    rw [if_neg (by omega)]
    rfl
  have hbalances : s.Balances limit s' := ⟨max_le_max (Nat.le_refl _) (by omega), rfl⟩
  rw [Outcome.run_bind, hrun]
  refine .after hbalances (h s' rfl ?_)
  show s.depth + 1 + left = limit
  omega

/-- Back to the depth of a state before, with a result. -/
theorem setDepth {d : Nat} (hd : d ≤ limit) (a : α) :
    Mirrors limit (· = d) s
      ((do
        Parser.setDepth d
        return a : Run K α).run.run s)
      (.ok (a, s.tokens)) := by
  let s' : Parser K := { s with depth := d, peak := max s.peak d }
  have hbalances : s.Balances limit s' := ⟨max_le_max (Nat.le_refl _) hd, rfl⟩
  exact .ok rfl hbalances

/-- A step over a token: one request for one token less. -/
theorem advance {t : Token K} (hpeek : s.tokens.peek = some t) :
    Mirrors limit (· = s.depth) s (Parser.advance.run.run s)
      (s.tokens.advance.map (PUnit.unit, ·)) := by
  rw [run_advance]
  cases hadvance : s.tokens.advance with
  | error e =>
    refine .error ⟨Nat.le_max_left _ _, ?_⟩
    exact Nat.add_le_add_left (Tokens.length_pos_of_peek hpeek) s.requests
  | ok us =>
    let s' : Parser K := { s with tokens := us, requests := s.requests + 1 }
    have hus := Tokens.length_advance_add_one hpeek hadvance
    have hbalances : s.Balances limit s' := by
      refine ⟨Nat.le_max_left _ _, ?_⟩
      show s.requests + 1 + us.length = s.requests + s.tokens.length
      omega
    exact .ok rfl hbalances

/-- What follows a step that gives nothing but the tokens that it leaves. -/
theorem step {x : Run K PUnit} {f : PUnit → Run K α} {r : Except ParseError (Tokens K)}
    {g : Tokens K → Except ParseError (α × Tokens K)}
    (h : Mirrors limit post s (x.run.run s) (r.map (PUnit.unit, ·)))
    (hnext : ∀ s', r = .ok s'.tokens → post s'.depth →
      Mirrors limit post' s' ((f ⟨⟩).run.run s') (g s'.tokens)) :
    Mirrors limit post' s ((x >>= f).run.run s) (r >>= g) := by
  rw [Outcome.run_bind]
  generalize x.run.run s = run at h
  cases r with
  | error e =>
    cases h with
    | error hs => exact .error hs
  | ok us =>
    cases h with
    | ok hpost hs => exact .after hs (hnext _ rfl hpost)

theorem expected [Scalar K] (what : String) :
    Mirrors limit post s ((Parser.expected what : Run K α).run.run s)
      (.error (.expected what s.tokens.found)) :=
  .error (.refl limit s)

theorem unexpected [Scalar K] :
    Mirrors limit post s ((Parser.unexpected : Run K α).run.run s)
      (.error (.unexpectedToken s.tokens.found)) :=
  .error (.refl limit s)

theorem ite {c : Prop} [Decidable c] {x y : Run K α} {r r' : Except ParseError (α × Tokens K)}
    (h : c → Mirrors limit post s (x.run.run s) r) (h' : ¬c → Mirrors limit post s (y.run.run s) r') :
    Mirrors limit post s ((if c then x else y).run.run s) (if c then r else r') := by
  split
  · exact h ‹_›
  · exact h' ‹_›

theorem advanceIf (test : Token K → Bool) :
    Mirrors limit (· = s.depth) s ((Parser.advanceIf test).run.run s)
      (s.tokens.advanceIf test) := by
  have hmap : s.tokens.advance.map (true, ·) = s.tokens.advance >>= fun us ↦ .ok (true, us) := by
    cases s.tokens.advance <;> rfl
  rw [Parser.advanceIf, Tokens.advanceIf, hmap]
  refine .peek (.ite (fun hany ↦ ?_) fun _ ↦ .pure rfl false)
  obtain ⟨t, ht, -⟩ := (Option.any_eq_true _ _).1 hany
  exact (advance ht).step fun s' _ hdepth ↦ .pure hdepth true

/-- The right parenthesis that has to follow. -/
theorem closing [Scalar K] :
    Mirrors limit (· = s.depth) s ((Parser.closing : Run K PUnit).run.run s)
      ((Reader.closing s.tokens).map (PUnit.unit, ·)) := by
  rw [Parser.closing, Reader.closing, apply_ite (Except.map fun us ↦ (PUnit.unit, us))]
  refine .peek (.ite (fun hparen ↦ .advance (Tokens.matches_rightParen.1 hparen)) fun _ ↦ .expected _)

end Mirrors

end Mirrors

end Parser

end Reckoner
