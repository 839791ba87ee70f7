import Reckoner.Outcome
import Reckoner.Statement.Basic
import Reckoner.Token.Lexer

/-!
# Reading statements

```
Statement   ::= ( Assignment | Definition | Expression )? ";"?
Assignment  ::= Name "=" Expression
Definition  ::= Name "(" Params? ")" "=" Expression
Expression  ::= Comparison ( ( "to" | "in" ) Target )*
Comparison  ::= Sum ( ( "<" | "<=" | ">" | ">=" | "==" | "!=" ) Sum )*
Sum         ::= Product ( ( "+" | "-" ) Product )*
Product     ::= Implicit ( ( "*" | "/" | "%" ) Implicit )*
Implicit    ::= Unary Power*
Unary       ::= ( "+" | "-" ) Unary | Power
Power       ::= Postfix ( ( "**" | "^" ) Unary )?
Postfix     ::= Primary ( "(" Arguments? ")" )*
Primary     ::= Number | Name | "(" Expression ")"
Target      ::= Factor ( ( "*" | "/" ) Factor )*
Factor      ::= Name ( ( "**" | "^" ) "-"? Number )?
```

Juxtaposition binds tighter than the written `*` and `/`, so `2 km / 1 h` is `(2 km) / (1 h)`.

## Depth

Every parenthesis, sign, power, call, conversion and chained operator costs one level of depth. The
readers below take the number of levels that are left and hand fewer to the readers that they call, so
depth is given back when a reader returns. This number, with the rank of the reader in the grammar, is
also what decreases along every call: a reader calls the readers below it with the same number, and
those above it with a smaller one.

The limit itself is passed along for the message only.
-/

namespace Reckoner

variable {K : Type}

/-! ### Operators by level -/

/-- The three levels of binary operators that associate to the left, loosest first. -/
inductive Level where
  | comparison
  | sum
  | product
deriving DecidableEq, Repr

/-- The operator of the level that a token stands for. -/
def Level.operator? : Level → Token K → Option Operator
  | comparison, .less => some .less
  | comparison, .lessEqual => some .lessEqual
  | comparison, .greater => some .greater
  | comparison, .greaterEqual => some .greaterEqual
  | comparison, .equal => some .equal
  | comparison, .notEqual => some .notEqual
  | sum, .plus => some .add
  | sum, .minus => some .subtract
  | product, .times => some .multiply
  | product, .divide => some .divide
  | product, .modulo => some .modulo
  | _, _ => none

/-- The place of a level in the grammar, above the readers that bind tighter. -/
@[simp] def Level.rank : Level → Nat
  | comparison => 13
  | sum => 10
  | product => 7

namespace Token

/-- The sign that a token stands for in front of an operand. -/
def sign? : Token K → Option Sign
  | plus => some .plus
  | minus => some .minus
  | _ => none

/-- Whether a token starts a factor of a juxtaposition. -/
def startsFactor : Token K → Bool
  | number _ | name _ | leftParen => true
  | _ => false

/-- Whether a further factor of a target follows the token, and whether it is divided by. -/
def joinsFactors? : Token K → Option Bool
  | times => some false
  | divide => some true
  | _ => none

end Token

variable [Scalar K]

namespace Reader

/-! ### Targets of conversions -/

/-- The largest exponent of a unit in a target. -/
def maxUnitExponent : Int := 127

/-- Reads the exponent after a power sign: an optional minus and a whole number within the limit. -/
def unitExponent (ts : Tokens K) : Except ParseError (Int × Tokens K) := do
  let (negative, ts) ← ts.advanceIf Token.isMinus
  match ts.peek with
  | some (.number value) =>
    match (Scalar.integer? value).filter (· ≤ maxUnitExponent) with
    | some n => .ok (if negative then -n else n, ← ts.advance)
    | none => .error (.invalidNumber (Scalar.text value))
  | _ => .error (.expected "exponent" ts.found)

/-- Reads a power sign and the exponent after it; without a power sign the exponent is one. -/
def optionalExponent (ts : Tokens K) : Except ParseError (Int × Tokens K) :=
  if ts.peek.any Token.isPower then do unitExponent (← ts.advance) else .ok (1, ts)

/-- Reads one factor of a target; after a division sign its power counts negatively. -/
def unitFactor (divided : Bool) (ts : Tokens K) : Except ParseError (UnitPower × Tokens K) := do
  match ts.peek with
  | some (.name name) =>
    let (power, ts) ← optionalExponent (← ts.advance)
    .ok (⟨name, if divided then -power else power⟩, ts)
  | _ => .error (.expected "unit" ts.found)

theorem length_unitExponent {ts us : Tokens K} {n : Int} (h : unitExponent ts = .ok (n, us)) :
    us.length ≤ ts.length := by
  obtain ⟨⟨negative, vs⟩, hv, h⟩ := Outcome.bind_eq_ok.1 h
  have := Tokens.length_advanceIf_le hv
  dsimp only at h
  split at h
  · split at h
    · obtain ⟨ws, hw, h⟩ := Outcome.bind_eq_ok.1 h
      have := Tokens.length_advance_le hw
      simp only [Except.ok.injEq, Prod.mk.injEq] at h
      obtain ⟨-, rfl⟩ := h
      omega
    · simp at h
  · simp at h

theorem length_optionalExponent {ts us : Tokens K} {n : Int}
    (h : optionalExponent ts = .ok (n, us)) : us.length ≤ ts.length := by
  simp only [optionalExponent] at h
  split at h
  · obtain ⟨vs, hv, h⟩ := Outcome.bind_eq_ok.1 h
    exact Nat.le_trans (length_unitExponent h) (Tokens.length_advance_le hv)
  · simp_all

/-- A factor takes at least one token. -/
theorem length_unitFactor {divided : Bool} {ts us : Tokens K} {u : UnitPower}
    (h : unitFactor divided ts = .ok (u, us)) : us.length < ts.length := by
  simp only [unitFactor] at h
  split at h
  · rename_i hp
    obtain ⟨vs, hv, h⟩ := Outcome.bind_eq_ok.1 h
    obtain ⟨⟨power, ws⟩, hw, h⟩ := Outcome.bind_eq_ok.1 h
    have := Tokens.length_advance hp hv
    have := length_optionalExponent hw
    simp only [Except.ok.injEq, Prod.mk.injEq] at h
    obtain ⟨-, rfl⟩ := h
    omega
  · simp at h

/-- Reads a target: factors joined by multiplication and division signs. -/
def unitTarget (divided : Bool) (ts : Tokens K) : Except ParseError (List UnitPower × Tokens K) :=
  match _hu : unitFactor divided ts with
  | .error e => .error e
  | .ok (u, us) =>
    match _hp : us.peek.bind Token.joinsFactors? with
    | none => .ok ([u], us)
    | some divided =>
      match _ha : us.advance with
      | .error e => .error e
      | .ok vs => (unitTarget divided vs).map fun (more, rest) ↦ (u :: more, rest)
termination_by ts.length
decreasing_by
  have := length_unitFactor _hu
  obtain ⟨t, ht, -⟩ := Option.bind_eq_some_iff.1 _hp
  have := Tokens.length_advance ht _ha
  omega

/-! ### Expressions -/

/-- Reads the right parenthesis that has to follow. -/
def closing (ts : Tokens K) : Except ParseError (Tokens K) :=
  if ts.peek matches some .rightParen then ts.advance
  else .error (.expected (Token.text (K := K) .rightParen) ts.found)

/-- Reads one or more items separated by commas. An item and the comma after it take tokens, so the
second test always succeeds. -/
def separated {α : Type} (item : Tokens K → Except ParseError (α × Tokens K)) (ts : Tokens K) :
    Except ParseError (List α × Tokens K) := do
  let (first, us) ← item ts
  if us.peek matches some .comma then
    let vs ← us.advance
    if vs.length < ts.length then
      let (more, rest) ← separated item vs
      .ok (first :: more, rest)
    else .ok ([first], vs)
  else .ok ([first], us)
termination_by ts.length

/-- Reads the arguments of a call: none if the right parenthesis follows at once. -/
def argumentList {α : Type} (item : Tokens K → Except ParseError (α × Tokens K)) (ts : Tokens K) :
    Except ParseError (List α × Tokens K) :=
  if ts.peek matches some .rightParen then .ok ([], ts) else separated item ts

variable (limit : Nat)

/-- Reads the conversions after a value. -/
def conversions (left : Nat) (value : Expr K) (ts : Tokens K) :
    Except ParseError (Expr K × Tokens K) :=
  if ts.peek matches some .into then
    match left with
    | 0 => .error (.tooDeep limit)
    | left + 1 => do
      let (target, ts) ← unitTarget false (← ts.advance)
      conversions left (.convert value target) ts
  else .ok (value, ts)

mutual

/-- Reads a comparison and the conversions after it. -/
def expression (left : Nat) (ts : Tokens K) : Except ParseError (Expr K × Tokens K) :=
  match left with
  | 0 => .error (.tooDeep limit)
  | left + 1 => do
    let (value, ts) ← operation .comparison left ts
    conversions limit left value ts
termination_by 32 * left

/-- Reads operands joined by operators of a level. -/
def operation (level : Level) (left : Nat) (ts : Tokens K) :
    Except ParseError (Expr K × Tokens K) := do
  let (first, ts) ← operand level left ts
  operations level left first ts
termination_by 32 * left + level.rank + 2

/-- Reads an operand of a level: an operation of the next level. -/
def operand (level : Level) (left : Nat) (ts : Tokens K) : Except ParseError (Expr K × Tokens K) :=
  match level with
  | .comparison => operation .sum left ts
  | .sum => operation .product left ts
  | .product => implicit left ts
termination_by 32 * left + level.rank + 1

/-- Reads the operators of a level, and their right operands, after a left operand. -/
def operations (level : Level) (left : Nat) (first : Expr K) (ts : Tokens K) :
    Except ParseError (Expr K × Tokens K) :=
  match ts.peek.bind level.operator? with
  | none => .ok (first, ts)
  | some op =>
    match left with
    | 0 => .error (.tooDeep limit)
    | left + 1 => do
      let (second, ts) ← operand level left (← ts.advance)
      operations level left (.binary op first second) ts
termination_by 32 * left + level.rank

/-- Reads juxtaposed factors. -/
def implicit (left : Nat) (ts : Tokens K) : Except ParseError (Expr K × Tokens K) := do
  let (first, ts) ← unary left ts
  factors left first ts
termination_by 32 * left + 6

/-- Reads the factors after a first one. -/
def factors (left : Nat) (first : Expr K) (ts : Tokens K) :
    Except ParseError (Expr K × Tokens K) :=
  if ts.peek.any Token.startsFactor then
    match left with
    | 0 => .error (.tooDeep limit)
    | left + 1 => do
      let (second, ts) ← power left ts
      factors left (.binary .multiply first second) ts
  else .ok (first, ts)
termination_by 32 * left + 5

/-- Reads an operand with the signs in front of it. -/
def unary (left : Nat) (ts : Tokens K) : Except ParseError (Expr K × Tokens K) :=
  match ts.peek.bind Token.sign? with
  | none => power left ts
  | some sign =>
    match left with
    | 0 => .error (.tooDeep limit)
    | left + 1 => do
      let (operand, ts) ← unary left (← ts.advance)
      .ok (.signed sign operand, ts)
termination_by 32 * left + 5

/-- Reads a base and, after a power sign, its exponent. -/
def power (left : Nat) (ts : Tokens K) : Except ParseError (Expr K × Tokens K) := do
  let (base, ts) ← application left ts
  if ts.peek.any Token.isPower then
    match left with
    | 0 => .error (.tooDeep limit)
    | left + 1 =>
      let (exponent, ts) ← unary left (← ts.advance)
      .ok (.binary .power base exponent, ts)
  else .ok (base, ts)
termination_by 32 * left + 4

/-- Reads a primary and the argument lists after it. -/
def application (left : Nat) (ts : Tokens K) : Except ParseError (Expr K × Tokens K) := do
  let (callee, ts) ← primary left ts
  calls left callee ts
termination_by 32 * left + 3

/-- Reads the argument lists after something that can be called. -/
def calls (left : Nat) (callee : Expr K) (ts : Tokens K) :
    Except ParseError (Expr K × Tokens K) :=
  if callee.isCallable && ts.peek matches some .leftParen then
    match left with
    | 0 => .error (.tooDeep limit)
    | left + 1 => do
      let (args, ts) ← argumentList (fun ts ↦ expression left ts) (← ts.advance)
      calls left (.call callee args) (← closing ts)
  else .ok (callee, ts)
termination_by 32 * left + 2

/-- Reads a number, a name, or an expression in parentheses. -/
def primary (left : Nat) (ts : Tokens K) : Except ParseError (Expr K × Tokens K) := do
  match ts.peek with
  | some (.number value) => .ok (.number value, ← ts.advance)
  | some (.name name) => .ok (.symbol name, ← ts.advance)
  | some .leftParen =>
    let (inner, ts) ← expression left (← ts.advance)
    .ok (inner, ← closing ts)
  | _ => .error (.unexpectedToken ts.found)
termination_by 32 * left + 1

end

/-! ### Whole lines -/

/-- What an equation does: it assigns to a name, or defines a function if its left side is a call of
a name whose arguments are names. -/
def Action.ofEquation? (target value : Expr K) : Except ParseError (Action K) :=
  match target with
  | .symbol name => .ok (.assign name value)
  | .call (.symbol name) args =>
    match args.mapM Expr.symbol? with
    | some params => .ok (.define name params value)
    | none => .error .invalidAssignment
  | _ => .error .invalidAssignment

/-- Reads what a line does, up to an optional semicolon. -/
def action (ts : Tokens K) : Except ParseError (Action K × Tokens K) := do
  match ts.peek with
  | none | some .semicolon => .ok (.empty, ts)
  | _ =>
    let (first, ts) ← expression limit limit ts
    if ts.peek matches some .assign then
      let (value, ts) ← expression limit limit (← ts.advance)
      .ok (← Action.ofEquation? first value, ts)
    else .ok (.expression first, ts)

/-- Succeeds at the end of the line only. -/
def ending {α : Type} (result : α) (ts : Tokens K) : Except ParseError α :=
  match ts.peek with
  | none => .ok result
  | some t => .error (.unexpectedToken t.text)

end Reader

/-- **Reads a line**, in which expressions are nested at most as deep as the limit. -/
def Statement.ofText (limit : Nat) (text : String) : Except ParseError (Statement K) := do
  let (action, ts) ← Reader.action limit (← (Tokens.ofText text).look)
  let (silent, ts) ← ts.advanceIf Token.isSemicolon
  Reader.ending ⟨action, silent⟩ ts

/-- Reads a single expression and nothing after it. -/
def Expr.ofText (limit : Nat) (text : String) : Except ParseError (Expr K) := do
  let (e, ts) ← Reader.expression limit limit (← (Tokens.ofText text).look)
  Reader.ending e ts

end Reckoner
