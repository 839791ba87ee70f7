import Mathlib.Order.Bounds.Basic
import Reckoner.Proofs.DelimitedText
import Reckoner.Proofs.TrailingTokens

/-!
# What nesting costs

Every text that is read as an expression at all needs some number of levels: with these it is read, and
with fewer the limit is exceeded (`Expr.ReadFrom`). What is nested pays for what is around it, and never
for its neighbours: parentheses cost one level for each pair (`Expr.ReadFrom.iterate_parenthesized`),
and a call two more than its most expensive argument, however many there are
(`Expr.exists_readFrom_call`).

The same is said of readers by `Reader.TakesFrom`, with the tokens behind what they read. The needs of
two readers in a chain combine to their maximum, since what the first one has spent is given back
(`TakesFrom.bind`); only the steps that hand on one level fewer raise them (`TakesFrom.succ`).
-/

namespace Reckoner

variable {K α β : Type}

namespace Reader

/-- With `need` levels or more a reader takes the tokens `ts` down to `us`; with fewer, the limit is
exceeded. -/
def TakesFrom (need : Nat) (read : Nat → Nat → Tokens K → Except ParseError (α × Tokens K))
    (ts : List (Token K)) (a : α) (us : List (Token K)) : Prop :=
  ∀ limit left, read limit left (.ofList ts) =
    if need ≤ left then .ok (a, .ofList us) else .error (.tooDeep limit)

section Steps

variable {need need' limit left : Nat} {a : α} {b : β} {ts us vs : List (Token K)} {t : Token K}
  {read : Nat → Nat → Tokens K → Except ParseError (α × Tokens K)}

/-- A reader runs after another one. -/
theorem TakesFrom.bind {f : α × Tokens K → Except ParseError (β × Tokens K)}
    (h : TakesFrom need read ts a us)
    (hf : f (a, .ofList us) = if need' ≤ left then .ok (b, .ofList vs) else .error (.tooDeep limit)) :
    (read limit left (.ofList ts) >>= f) =
      if max need need' ≤ left then .ok (b, .ofList vs) else .error (.tooDeep limit) := by
  rw [h limit left]
  by_cases hneed : need ≤ left
  · rw [if_pos hneed]
    exact hf.trans (if_congr (by omega) rfl rfl)
  · rw [if_neg hneed, if_neg (by omega)]
    rfl

/-- What needs no level runs after a reader. -/
theorem TakesFrom.bind_ok {f : α × Tokens K → Except ParseError (β × Tokens K)}
    (h : TakesFrom need read ts a us) (hf : f (a, .ofList us) = .ok (b, .ofList vs)) :
    (read limit left (.ofList ts) >>= f) =
      if need ≤ left then .ok (b, .ofList vs) else .error (.tooDeep limit) := by
  have hbind : (read limit left (.ofList ts) >>= f) =
      if max need 0 ≤ left then .ok (b, .ofList vs) else .error (.tooDeep limit) := h.bind hf
  rwa [Nat.max_zero] at hbind

/-- A reader that hands on one level fewer needs one more. -/
theorem TakesFrom.succ (hzero : ∀ limit, read limit 0 (.ofList ts) = .error (.tooDeep limit))
    (hsucc : ∀ limit left, read limit (left + 1) (.ofList ts) =
      if need ≤ left then .ok (a, .ofList us) else .error (.tooDeep limit)) :
    TakesFrom (need + 1) read ts a us := by
  intro limit left
  cases left with
  | zero => exact hzero limit
  | succ left => exact (hsucc limit left).trans (if_congr Nat.succ_le_succ_iff.symm rfl rfl)

/-! ### Lists of arguments -/

section

variable {item : Nat → Nat → Tokens K → Except ParseError (α × Tokens K)} {as : List α}

theorem takesFrom_separated_single
    (hlength : ∀ ⦃limit left ts us a⦄, item limit left ts = .ok (a, us) → us.length ≤ ts.length)
    (h : TakesFrom need item ts a (.rightParen :: us)) :
    TakesFrom need (fun limit left ↦ separated (item limit left)) ts [a] (.rightParen :: us) := by
  intro limit left
  dsimp only
  rw [separated_eq (@hlength limit left)]
  exact h.bind_ok rfl

/-- One more item in front: the levels that it needs are there again for the others. -/
theorem takesFrom_separated_cons
    (hlength : ∀ ⦃limit left ts us a⦄, item limit left ts = .ok (a, us) → us.length ≤ ts.length)
    (h : TakesFrom need item ts a (.comma :: us))
    (hmore : TakesFrom need' (fun limit left ↦ separated (item limit left)) us as vs) :
    TakesFrom (max need need') (fun limit left ↦ separated (item limit left)) ts (a :: as) vs := by
  intro limit left
  dsimp only
  rw [separated_eq (@hlength limit left)]
  refine h.bind ?_
  show ((Tokens.ofList us).look >>= _) = _
  rw [Tokens.look_ofList]
  exact hmore.bind_ok rfl

end

variable [Scalar K] {e : Expr K} {args : List (Expr K)}

theorem takesFrom_argumentList
    (h : TakesFrom need (fun limit left ↦ separated (expression limit left)) (t :: ts) args us)
    (ht : t ≠ .rightParen) :
    TakesFrom need (fun limit left ↦ argumentList (expression limit left)) (t :: ts) args us := by
  intro limit left
  dsimp only
  rw [argumentList, if_neg]
  · exact h limit left
  · rw [Tokens.peek_ofList]
    intro hmatches
    split at hmatches
    · rename_i hhead
      exact ht (Option.some.inj hhead)
    · contradiction

/-! ### Parentheses and calls -/

theorem takesFrom_primary (h : TakesFrom need expression ts e (.rightParen :: us)) :
    TakesFrom need primary (.leftParen :: ts) e us := by
  intro limit left
  rw [primary, Tokens.peek_ofList]
  show ((Tokens.ofList (.leftParen :: ts)).advance >>= _) = _
  rw [Tokens.advance_ofList]
  refine h.bind_ok ?_
  show (closing (.ofList (.rightParen :: us)) >>= _) = _
  rw [closing_ofList]
  rfl

theorem takesFrom_application (h : TakesFrom need primary ts e us) (hus : headBinding us ≤ 6) :
    TakesFrom need application ts e us := by
  intro limit left
  rw [application]
  exact h.bind_ok (calls_stop e hus)

theorem takesFrom_calls (hcallable : e.isCallable = true)
    (h : TakesFrom need (fun limit left ↦ argumentList (expression limit left)) ts args
      (.rightParen :: us))
    (hus : headBinding us ≤ 6) :
    TakesFrom (need + 1) (fun limit left ↦ calls limit left e) (.leftParen :: ts) (.call e args)
      us := by
  refine .succ (fun limit ↦ ?_) fun limit left ↦ ?_
  · rw [calls.eq_def, hcallable, Tokens.peek_ofList]
    rfl
  · rw [calls.eq_def, hcallable, Tokens.peek_ofList]
    show ((Tokens.ofList (.leftParen :: ts)).advance >>= _) = _
    rw [Tokens.advance_ofList]
    refine h.bind_ok ?_
    show (closing (.ofList (.rightParen :: us)) >>= _) = _
    rw [closing_ofList]
    exact calls_stop (.call e args) hus

theorem takesFrom_call (name : String)
    (h : TakesFrom need (fun limit left ↦ argumentList (expression limit left)) ts args
      (.rightParen :: us))
    (hus : headBinding us ≤ 6) :
    TakesFrom (need + 1) application (.name name :: .leftParen :: ts) (.call (.symbol name) args)
      us := by
  have hcalls := takesFrom_calls (e := .symbol name) rfl h hus
  intro limit left
  have hprimary : primary limit left (.ofList (.name name :: .leftParen :: ts)) =
      .ok (.symbol name, .ofList (.leftParen :: ts)) :=
    primary_eq_ok.2 (.inr (.inl ⟨name, rfl, Tokens.advance_ofList _ _, rfl⟩))
  rw [application, hprimary]
  exact hcalls limit left

/-! ### Expressions without operators -/

theorem takesFrom_implicit (h : TakesFrom need application ts e us)
    (hsign : ts.head?.bind Token.sign? = none) (hus : headBinding us ≤ 4) :
    TakesFrom need implicit ts e us := by
  have hpower : TakesFrom need power ts e us := by
    intro limit left
    rw [power]
    refine h.bind_ok ?_
    dsimp only
    rw [Tokens.peek_ofList, isPower_eq_false (Nat.le_succ_of_le hus)]
    rfl
  have hunary : TakesFrom need unary ts e us := by
    intro limit left
    rw [unary.eq_def, Tokens.peek_ofList, hsign]
    exact hpower limit left
  intro limit left
  rw [implicit]
  exact hunary.bind_ok (factors_stop e hus)

theorem takesFrom_operation {level : Level}
    (h : TakesFrom need (fun limit ↦ operand limit level) ts e us)
    (hus : headBinding us < level.binding) :
    TakesFrom need (fun limit ↦ operation limit level) ts e us := by
  intro limit left
  dsimp only
  rw [operation]
  exact h.bind_ok (operations_stop e hus)

/-- An application between tokens that bind to nothing in front of them is an expression. -/
theorem takesFrom_expression (h : TakesFrom need application ts e us)
    (hsign : ts.head?.bind Token.sign? = none) (hus : headBinding us = 0) :
    TakesFrom (need + 1) expression ts e us := by
  have hproduct : TakesFrom need (fun limit ↦ operand limit .product) ts e us := by
    intro limit left
    dsimp only
    rw [operand]
    exact takesFrom_implicit h hsign (hus.trans_le (Nat.zero_le 4)) limit left
  have hsum : TakesFrom need (fun limit ↦ operand limit .sum) ts e us := by
    intro limit left
    dsimp only
    rw [operand]
    exact takesFrom_operation hproduct (hus.trans_lt (by decide)) limit left
  have hcomparison : TakesFrom need (fun limit ↦ operand limit .comparison) ts e us := by
    intro limit left
    dsimp only
    rw [operand]
    exact takesFrom_operation hsum (hus.trans_lt (by decide)) limit left
  refine .succ (fun limit ↦ by rw [expression]) fun limit left ↦ ?_
  rw [expression]
  exact (takesFrom_operation hcomparison (hus.trans_lt (by decide))).bind_ok
    (conversions_stop e (hus.trans_lt Nat.one_pos))

/-- In front of a token that binds to nothing, an expression needs as many levels as at the end of a
line. -/
theorem TakesFrom.followedBy (h : TakesFrom need expression ts e []) (hts : (Tokens.ofList ts).Closed)
    (t : Token K) (ht : t.binding = 0) (us : List (Token K)) :
    TakesFrom need expression (ts ++ t :: us) e (t :: us) := by
  intro limit left
  have hrest : (Tokens.ofList (t :: us)).Loose := ⟨t, .ofList us, rfl, ht⟩
  have hcarries := expression_carried limit left hrest _ hts
  rw [Tokens.ofList_followedBy, h limit left] at hcarries
  generalize expression limit left (.ofList (ts ++ t :: us)) = y at hcarries ⊢
  by_cases hneed : need ≤ left
  · rw [if_pos hneed] at hcarries ⊢
    cases hcarries
    rfl
  · rw [if_neg hneed] at hcarries ⊢
    cases hcarries with
    | tooDeep => rfl
    | error he => exact absurd rfl he

end Steps

end Reader

/-! ### Texts -/

theorem Tokens.Reads.ofText_eq [Scalar K] {text : String} {w : List (Token K)}
    (h : Reads text.toList w []) : ofText text = .ofList w := by
  obtain ⟨next, hnext⟩ := h 0
  rw [List.append_nil, ofChars] at hnext
  exact hnext.trans (prepend_done w)

/-- A text in parentheses. -/
def parenthesized (text : String) : String := "(" ++ text ++ ")"

theorem toList_parenthesized (text : String) :
    (parenthesized text).toList = ['('] ++ (text.toList ++ [')']) := by
  rw [parenthesized, String.toList_append, String.toList_append, List.append_assoc]
  rfl

namespace Expr

variable [Scalar K] {need : Nat} {text : String} {e : Expr K} {w : List (Token K)}

/-- **The least number of levels** with which a text is read as an expression. -/
def Needs (K : Type) [Scalar K] (text : String) (need : Nat) : Prop :=
  IsLeast {limit | ∃ e : Expr K, ofText limit text = .ok e} need

/-- With `need` levels or more a text is read as the expression; with fewer, the limit is exceeded. -/
def ReadFrom (need : Nat) (text : String) (e : Expr K) : Prop :=
  ∀ limit, ofText limit text = if need ≤ limit then .ok e else .error (.tooDeep limit)

theorem ReadFrom.ofText_eq_ok (h : ReadFrom need text e) : ofText need text = .ok e :=
  (h need).trans (if_pos le_rfl)

/-- The limit only rejects, so below the least number it is the limit that rejects. -/
theorem Needs.exists_readFrom (h : Needs K text need) : ∃ e : Expr K, ReadFrom need text e := by
  obtain ⟨⟨e, he⟩, hleast⟩ := h
  refine ⟨e, fun limit ↦ ?_⟩
  by_cases hneed : need ≤ limit
  · rw [if_pos hneed]
    exact (ofText_extends hneed text).eq_ok he
  · rw [if_neg hneed]
    exact (ofText_extends (Nat.le_of_not_le hneed) text).eq_tooDeep he fun h ↦ hneed (hleast ⟨e, h⟩)

theorem exists_needs (h : ∃ limit, ∃ e : Expr K, ofText limit text = .ok e) :
    ∃ need, Needs K text need := by
  classical exact ⟨Nat.find h, Nat.find_spec h, fun _ ↦ Nat.find_min' h⟩

/-- Two readings show what the least number is. -/
theorem needs_succ (hread : ofText (need + 1) text = .ok e)
    (hdeep : ofText (K := K) need text = .error (.tooDeep need)) : Needs K text (need + 1) := by
  refine ⟨⟨e, hread⟩, ?_⟩
  rintro limit ⟨f, hf⟩
  by_contra hlt
  have hneed : ofText need text = .ok f :=
    (ofText_extends (Nat.le_of_lt_succ (Nat.lt_of_not_le hlt)) text).eq_ok hf
  rw [hdeep] at hneed
  contradiction

theorem ofText_of_tokens (htokens : Tokens.ofText text = .ofList w) (limit : Nat) :
    ofText limit text =
      (Reader.expression limit limit (.ofList w) >>= fun r : Expr K × Tokens K ↦
        Reader.ending r.1 r.2) := by
  rw [ofText, htokens, Tokens.look_ofList]
  rfl

theorem readFrom_of_tokens (htokens : Tokens.ofText text = .ofList w)
    (h : Reader.TakesFrom need Reader.expression w e []) : ReadFrom need text e := by
  intro limit
  rw [ofText_of_tokens htokens, h limit limit]
  split
  · rfl
  · rfl

/-- The levels of a text are those of its tokens, whatever the limit is that they are left of. -/
theorem ReadFrom.exists_tokens (h : ReadFrom need text e) :
    ∃ w, Tokens.ofText text = .ofList w ∧ Derives .expression w e ∧
      Reader.TakesFrom need Reader.expression w e [] := by
  obtain ⟨w, htokens, hw, hread⟩ := exists_read_of_ofText h.ofText_eq_ok
  refine ⟨w, htokens, hw, fun limit left ↦ ?_⟩
  by_cases hneed : need ≤ left
  · rw [if_pos hneed]
    exact (Reader.expression_extended need limit hneed _).eq_ok hread
  · rw [if_neg hneed]
    have hextends := Reader.expression_extended limit need (Nat.le_of_not_le hneed) (.ofList w)
    refine hextends.eq_tooDeep hread fun hfew ↦ ?_
    -- So few levels would be enough under every limit, also when they are all that there are.
    have hall := (Reader.expression_extended limit left (Nat.le_refl left) _).eq_ok hfew
    have hok := ofText_of_tokens htokens left
    rw [hall, h left, if_neg hneed] at hok
    contradiction

/-! ### Parentheses -/

theorem ReadFrom.parenthesized (h : ReadFrom need text e) (hsharp : '#' ∉ text.toList) :
    ReadFrom (need + 1) (parenthesized text) e := by
  obtain ⟨w, htokens, hw, htakes⟩ := h.exists_tokens
  have hreads : Tokens.Reads (Reckoner.parenthesized text).toList
      (.leftParen :: (w ++ [.rightParen]) : List (Token K)) [] := by
    rw [toList_parenthesized]
    exact Tokens.reads_leftParen.append
      ((Tokens.reads_of_ofChars (.inl rfl) [] hsharp htokens).append Tokens.reads_rightParen)
  refine readFrom_of_tokens hreads.ofText_eq ?_
  have hinner := htakes.followedBy hw.closed .rightParen rfl []
  exact Reader.takesFrom_expression
    (Reader.takesFrom_application (Reader.takesFrom_primary hinner) (Nat.zero_le 6)) rfl rfl

/-- **Each pair of parentheses costs exactly one level.** -/
theorem ReadFrom.iterate_parenthesized (h : ReadFrom need text e) (hsharp : '#' ∉ text.toList)
    (k : Nat) : ReadFrom (need + k) (Reckoner.parenthesized^[k] text) e := by
  have hboth : '#' ∉ (Reckoner.parenthesized^[k] text).toList ∧
      ReadFrom (need + k) (Reckoner.parenthesized^[k] text) e := by
    induction k with
    | zero => exact ⟨hsharp, h⟩
    | succ k ih =>
      obtain ⟨hsharp, hread⟩ := ih
      rw [Function.iterate_succ_apply']
      refine ⟨?_, hread.parenthesized hsharp⟩
      simp [toList_parenthesized, hsharp]
  exact hboth.2

/-! ### Calls -/

theorem exists_separator {separator : String} (h : separator = "," ∨ separator = ", ") :
    ∃ blanks, separator.toList = ',' :: blanks ∧
      ∀ rest, Tokens.Reads (',' :: blanks) [(.comma : Token K)] rest := by
  have hcomma (rest : List Char) : Tokens.Reads [','] [(.comma : Token K)] rest :=
    Tokens.reads_mark (Token.startsMark_of_mem (by decide)) fun _ ↦ rfl
  rcases h with rfl | rfl
  · exact ⟨[], rfl, hcomma⟩
  · exact ⟨[' '], rfl, fun rest ↦ (hcomma _).append (Tokens.reads_blank (by decide) rest)⟩

/-- Arguments need as many levels as the one that needs most. -/
theorem exists_takesFrom_arguments {separator : String}
    (hseparator : separator = "," ∨ separator = ", ") {texts : List String} {needs : List Nat}
    (hne : texts ≠ []) (hsharp : ∀ text ∈ texts, '#' ∉ text.toList)
    (h : List.Forall₂ (Needs K) texts needs) :
    ∃ (w : List (Token K)) (args : List (Expr K)),
      Tokens.Reads (separator.intercalate texts).toList w [')'] ∧
      (∃ t v, w = t :: v ∧ t ≠ .rightParen) ∧
      List.Forall₂ (fun text e ↦ ∃ limit, ofText limit text = .ok e) texts args ∧
      Reader.TakesFrom (needs.foldr max 0)
        (fun limit left ↦ Reader.separated (Reader.expression limit left)) (w ++ [.rightParen]) args
        [.rightParen] := by
  rw [String.toList_intercalate]
  induction h with
  | nil => exact absurd rfl hne
  | @cons text need texts needs hneed hneeds ih =>
    obtain ⟨e, he⟩ := hneed.exists_readFrom
    obtain ⟨w, htokens, hw, htakes⟩ := he.exists_tokens
    have htext : '#' ∉ text.toList := hsharp text List.mem_cons_self
    cases hneeds with
    | nil =>
      refine ⟨w, [e], ?_, hw.exists_head, .cons ⟨need, he.ofText_eq_ok⟩ .nil, ?_⟩
      · rw [List.map_singleton, List.intercalate_singleton]
        exact Tokens.reads_of_ofChars (.inl rfl) [] htext htokens
      · have hlast := htakes.followedBy hw.closed .rightParen rfl []
        have hsingle := Reader.takesFrom_separated_single Reader.length_expression hlast
        rwa [← Nat.max_zero need] at hsingle
    | @cons text' need' texts needs hneed' hneeds =>
      obtain ⟨v, args, hreads, -, hargs, hmore⟩ :=
        ih (List.cons_ne_nil _ _) fun s hs ↦ hsharp s (List.mem_cons_of_mem _ hs)
      obtain ⟨t, u, rfl, ht⟩ := hw.exists_head
      refine ⟨t :: u ++ .comma :: v, e :: args, ?_, ⟨t, _, rfl, ht⟩,
        .cons ⟨need, he.ofText_eq_ok⟩ hargs, ?_⟩
      · obtain ⟨blanks, hblanks, hcomma⟩ := exists_separator (K := K) hseparator
        rw [hblanks] at hreads ⊢
        rw [List.map_cons, List.map_cons, List.intercalate_cons_cons, List.append_assoc]
        exact (Tokens.reads_of_ofChars (.inr rfl) _ htext htokens).append
          ((hcomma _).append hreads)
      · have hfirst := htakes.followedBy hw.closed .comma rfl (v ++ [.rightParen])
        rw [List.append_assoc]
        exact Reader.takesFrom_separated_cons Reader.length_expression hfirst hmore

/-- **A call costs two levels more than its most expensive argument**, however many there are. -/
theorem exists_readFrom_call {name separator : String} (hname : isName name = true)
    (hseparator : separator = "," ∨ separator = ", ") {texts : List String} {needs : List Nat}
    (hne : texts ≠ []) (hsharp : ∀ text ∈ texts, '#' ∉ text.toList)
    (h : List.Forall₂ (Needs K) texts needs) :
    ∃ args : List (Expr K), List.Forall₂ (fun text e ↦ ∃ limit, ofText limit text = .ok e) texts args ∧
      ReadFrom (2 + needs.foldr max 0) (name ++ "(" ++ separator.intercalate texts ++ ")")
        (.call (.symbol name) args) := by
  obtain ⟨w, args, hreads, ⟨t, v, rfl, ht⟩, hargs, htakes⟩ :=
    exists_takesFrom_arguments hseparator hne hsharp h
  have hcall := (Reader.takesFrom_call name (Reader.takesFrom_argumentList htakes ht)
    (Nat.zero_le 6))
  have hexpression := Reader.takesFrom_expression hcall rfl rfl
  refine ⟨args, hargs, ?_⟩
  rw [Nat.add_comm]
  refine readFrom_of_tokens (Tokens.Reads.ofText_eq ?_) hexpression
  rw [String.toList_append, String.toList_append, String.toList_append, List.append_assoc,
    List.append_assoc]
  have hnameEnds {rest : List Char} : ∀ c ∈ ('(' :: rest).head?, isNamePart c = false := by
    rintro c ⟨⟩
    decide +kernel
  exact (Tokens.reads_name hname hnameEnds).append
    (Tokens.reads_leftParen.append (hreads.append Tokens.reads_rightParen))

end Expr

/-- **The limit of depth only rejects, and each level of nesting is paid for once.** A line that is
not rejected for its depth means the same under every larger limit. Each pair of parentheses costs one
level, and a call two more than its most expensive argument; below what is needed, the limit is
exceeded. -/
theorem depth_limit_only_rejects (K : Type) [Scalar K] :
    (∀ (text : String) (limit limit' : Nat), limit ≤ limit' →
      Statement.ofText (K := K) limit text ≠ .error (.tooDeep limit) →
      Statement.ofText (K := K) limit' text = Statement.ofText limit text) ∧
    (∀ text : String, '#' ∉ text.toList →
      (∃ limit, ∃ e : Expr K, Expr.ofText limit text = .ok e) →
      ∃ (need : Nat) (e : Expr K), Expr.Needs K text need ∧
        ∀ k limit, Expr.ofText limit (parenthesized^[k] text) =
          if need + k ≤ limit then .ok e else .error (.tooDeep limit)) ∧
    ∀ name separator : String, isName name = true → (separator = "," ∨ separator = ", ") →
      ∀ (texts : List String) (needs : List Nat), texts ≠ [] →
      (∀ text ∈ texts, '#' ∉ text.toList) → List.Forall₂ (Expr.Needs K) texts needs →
      ∃ args : List (Expr K),
        List.Forall₂ (fun text e ↦ ∃ limit, Expr.ofText limit text = .ok e) texts args ∧
        ∀ limit, Expr.ofText limit (name ++ "(" ++ separator.intercalate texts ++ ")") =
          if 2 + needs.foldr max 0 ≤ limit then .ok (.call (.symbol name) args)
          else .error (.tooDeep limit) := by
  refine ⟨fun text limit limit' hle hne ↦ ?_, fun text hsharp hread ↦ ?_,
    fun name separator hname hseparator texts needs hne hsharp hneeds ↦ ?_⟩
  · exact (Statement.ofText_extends hle text).resolve_left hne
  · obtain ⟨need, hneed⟩ := Expr.exists_needs hread
    obtain ⟨e, he⟩ := hneed.exists_readFrom
    exact ⟨need, e, hneed, he.iterate_parenthesized hsharp⟩
  · exact Expr.exists_readFrom_call hname hseparator hne hsharp hneeds

set_option maxRecDepth 10000 in
/-- A sum needs two levels, so a call with it needs four. -/
theorem depth_limit_only_rejects_sum :
    Statement.ofText (K := Float) 7 "a" = Statement.ofText 1 "a" ∧
    (∃ (need : Nat) (e : Expr Float), Expr.Needs Float "a+a" need ∧
      ∀ k limit, Expr.ofText limit (parenthesized^[k] "a+a") =
        if need + k ≤ limit then .ok e else .error (.tooDeep limit)) ∧
    ∃ args : List (Expr Float),
      List.Forall₂ (fun text e ↦ ∃ limit, Expr.ofText limit text = .ok e) ["a", "a+a"] args ∧
      ∀ limit, Expr.ofText limit "f(a, a+a)" =
        if 4 ≤ limit then .ok (.call (.symbol "f") args) else .error (.tooDeep limit) := by
  have hstatement : Statement.ofText (K := Float) 1 "a" = .ok ⟨.expression (.symbol "a"), false⟩ := by
    cbv
  have hsum : Expr.ofText (K := Float) 2 "a+a" = .ok (.binary .add (.symbol "a") (.symbol "a")) := by
    cbv
  have hsymbol : Expr.ofText (K := Float) 1 "a" = .ok (.symbol "a") := by cbv
  have hneedsSum : Expr.Needs Float "a+a" 2 := Expr.needs_succ hsum (by cbv)
  have hneedsSymbol : Expr.Needs Float "a" 1 := Expr.needs_succ hsymbol (by cbv)
  obtain ⟨hlimit, hparentheses, hcall⟩ := depth_limit_only_rejects Float
  refine ⟨hlimit "a" 1 7 (by decide) ?_, hparentheses "a+a" (by decide) ⟨2, _, hsum⟩,
    hcall "f" ", " (by decide +kernel) (.inr rfl) ["a", "a+a"] [1, 2] (List.cons_ne_nil _ _) ?_
      (.cons hneedsSymbol (.cons hneedsSum .nil))⟩
  · simp [hstatement]
  · decide

end Reckoner
