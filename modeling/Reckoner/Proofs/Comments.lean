import Reckoner.Proofs.DelimitedText

/-!
# Comments

A comment, and blanks in front of it, change nothing about a line: neither what it says nor what is
wrong with it, down to the column of a character that starts no token (`Statement.ofText_append_comment`).

For a token in the middle of the line this is clear, since tokens are read from left to right. It is the
last token that might go on: a number looks for digits behind a point or behind the sign of an exponent,
a name for letters, and some marks for a second character. Neither a blank nor the sign of a comment is
any of these (`endsToken_of_isBlank`, `endsToken_sharp`), so the text is cut into the same tokens as if
it ended there.
-/

namespace Reckoner

/-! ### Characters that end tokens -/

/-- A blank is neither a digit or another part of a name nor a mark. -/
theorem endsToken_of_isBlank {c : Char} (h : Text.isBlank c = true) : EndsToken c where
  isDigit_eq_false := by
    refine Bool.eq_false_iff.2 fun hdigit ↦ ?_
    rw [(Decimal.not_isBlank_of_isDigit hdigit).1] at h
    contradiction
  isNamePart_eq_false := by
    have hstart : isNameStart c = false := Bool.eq_false_iff.2 fun hstart ↦ by
      rw [(not_isBlank_of_isNameStart hstart).1] at h
      contradiction
    have hnumeric : Text.isNumeric c = false := Text.inRanges_eq_false (by decide +kernel) h
    rw [isNameStart] at hstart
    rw [isNamePart, hnumeric, Bool.or_false, hstart]
  notMem hmem := by
    simp only [List.mem_cons, List.not_mem_nil, or_false] at hmem
    rcases hmem with rfl | rfl | rfl | rfl | rfl <;> contradiction

theorem endsToken_sharp : EndsToken '#' := ⟨by decide, by decide +kernel, by decide⟩

/-- Blanks and a comment begin with a character that ends tokens. -/
theorem exists_endsToken {blanks : List Char} (hblanks : ∀ c ∈ blanks, Text.isBlank c = true)
    (comment : List Char) : ∃ d rest, blanks ++ '#' :: comment = d :: rest ∧ EndsToken d := by
  cases blanks with
  | nil => exact ⟨'#', comment, rfl, endsToken_sharp⟩
  | cons c blanks =>
    exact ⟨c, blanks ++ '#' :: comment, rfl, endsToken_of_isBlank (hblanks c List.mem_cons_self)⟩

/-! ### Tokens -/

namespace Tokens

variable {K : Type} [Scalar K]

/-- Blanks and a comment have no tokens. -/
theorem ofChars_comment {blanks : List Char} (hblanks : ∀ c ∈ blanks, Text.isBlank c = true)
    (comment : List Char) (column : Nat) :
    ofChars (K := K) column (blanks ++ '#' :: comment) = .done := by
  induction blanks generalizing column with
  | nil => rw [List.nil_append, ofChars, if_neg (by decide), if_pos rfl]
  | cons c blanks ih =>
    obtain ⟨hc, hblanks⟩ := List.forall_mem_cons.1 hblanks
    rw [List.cons_append, ofChars, if_pos hc, ih hblanks]

/-- **A text is cut into the same tokens with and without what stands behind it**, if that has no tokens
and begins with a character that ends those in front of it. -/
theorem ofChars_append {d : Char} (hd : EndsToken d) {rest : List Char}
    (hdone : ∀ column, ofChars (K := K) column (d :: rest) = .done) (column : Nat) (cs : List Char) :
    ofChars (K := K) column (cs ++ d :: rest) = ofChars column cs := by
  -- A `#` within the text ends the line on both sides.
  fun_induction ofChars (K := K) column cs with
  | case1 column => exact hdone column
  | case2 column c cs hblank ih => rw [List.cons_append, ofChars, if_pos hblank, ih]
  | case3 column cs hsharp => rw [List.cons_append, ofChars, if_neg (by decide), if_pos rfl]
  | case4 column c cs hblank hsharp hlexeme =>
    rw [List.cons_append, ofChars, if_neg hblank, if_neg hsharp, Token.lexeme?_append hd, hlexeme]
  | case5 column c cs hblank hsharp t taken hlexeme ih =>
    rw [List.cons_append, ofChars, if_neg hblank, if_neg hsharp, Token.lexeme?_append hd, hlexeme]
    dsimp only
    rw [List.drop_append_of_le_length (Token.lexeme?_le hlexeme), ih]

theorem ofText_comment (line : String) {blanks : String}
    (hblanks : ∀ c ∈ blanks.toList, Text.isBlank c = true) (comment : String) :
    ofText (K := K) (line ++ blanks ++ "#" ++ comment) = ofText line := by
  have hchars : (line ++ blanks ++ "#" ++ comment).toList =
      line.toList ++ (blanks.toList ++ '#' :: comment.toList) := by
    simp
  obtain ⟨d, rest, hrest, hd⟩ := exists_endsToken hblanks comment.toList
  rw [ofText, ofText, hchars, hrest]
  refine ofChars_append hd (fun column ↦ ?_) 0 line.toList
  rw [← hrest, ofChars_comment hblanks]

end Tokens

/-! ### Lines -/

/-- **Comments are transparent.** Under every limit, a line with any blanks and any comment behind it
is read as the line alone: as the same statement, or with the same error. -/
theorem Statement.ofText_append_comment {K : Type} [Scalar K] (limit : Nat)
    (line blanks comment : String) (hblanks : ∀ c ∈ blanks.toList, Text.isBlank c = true) :
    ofText (K := K) limit (line ++ blanks ++ "#" ++ comment) = ofText limit line := by
  rw [ofText, ofText, Tokens.ofText_comment line hblanks]

set_option maxRecDepth 4000 in
/-- An exclamation mark that a comment would complete starts no token, in its own column. -/
theorem Statement.ofText_append_comment_unequal :
    (∀ c ∈ "\u3000\t".toList, Text.isBlank c = true) ∧
      (ofText 128 ("x!" ++ "\u3000\t" ++ "#" ++ "= 3") : Except ParseError (Statement Float)) =
        .error (.unexpectedCharacter '!' 1) := by
  have hblanks : ∀ c ∈ "\u3000\t".toList, Text.isBlank c = true := by
    intro c hc
    simp only [String.reduceToList, List.mem_cons, List.not_mem_nil, or_false] at hc
    rcases hc with rfl | rfl <;> decide
  have hline : (ofText 128 "x!" : Except ParseError (Statement Float)) =
      .error (.unexpectedCharacter '!' 1) := by cbv
  exact ⟨hblanks, (Statement.ofText_append_comment 128 "x!" "\u3000\t" "= 3" hblanks).trans hline⟩

end Reckoner
