import Reckoner.Proofs.TokenSpelling

/-!
# How tokens cover a text

Here the tokens of a text are requested one by one, each from the place where the one before it ends,
and every token comes with the places of its characters. A request skips blanks, collects the
characters of a number before it reads them as the text of a double, and reports a character that
starts no token (`Lexeme.request`).

The tokens account for the whole text (`Lexeme.requests_cover`). With one request more than there are
characters the end is reached, or a character that starts no token. Up to there the characters that
are not blank are those of the tokens, which are the tokens of the line. A number is never refused,
since what is collected for it is a decimal literal.

What one request gives is said once (`Lexeme.gives_request`), with one case for a token and one for
what ends the tokens. A token has characters, so a request that gives one brings the end nearer, and
its lexeme stands in front of those that the other requests give (`Lexeme.Cover.cons`).
-/

namespace Reckoner

/-! ### Requests -/

/-- A token, with the place of its first character and the one behind its last character. -/
structure Lexeme where
  token : Token Float
  start : Nat
  stop : Nat

namespace Lexeme

/-- The characters of a lexeme. -/
def slice (l : Lexeme) (cs : List Char) : List Char := cs.extract l.start l.stop

/-- Whether a place is one of those of a lexeme. -/
def Holds (l : Lexeme) (i : Nat) : Prop := l.start ≤ i ∧ i < l.stop

/-- The first place from the given one on that is not blank. -/
def skipBlanks (cs : List Char) (place : Nat) : Nat :=
  place + ((cs.drop place).takeWhile Text.isBlank).length

/-- **A request for a token**, from a place of a text. There is none at the end of the text and in
front of a comment. The characters of a number are collected and then read as the text of a double,
and a text that is refused would be reported. -/
def request (cs : List Char) (place : Nat) : Except ParseError (Option Lexeme) :=
  let start := skipBlanks cs place
  match cs.drop start with
  | [] => .ok none
  | c :: rest =>
    if c = '#' then .ok none
    else if Decimal.startsNumber c rest then
      let collected := (c :: rest).take (numeral (c :: rest)).2
      match Double.ofText? (String.ofList collected) with
      | some x => .ok (some ⟨.number x, start, start + collected.length⟩)
      | none => .error (.invalidNumber (String.ofList collected))
    else
      match Token.lexeme? c rest with
      | some (t, taken) => .ok (some ⟨t, start, start + 1 + taken⟩)
      | none => .error (.unexpectedCharacter c start)

/-- At most `n` requests, each from the place where the token before it ends: the tokens, and the
answer that ended them. There is no such answer if all `n` requests gave tokens. -/
def requests (cs : List Char) : (n place : Nat) → List Lexeme × Option (Except ParseError Unit)
  | 0, _ => ([], none)
  | n + 1, place =>
    match request cs place with
    | .ok (some l) =>
      let (ls, ending) := requests cs n l.stop
      (l :: ls, ending)
    | .ok none => ([], some (.ok ()))
    | .error e => ([], some (.error e))

/-! ### Coverage -/

/-- All characters from one place to another are blank. -/
def Blank (cs : List Char) (first last : Nat) : Prop :=
  ∀ i c, first ≤ i → i < last → cs[i]? = some c → Text.isBlank c = true

/-- **Lexemes cover a part of a text**: they lie in it one behind the other, each has characters,
which spell its token, and the characters that none of them holds are the blank ones. -/
structure Cover (cs : List Char) (first last : Nat) (lexemes : List Lexeme) : Prop where
  first_le_last : first ≤ last
  last_le_length : last ≤ cs.length
  pairwise : lexemes.Pairwise fun l m ↦ l.stop ≤ m.start
  within : ∀ l ∈ lexemes, first ≤ l.start ∧ l.start < l.stop ∧ l.stop ≤ last
  spelled : ∀ l ∈ lexemes, l.token.Spelled (l.slice cs)
  blank_iff : ∀ i c, first ≤ i → i < last → cs[i]? = some c →
    (Text.isBlank c = true ↔ ∀ l ∈ lexemes, ¬l.Holds i)

/-- **What ends the tokens at a place**: nothing is left there or only a comment, or the character
there is reported, with its place. -/
def EndsAt (cs : List Char) (last : Nat) : Except ParseError Unit → Prop
  | .ok () => cs.drop last = [] ∨ ∃ comment, cs.drop last = '#' :: comment
  | .error e => ∃ c rest, cs.drop last = c :: rest ∧ e = .unexpectedCharacter c last

/-- The tokens that are left where they end. -/
def endTokens : Except ParseError Unit → Tokens Float
  | .ok () => .done
  | .error e => .broken e

theorem mem_take_drop {cs : List Char} {start i n : Nat} {c : Char} (hle : start ≤ i)
    (hlt : i < start + n) (hc : cs[i]? = some c) : c ∈ (cs.drop start).take n := by
  refine List.mem_of_getElem? (i := i - start) ?_
  rw [List.getElem?_take_of_lt (by omega), List.getElem?_drop, Nat.add_sub_cancel' hle, hc]

section Cover

variable {cs : List Char} {first last : Nat} {lexemes : List Lexeme}

theorem Cover.nil (hle : first ≤ last) (hlast : last ≤ cs.length) (h : Blank cs first last) :
    Cover cs first last [] where
  first_le_last := hle
  last_le_length := hlast
  pairwise := .nil
  within := List.forall_mem_nil _
  spelled := List.forall_mem_nil _
  blank_iff i c hfirst hi hc := iff_of_true (h i c hfirst hi hc) (List.forall_mem_nil _)

/-- **A lexeme in front of others**, behind blanks. -/
theorem Cover.cons {l : Lexeme} (h : Cover cs l.stop last lexemes) (hle : first ≤ l.start)
    (hblank : Blank cs first l.start) (hlt : l.start < l.stop)
    (hspelled : l.token.Spelled (l.slice cs)) : Cover cs first last (l :: lexemes) where
  first_le_last := (hle.trans hlt.le).trans h.first_le_last
  last_le_length := h.last_le_length
  pairwise := List.pairwise_cons.2 ⟨fun m hm ↦ (h.within m hm).1, h.pairwise⟩
  within := by
    refine List.forall_mem_cons.2 ⟨⟨hle, hlt, h.first_le_last⟩, fun m hm ↦ ?_⟩
    obtain ⟨hstart, hm⟩ := h.within m hm
    exact ⟨(hle.trans hlt.le).trans hstart, hm⟩
  spelled := List.forall_mem_cons.2 ⟨hspelled, h.spelled⟩
  blank_iff i c hfirst hi hc := by
    rw [List.forall_mem_cons]
    rcases lt_or_ge i l.stop with hstop | hstop
    · have hothers : ∀ m ∈ lexemes, ¬m.Holds i :=
        fun m hm hholds ↦ not_lt.2 hholds.1 (hstop.trans_le (h.within m hm).1)
      rcases lt_or_ge i l.start with hstart | hstart
      · have hnot : ¬l.Holds i := fun hholds ↦ not_lt.2 hholds.1 hstart
        exact iff_of_true (hblank i c hfirst hstart hc) ⟨hnot, hothers⟩
      · have hmem : c ∈ l.slice cs := mem_take_drop hstart (by omega) hc
        have hnot : ¬Text.isBlank c = true :=
          Bool.eq_false_iff.1 (hspelled.isBlank_eq_false c hmem)
        exact iff_of_false hnot fun hnone ↦ hnone.1 ⟨hstart, hstop⟩
    · have hnot : ¬l.Holds i := fun hholds ↦ not_lt.2 hstop hholds.2
      rw [h.blank_iff i c hstop hi hc, and_iff_right hnot]

end Cover

/-! ### One request -/

variable {cs : List Char} {place : Nat}

theorem skipBlanks_le (h : place ≤ cs.length) :
    place ≤ skipBlanks cs place ∧ skipBlanks cs place ≤ cs.length := by
  have hle := (List.takeWhile_prefix Text.isBlank (l := cs.drop place)).length_le
  rw [List.length_drop] at hle
  rw [skipBlanks]
  omega

theorem blank_skipBlanks (cs : List Char) (place : Nat) : Blank cs place (skipBlanks cs place) := by
  intro i c hle hlt hc
  have hmem := mem_take_drop hle hlt hc
  rw [← List.prefix_iff_eq_take.1 (List.takeWhile_prefix _)] at hmem
  exact List.mem_takeWhile_imp hmem

theorem drop_skipBlanks (cs : List Char) (place : Nat) :
    cs.drop (skipBlanks cs place) = (cs.drop place).dropWhile Text.isBlank := by
  have hsplit := List.takeWhile_append_dropWhile (p := Text.isBlank) (l := cs.drop place)
  rw [skipBlanks, ← List.drop_drop]
  exact (congrArg (List.drop _) hsplit.symm).trans List.drop_left

/-- Blanks have no tokens. -/
theorem ofChars_dropWhile (column : Nat) (cs : List Char) :
    Tokens.ofChars (K := Float) column cs =
      .ofChars (column + (cs.takeWhile Text.isBlank).length) (cs.dropWhile Text.isBlank) := by
  induction cs generalizing column with
  | nil => rfl
  | cons c cs ih =>
    cases hc : Text.isBlank c with
    | true =>
      rw [Tokens.ofChars, if_pos hc, ih, List.takeWhile_cons_of_pos hc, List.dropWhile_cons_of_pos hc,
        List.length_cons, Nat.add_assoc, Nat.add_comm 1]
    | false =>
      have hnot : ¬Text.isBlank c = true := Bool.eq_false_iff.1 hc
      rw [List.takeWhile_cons_of_neg hnot, List.dropWhile_cons_of_neg hnot]
      rfl

/-- **What a request can give**, and the tokens that are left at its place: a token behind blanks and
the tokens behind it, or what ends the tokens, also behind blanks. -/
inductive Gives (cs : List Char) (place : Nat) :
    Except ParseError (Option Lexeme) → Tokens Float → Prop
  | token {l : Lexeme} : place ≤ l.start → Blank cs place l.start → l.start < l.stop →
    l.stop ≤ cs.length → l.token.Spelled (l.slice cs) →
    Gives cs place (.ok (some l)) (.more l.token (.ofChars l.stop (cs.drop l.stop)))
  | ending {last : Nat} {e : Except ParseError Unit} : place ≤ last → last ≤ cs.length →
    Blank cs place last → EndsAt cs last e →
    Gives cs place (e.map fun _ ↦ none) (endTokens e)

/-- To collect a number and to read it is the same as to cut it off: in both ways the token is the
one with which the text begins, at the first place that is not blank. -/
theorem request_of_cons {c : Char} {rest : List Char}
    (hdrop : cs.drop (skipBlanks cs place) = c :: rest) (hsharp : c ≠ '#') :
    request cs place =
      match Token.lexeme? c rest with
      | some (t, taken) =>
        .ok (some ⟨t, skipBlanks cs place, skipBlanks cs place + 1 + taken⟩)
      | none => .error (.unexpectedCharacter c (skipBlanks cs place)) := by
  rw [request, hdrop]
  dsimp only
  rw [if_neg hsharp]
  cases hnumber : Decimal.startsNumber c rest with
  | true =>
    obtain ⟨x, taken, hlexeme, hcollected, hread, -⟩ := Token.exists_number hnumber
    have hlength : skipBlanks cs place + (c :: rest.take taken).length =
        skipBlanks cs place + 1 + taken := by
      rw [List.length_cons, List.length_take_of_le (Token.lexeme?_le hlexeme), Nat.add_assoc,
        Nat.add_comm 1]
    rw [if_pos rfl, ← hcollected, hread, hlexeme]
    dsimp only
    rw [hlength]
  | false => rw [if_neg Bool.false_ne_true]

/-- The token at the place `start`, and the tokens behind it. -/
theorem gives_token {start taken : Nat} {c : Char} {rest : List Char} {t : Token Float}
    (hle : place ≤ start) (hblank : Blank cs place start) (hdrop : cs.drop start = c :: rest)
    (h : Token.lexeme? c rest = some (t, taken)) :
    Gives cs place (.ok (some ⟨t, start, start + 1 + taken⟩))
      (.more t (.ofChars (start + 1 + taken) (rest.drop taken))) := by
  have htaken := Token.lexeme?_le h
  have hsize := congrArg List.length hdrop
  rw [List.length_drop, List.length_cons] at hsize
  have hbehind : rest.drop taken = cs.drop (start + 1 + taken) := by
    rw [Nat.add_assoc, ← List.drop_drop, hdrop, Nat.add_comm 1, List.drop_succ_cons]
  have hslice : cs.extract start (start + 1 + taken) = c :: rest.take taken := by
    have hlength : start + 1 + taken - start = taken + 1 := by omega
    rw [List.extract_eq_take_drop, hlength, hdrop, List.take_succ_cons]
  have hlt : start < start + 1 + taken := by omega
  have hstop : start + 1 + taken ≤ cs.length := by omega
  have hspelled : t.Spelled (cs.extract start (start + 1 + taken)) :=
    hslice ▸ Token.spelled_of_lexeme? h
  rw [hbehind]
  exact .token (l := ⟨t, start, start + 1 + taken⟩) hle hblank hlt hstop hspelled

/-- **A request gives the next of the tokens of the text.** -/
theorem gives_request (h : place ≤ cs.length) :
    Gives cs place (request cs place) (Tokens.ofChars place (cs.drop place)) := by
  obtain ⟨hle, hlength⟩ := skipBlanks_le h
  have hblank := blank_skipBlanks cs place
  have htokens : Tokens.ofChars (K := Float) place (cs.drop place) =
      .ofChars (skipBlanks cs place) (cs.drop (skipBlanks cs place)) := by
    rw [drop_skipBlanks]
    exact ofChars_dropWhile place _
  rw [htokens]
  cases hdrop : cs.drop (skipBlanks cs place) with
  | nil =>
    have hrequest : request cs place = .ok none := by
      rw [request, hdrop]
    rw [hrequest, Tokens.ofChars]
    exact .ending (e := .ok ()) hle hlength hblank (.inl hdrop)
  | cons c rest =>
    have hnot : Text.isBlank c = false := by
      have hhead := List.head?_dropWhile_not Text.isBlank (cs.drop place)
      rwa [← drop_skipBlanks, hdrop] at hhead
    rw [Tokens.ofChars, hnot, if_neg Bool.false_ne_true]
    by_cases hsharp : c = '#'
    · have hrequest : request cs place = .ok none := by
        rw [request, hdrop]
        dsimp only
        rw [if_pos hsharp]
      rw [hrequest, if_pos hsharp]
      exact .ending (e := .ok ()) hle hlength hblank (.inr ⟨rest, hsharp ▸ hdrop⟩)
    rw [request_of_cons hdrop hsharp, if_neg hsharp]
    cases hlexeme : Token.lexeme? (K := Float) c rest with
    | none => exact .ending (e := .error _) hle hlength hblank ⟨c, rest, hdrop, rfl⟩
    | some found =>
      obtain ⟨t, taken⟩ := found
      exact gives_token hle hblank hdrop hlexeme

/-! ### All requests -/

/-- **Requests cover the text behind their place**, if there is one more of them than there are
characters. -/
theorem exists_cover {n : Nat} (hplace : place ≤ cs.length) (hn : cs.length < place + n) :
    ∃ lexemes ending last, requests cs n place = (lexemes, some ending) ∧
      Cover cs place last lexemes ∧ EndsAt cs last ending ∧
      Tokens.ofChars (K := Float) place (cs.drop place) =
        Tokens.prepend (lexemes.map Lexeme.token) (endTokens ending) := by
  induction n generalizing place with
  | zero => omega
  | succ n ih =>
    have hgives := gives_request hplace
    rw [requests]
    generalize request cs place = answer at hgives
    generalize Tokens.ofChars (K := Float) place (cs.drop place) = ts at hgives ⊢
    cases hgives with
    | @token l hle hblank hlt hstop hspelled =>
      obtain ⟨lexemes, ending, last, hrequests, hcover, hend, htokens⟩ := ih hstop (by omega)
      refine ⟨l :: lexemes, ending, last, ?_, hcover.cons hle hblank hlt hspelled, hend, ?_⟩
      · dsimp only
        rw [hrequests]
      · rw [htokens]
        rfl
    | @ending last e hle hlast hblank hend =>
      refine ⟨[], e, last, ?_, .nil hle hlast hblank, hend, rfl⟩
      cases e <;> rfl

/-- **Requests cover a text exactly.** With one request more than there are characters they come to
an end, which is the end of the text, a comment, or a character that starts no token and is reported
with its place. Nothing else is reported. Up to there, the places that are not blank are those of the
tokens that were given, one behind the other, and these are the tokens of the line. -/
theorem requests_cover (text : String) : ∃ lexemes ending last,
    requests text.toList (text.toList.length + 1) 0 = (lexemes, some ending) ∧
      Cover text.toList 0 last lexemes ∧ EndsAt text.toList last ending ∧
      Tokens.ofText text = Tokens.prepend (lexemes.map Lexeme.token) (endTokens ending) :=
  exists_cover (Nat.zero_le _) (by omega)

set_option maxRecDepth 4000 in
/-- The second character of `<=` belongs to it, and `!` starts no token without one. -/
example : requests "x <= !y".toList 8 0 =
    ([⟨.name "x", 0, 1⟩, ⟨.lessEqual, 2, 4⟩], some (.error (.unexpectedCharacter '!' 5))) := by cbv

end Lexeme

end Reckoner
