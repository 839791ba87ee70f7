import Reckoner.Proofs.FreshResults

/-!
# A cursor by numbers

The editor keeps a text in parts, before and after the cursor, so that the cursor cannot lie outside of
it. The usual way is another one: all lines in one list, and the cursor as two numbers, its row and its
column. Every edit then indexes, inserts, removes, splits or subtracts at these numbers, and each of
these steps is an error outside of a certain range. Within a line, moreover, a column counts characters,
while characters are inserted and removed at bytes: the column is turned into the offset of its first
byte, and an offset among the bytes of one character is an error too.

Here the operations are written in the usual way, and no step is taken without a check that its numbers
are in range; an operation with a step that is not has no result (`LineCaret`, `TextCaret`). Said of the
numbers of a buffer, every operation has a result, and it is the numbers of the buffer after the
operation.

What makes the steps of the two forms meet is that the list of a text in parts is the first part turned
around, followed by the rest, and the index of the cursor is the length of the first part
(`Checked.set_reverse_append` and its companions); the offset of the cursor is the number of bytes of
the first part (`Checked.offset_reverse_append`), and there a text can be split
(`Checked.splitBytes_eq_some_iff`).
-/

namespace Reckoner

/-! ### Steps with a range -/

namespace Checked

variable {α : Type}

/-- The difference of two numbers, unless it is negative. -/
def sub (a b : Nat) : Option Nat := if b ≤ a then some (a - b) else none

/-- Replaces an element. -/
def set (xs : List α) (i : Nat) (a : α) : Option (List α) :=
  if i < xs.length then some (xs.set i a) else none

/-- Inserts an element, at the end at most. -/
def insert (xs : List α) (i : Nat) (a : α) : Option (List α) :=
  if i ≤ xs.length then some (xs.insertIdx i a) else none

/-- Removes an element, and gives it back. -/
def remove (xs : List α) (i : Nat) : Option (α × List α) := xs[i]?.map (·, xs.eraseIdx i)

theorem sub_eq_some {a b : Nat} (h : b ≤ a) : sub a b = some (a - b) := if_pos h

section

variable (xs ys : List α) (a b : α)

theorem getElem?_reverse_append : (xs.reverse ++ a :: ys)[xs.length]? = some a := by
  rw [← List.length_reverse, List.getElem?_append_right (Nat.le_refl _), Nat.sub_self,
    List.getElem?_cons_zero]

theorem set_reverse_append :
    set (xs.reverse ++ a :: ys) xs.length b = some (xs.reverse ++ b :: ys) := by
  rw [set, if_pos (by simp), ← List.length_reverse, List.set_append_right _ _ (Nat.le_refl _),
    Nat.sub_self, List.set_cons_zero]

theorem insert_reverse_append :
    insert (xs.reverse ++ ys) xs.length a = some (xs.reverse ++ a :: ys) := by
  have hinsert : ∀ zs : List α, (zs ++ ys).insertIdx zs.length a = zs ++ a :: ys := by
    intro zs
    induction zs with
    | nil => rfl
    | cons z zs ih =>
      rw [List.cons_append, List.length_cons, List.insertIdx_succ_cons, ih, List.cons_append]
  rw [insert, if_pos (by simp), ← List.length_reverse, hinsert]

theorem remove_reverse_append :
    remove (xs.reverse ++ a :: ys) xs.length = some (a, xs.reverse ++ ys) := by
  rw [remove, getElem?_reverse_append, ← List.length_reverse,
    List.eraseIdx_append_of_length_le (Nat.le_refl _), Nat.sub_self, List.eraseIdx_cons_zero]
  rfl

/-- The first part may be taken to be longer by an element. -/
theorem reverse_append_cons : xs.reverse ++ a :: ys = (a :: xs).reverse ++ ys := by
  rw [List.reverse_cons, List.append_assoc, List.singleton_append]

end

/-! ### Steps at bytes -/

/-- The characters of a text, each with the offset of its first byte, counted from a given offset. -/
def charIndices (offset : Nat) : List Char → List (Nat × Char)
  | [] => []
  | c :: cs => (offset, c) :: charIndices (offset + c.utf8Size) cs

/-- The number of bytes of a text. -/
def byteLength : List Char → Nat
  | [] => 0
  | c :: cs => c.utf8Size + byteLength cs

/-- The offset of the character in a column, or of the end if there is none. -/
def byteIndex (cs : List Char) (column : Nat) : Nat :=
  ((charIndices 0 cs)[column]?.map Prod.fst).getD (byteLength cs)

/-- The offset of a column, which is at the end at most. -/
def offset (cs : List Char) (column : Nat) : Option Nat :=
  if column ≤ cs.length then some (byteIndex cs column) else none

/-- Splits a text at an offset, neither within a character nor behind the end. -/
def splitBytes : List Char → Nat → Option (List Char × List Char)
  | cs, 0 => some ([], cs)
  | [], _ + 1 => none
  | c :: cs, offset =>
    if c.utf8Size ≤ offset then
      (splitBytes cs (offset - c.utf8Size)).map fun (front, rest) ↦ (c :: front, rest)
    else none

/-- Inserts a character at an offset. -/
def insertBytes (cs : List Char) (offset : Nat) (c : Char) : Option (List Char) := do
  let (front, rest) ← splitBytes cs offset
  some (front ++ c :: rest)

/-- Removes the character at an offset, which must not be the end, and gives it back. -/
def removeBytes (cs : List Char) (offset : Nat) : Option (Char × List Char) := do
  match ← splitBytes cs offset with
  | (front, c :: rest) => some (c, front ++ rest)
  | (_, []) => none

theorem byteLength_cons (c : Char) (cs : List Char) :
    byteLength (c :: cs) = c.utf8Size + byteLength cs := rfl

theorem map_fst_charIndices (start column : Nat) (cs : List Char) :
    ((charIndices start cs)[column]?.map Prod.fst).getD (start + byteLength cs) =
      start + byteLength (cs.take column) := by
  induction cs generalizing start column with
  | nil => cases column <;> rfl
  | cons c cs ih =>
    cases column with
    | zero => rfl
    | succ column =>
      rw [charIndices, List.getElem?_cons_succ, List.take_succ_cons, byteLength_cons, byteLength_cons,
        ← Nat.add_assoc, ← Nat.add_assoc]
      exact ih (start + c.utf8Size) column

/-- The offset of a column is the number of bytes of the characters before it. -/
theorem byteIndex_eq (cs : List Char) (column : Nat) :
    byteIndex cs column = byteLength (cs.take column) := by
  have h := map_fst_charIndices 0 column cs
  rwa [Nat.zero_add, Nat.zero_add] at h

theorem byteLength_eq_zero_iff {cs : List Char} : byteLength cs = 0 ↔ cs = [] := by
  cases cs with
  | nil => exact iff_of_true rfl rfl
  | cons c cs =>
    have hpos := c.utf8Size_pos
    rw [byteLength_cons]
    exact iff_of_false (by omega) (List.cons_ne_nil _ _)

/-- A text is split where one character ends and the next one begins. -/
theorem splitBytes_eq_some_iff {cs front rest : List Char} {offset : Nat} :
    splitBytes cs offset = some (front, rest) ↔ cs = front ++ rest ∧ byteLength front = offset := by
  fun_induction splitBytes cs offset generalizing front with
  | case1 cs =>
    rw [byteLength_eq_zero_iff, Option.some.injEq, Prod.mk.injEq]
    constructor
    · rintro ⟨rfl, rfl⟩
      exact ⟨rfl, rfl⟩
    · rintro ⟨happend, rfl⟩
      exact ⟨rfl, happend⟩
  | case2 offset =>
    refine iff_of_false nofun ?_
    rintro ⟨happend, hlength⟩
    rw [(List.nil_eq_append_iff.1 happend).1] at hlength
    contradiction
  | case3 offset c cs hne hle ih =>
    rw [Option.map_eq_some_iff]
    constructor
    · rintro ⟨⟨front', rest'⟩, hsplit, heq⟩
      obtain ⟨rfl, rfl⟩ := Prod.mk.inj heq
      obtain ⟨rfl, hlength⟩ := ih.1 hsplit
      refine ⟨rfl, ?_⟩
      rw [byteLength_cons, hlength, Nat.add_sub_cancel' hle]
    · rintro ⟨happend, hlength⟩
      rcases List.cons_eq_append_iff.1 happend with ⟨rfl, -⟩ | ⟨front', rfl, rfl⟩
      · exact absurd hlength.symm hne
      · refine ⟨(front', rest), ih.2 ⟨rfl, ?_⟩, rfl⟩
        rw [← hlength, byteLength_cons, Nat.add_sub_cancel_left]
  | case4 offset c cs hne hlt =>
    refine iff_of_false nofun ?_
    rintro ⟨happend, hlength⟩
    rcases List.cons_eq_append_iff.1 happend with ⟨rfl, -⟩ | ⟨front', rfl, rfl⟩
    · exact hne hlength.symm
    · rw [byteLength_cons] at hlength
      omega

section

variable (xs ys : List Char) (c : Char)

theorem offset_reverse_append : offset (xs.reverse ++ ys) xs.length = some (byteLength xs.reverse) := by
  rw [offset, if_pos (by simp), byteIndex_eq, ← List.length_reverse, List.take_left]

theorem splitBytes_append : splitBytes (xs ++ ys) (byteLength xs) = some (xs, ys) :=
  splitBytes_eq_some_iff.2 ⟨rfl, rfl⟩

theorem insertBytes_append : insertBytes (xs ++ ys) (byteLength xs) c = some (xs ++ c :: ys) := by
  rw [insertBytes, splitBytes_append]
  rfl

theorem removeBytes_append : removeBytes (xs ++ c :: ys) (byteLength xs) = some (c, xs ++ ys) := by
  rw [removeBytes, splitBytes_append]
  rfl

end

end Checked

/-! ### One line -/

/-- A line and a column in it. -/
structure LineCaret where
  chars : List Char
  column : Nat
deriving DecidableEq

namespace LineCaret

/-- Puts a character before the cursor. -/
def insert? (l : LineCaret) (c : Char) : Option LineCaret := do
  let offset ← Checked.offset l.chars l.column
  let chars ← Checked.insertBytes l.chars offset c
  some ⟨chars, l.column + 1⟩

/-- Takes away the character before the cursor, if the cursor is not at the start. -/
def backspace? (l : LineCaret) : Option LineCaret :=
  if 0 < l.column then do
    let column ← Checked.sub l.column 1
    let offset ← Checked.offset l.chars column
    let (_, chars) ← Checked.removeBytes l.chars offset
    some ⟨chars, column⟩
  else some l

/-- Takes away the character after the cursor, if the cursor is not at the end. -/
def delete? (l : LineCaret) : Option LineCaret :=
  if l.column < l.chars.length then do
    let offset ← Checked.offset l.chars l.column
    let (_, chars) ← Checked.removeBytes l.chars offset
    some ⟨chars, l.column⟩
  else some l

/-- Moves the cursor to the left, if it is not at the start. -/
def left? (l : LineCaret) : Option LineCaret :=
  if 0 < l.column then do
    let column ← Checked.sub l.column 1
    some ⟨l.chars, column⟩
  else some l

/-- Moves the cursor to the right, if it is not at the end. -/
def right (l : LineCaret) : LineCaret :=
  if l.column < l.chars.length then ⟨l.chars, l.column + 1⟩ else l

/-- Moves the cursor to the start. -/
def home (l : LineCaret) : LineCaret := ⟨l.chars, 0⟩

/-- Moves the cursor to the end. -/
def toEnd (l : LineCaret) : LineCaret := ⟨l.chars, l.chars.length⟩

end LineCaret

namespace CursorLine

variable (l : CursorLine)

/-- The line and its column. -/
def caret : LineCaret := ⟨l.chars, l.column⟩

theorem caret_insert (c : Char) : l.caret.insert? c = some (l.insert c).caret := by
  obtain ⟨before, after⟩ := l
  simp only [caret, LineCaret.insert?, chars, column, Checked.offset_reverse_append,
    Checked.insertBytes_append, Option.bind_eq_bind, Option.bind_some]
  simp [insert]

theorem caret_backspace : l.caret.backspace? = some (l.backspace?.getD l).caret := by
  obtain ⟨before, after⟩ := l
  cases before with
  | nil => rfl
  | cons c before =>
    have hchars : (c :: before).reverse ++ after = before.reverse ++ c :: after :=
      (Checked.reverse_append_cons before after c).symm
    simp only [caret, LineCaret.backspace?, chars, column, List.length_cons, Nat.succ_pos, if_true,
      Checked.sub_eq_some (Nat.le_add_left 1 _), Nat.add_sub_cancel, hchars,
      Checked.offset_reverse_append, Checked.removeBytes_append, Option.bind_eq_bind,
      Option.bind_some]
    rfl

theorem caret_delete : l.caret.delete? = some (l.delete?.getD l).caret := by
  obtain ⟨before, after⟩ := l
  cases after with
  | nil => simp [caret, LineCaret.delete?, chars, column, delete?]
  | cons c after =>
    have hcolumn : before.length < (before.reverse ++ c :: after).length := by simp
    simp only [caret, LineCaret.delete?, chars, column, hcolumn, if_true,
      Checked.offset_reverse_append, Checked.removeBytes_append, Option.bind_eq_bind,
      Option.bind_some]
    rfl

theorem caret_left : l.caret.left? = some (l.left?.getD l).caret := by
  obtain ⟨before, after⟩ := l
  cases before with
  | nil => rfl
  | cons c before => simp [caret, LineCaret.left?, chars, column, left?, Checked.sub]

theorem caret_right : l.caret.right = (l.right?.getD l).caret := by
  obtain ⟨before, after⟩ := l
  cases after with
  | nil => simp [caret, LineCaret.right, chars, column, right?]
  | cons c after => simp [caret, LineCaret.right, chars, column, right?]

theorem caret_home : l.caret.home = l.home.caret := by
  simp [caret, LineCaret.home, home, column, atStart, chars]

theorem caret_toEnd : l.caret.toEnd = l.toEnd.caret := by
  have hcolumn : (atEnd l.chars).column = l.chars.length := List.length_reverse
  rw [caret, caret, LineCaret.toEnd, toEnd, chars_atEnd, hcolumn]

end CursorLine

/-! ### A text -/

/-- Lines with a row and a column in that row. -/
structure TextCaret where
  rows : List (List Char)
  row : Nat
  column : Nat
deriving DecidableEq

namespace TextCaret

/-- The line with the cursor. -/
def current? (t : TextCaret) : Option LineCaret := do
  let line ← t.rows[t.row]?
  some ⟨line, t.column⟩

/-- The text with another line in place of the one with the cursor. -/
def put? (t : TextCaret) (l : LineCaret) : Option TextCaret := do
  let rows ← Checked.set t.rows t.row l.chars
  some ⟨rows, t.row, l.column⟩

/-- Puts a character before the cursor. -/
def insert? (t : TextCaret) (c : Char) : Option TextCaret := do
  let line ← t.current?
  t.put? (← line.insert? c)

/-- Breaks the line at the cursor. -/
def breakLine? (t : TextCaret) : Option TextCaret := do
  let line ← t.rows[t.row]?
  let offset ← Checked.offset line t.column
  let (front, rest) ← Checked.splitBytes line offset
  let rows ← Checked.set t.rows t.row front
  let rows ← Checked.insert rows (t.row + 1) rest
  some ⟨rows, t.row + 1, 0⟩

/-- Takes away the character before the cursor; at the start of a line, joins it to the line above. -/
def backspace? (t : TextCaret) : Option TextCaret :=
  if 0 < t.column then do
    let line ← t.current?
    t.put? (← line.backspace?)
  else if 0 < t.row then do
    let (line, rows) ← Checked.remove t.rows t.row
    let row ← Checked.sub t.row 1
    let above ← rows[row]?
    let rows ← Checked.set rows row (above ++ line)
    some ⟨rows, row, above.length⟩
  else some t

/-- Takes away the character after the cursor; at the end of a line, joins the line below to it. -/
def delete? (t : TextCaret) : Option TextCaret := do
  let line ← t.current?
  if line.column < line.chars.length then
    t.put? (← line.delete?)
  else if t.row + 1 < t.rows.length then
    let (next, rows) ← Checked.remove t.rows (t.row + 1)
    let line ← rows[t.row]?
    let rows ← Checked.set rows t.row (line ++ next)
    some ⟨rows, t.row, t.column⟩
  else some t

/-- Moves the cursor back by one character, from the start of a line to the end of the one above. -/
def left? (t : TextCaret) : Option TextCaret :=
  if 0 < t.column then do
    let column ← Checked.sub t.column 1
    some ⟨t.rows, t.row, column⟩
  else if 0 < t.row then do
    let row ← Checked.sub t.row 1
    let line ← t.rows[row]?
    some ⟨t.rows, row, line.length⟩
  else some t

/-- Moves the cursor on by one character, from the end of a line to the start of the one below. -/
def right? (t : TextCaret) : Option TextCaret := do
  let line ← t.rows[t.row]?
  if t.column < line.length then some ⟨t.rows, t.row, t.column + 1⟩
  else if t.row + 1 < t.rows.length then some ⟨t.rows, t.row + 1, 0⟩
  else some t

/-- Moves the cursor to the line above, in the same column if that line is long enough. -/
def up? (t : TextCaret) : Option TextCaret :=
  if 0 < t.row then do
    let row ← Checked.sub t.row 1
    let line ← t.rows[row]?
    some ⟨t.rows, row, min t.column line.length⟩
  else some t

/-- Moves the cursor to the line below, in the same column if that line is long enough. -/
def down? (t : TextCaret) : Option TextCaret :=
  if t.row + 1 < t.rows.length then do
    let line ← t.rows[t.row + 1]?
    some ⟨t.rows, t.row + 1, min t.column line.length⟩
  else some t

/-- Moves the cursor to the start of its line. -/
def home (t : TextCaret) : TextCaret := ⟨t.rows, t.row, 0⟩

/-- Moves the cursor to the end of its line. -/
def lineEnd? (t : TextCaret) : Option TextCaret := do
  let line ← t.rows[t.row]?
  some ⟨t.rows, t.row, line.length⟩

/-- Moves the cursor to the start of the text. -/
def toStart (t : TextCaret) : TextCaret := ⟨t.rows, 0, 0⟩

/-- Moves the cursor to the end of the text. -/
def toEnd? (t : TextCaret) : Option TextCaret := do
  let row ← Checked.sub t.rows.length 1
  let line ← t.rows[row]?
  some ⟨t.rows, row, line.length⟩

end TextCaret

namespace Buffer

variable (b : Buffer)

/-- The lines and the place of the cursor. -/
def caret : TextCaret := ⟨b.rows, b.row, b.column⟩

theorem getElem?_rows_row : b.rows[b.row]? = some b.current.chars :=
  Checked.getElem?_reverse_append b.above b.below b.current.chars

theorem getElem?_rows_above (line : List Char) (above : List (List Char)) (current : CursorLine)
    (below : List (List Char)) : (rows ⟨line :: above, current, below⟩)[above.length]? = some line := by
  rw [rows, ← Checked.reverse_append_cons]
  exact Checked.getElem?_reverse_append above _ line

theorem getElem?_rows_below (above : List (List Char)) (current : CursorLine) (line : List Char)
    (below : List (List Char)) :
    (rows ⟨above, current, line :: below⟩)[above.length + 1]? = some line := by
  rw [rows, Checked.reverse_append_cons]
  exact Checked.getElem?_reverse_append (current.chars :: above) below line

theorem succ_row_lt_iff : b.row + 1 < b.rows.length ↔ b.below ≠ [] := by
  rw [← List.length_pos_iff, rows, row, List.length_append, List.length_reverse, List.length_cons]
  omega

theorem caret_current : b.caret.current? = some b.current.caret := by
  rw [caret, TextCaret.current?, getElem?_rows_row]
  rfl

theorem caret_put (l : CursorLine) : b.caret.put? l.caret = some { b with current := l }.caret := by
  have hset : Checked.set b.rows b.row l.chars = some { b with current := l }.rows :=
    Checked.set_reverse_append b.above b.below b.current.chars l.chars
  rw [caret, TextCaret.put?]
  show (Checked.set b.rows b.row l.chars).bind _ = _
  rw [hset]
  rfl

/-- A change within the line with the cursor. -/
theorem caret_change {f : LineCaret → Option LineCaret} {l : CursorLine}
    (h : f b.current.caret = some l.caret) :
    (do let line ← b.caret.current?; b.caret.put? (← f line)) =
      some { b with current := l }.caret := by
  rw [caret_current]
  show (f b.current.caret).bind b.caret.put? = _
  rw [h]
  exact b.caret_put l

theorem caret_insert (c : Char) : b.caret.insert? c = some (b.insert c).caret :=
  b.caret_change (f := (·.insert? c)) (b.current.caret_insert c)

theorem caret_breakLine : b.caret.breakLine? = some b.breakLine.caret := by
  obtain ⟨above, ⟨before, after⟩, below⟩ := b
  have hline := getElem?_rows_row ⟨above, ⟨before, after⟩, below⟩
  have hinsert : Checked.insert (above.reverse ++ before.reverse :: below) (above.length + 1) after =
      some (breakLine ⟨above, ⟨before, after⟩, below⟩).rows := by
    rw [Checked.reverse_append_cons]
    exact Checked.insert_reverse_append (before.reverse :: above) below after
  simp only [caret, TextCaret.breakLine?, hline]
  simp only [rows, row, column, CursorLine.chars, CursorLine.column, Checked.offset_reverse_append,
    Checked.splitBytes_append, Checked.set_reverse_append, hinsert, Option.bind_eq_bind, Option.bind_some]
  rfl

theorem caret_backspace : b.caret.backspace? = some (b.backspace?.getD b).caret := by
  obtain ⟨above, ⟨before, after⟩, below⟩ := b
  cases before with
  | cons c before =>
    have hcolumn : 0 < (caret ⟨above, ⟨c :: before, after⟩, below⟩).column := Nat.succ_pos _
    rw [TextCaret.backspace?, if_pos hcolumn]
    exact caret_change _ (f := LineCaret.backspace?) (CursorLine.caret_backspace _)
  | nil =>
    cases above with
    | nil => rfl
    | cons line above =>
      -- The line is removed behind the one above, which then takes it in.
      have hremove : Checked.remove ((line :: above).reverse ++ after :: below) (above.length + 1) =
          some (after, above.reverse ++ line :: below) := by
        rw [Checked.reverse_append_cons above below line]
        exact Checked.remove_reverse_append (line :: above) below after
      simp only [caret, TextCaret.backspace?, rows, row, column, CursorLine.chars,
        CursorLine.column, List.reverse_nil, List.nil_append, List.length_nil, List.length_cons,
        Nat.lt_irrefl, if_false, Nat.succ_pos, if_true, hremove,
        Checked.sub_eq_some (Nat.le_add_left 1 _), Nat.add_sub_cancel,
        Checked.getElem?_reverse_append, Checked.set_reverse_append, Option.bind_eq_bind,
        Option.bind_some]
      simp [backspace?, CursorLine.backspace?]

theorem caret_delete : b.caret.delete? = some (b.delete?.getD b).caret := by
  obtain ⟨above, ⟨before, after⟩, below⟩ := b
  rw [TextCaret.delete?, caret_current]
  cases after with
  | cons c after =>
    have hcolumn : before.length < (before.reverse ++ c :: after).length := by simp
    have hchange := caret_change ⟨above, ⟨before, c :: after⟩, below⟩ (f := LineCaret.delete?)
      (CursorLine.caret_delete _)
    rw [caret_current] at hchange
    show (if before.length < (before.reverse ++ c :: after).length then _ else _) = _
    rw [if_pos hcolumn]
    exact hchange
  | nil =>
    have hcolumn : ¬before.length < (before.reverse ++ []).length := by simp
    show (if before.length < (before.reverse ++ []).length then _ else _) = _
    rw [if_neg hcolumn]
    cases below with
    | nil => exact if_neg fun h ↦ (succ_row_lt_iff _).1 h rfl
    | cons line below =>
      have hrow := (succ_row_lt_iff ⟨above, ⟨before, []⟩, line :: below⟩).2 (List.cons_ne_nil _ _)
      have hremove : Checked.remove (above.reverse ++ (before.reverse ++ []) :: line :: below)
          (above.length + 1) = some (line, above.reverse ++ (before.reverse ++ []) :: below) := by
        rw [Checked.reverse_append_cons, Checked.reverse_append_cons above below]
        exact Checked.remove_reverse_append ((before.reverse ++ []) :: above) below line
      refine (if_pos hrow).trans ?_
      simp only [caret, rows, row, CursorLine.chars, hremove, Checked.getElem?_reverse_append,
        Checked.set_reverse_append, Option.bind_eq_bind, Option.bind_some]
      simp [delete?, CursorLine.delete?, column, CursorLine.column]

theorem caret_left : b.caret.left? = some b.left.caret := by
  obtain ⟨above, ⟨before, after⟩, below⟩ := b
  rw [caret, caret, rows_left, TextCaret.left?]
  cases before with
  | cons c before =>
    have hcolumn : 0 < column ⟨above, ⟨c :: before, after⟩, below⟩ := Nat.succ_pos _
    rw [if_pos hcolumn]
    show (Checked.sub (before.length + 1) 1).bind _ = _
    rw [Checked.sub_eq_some (Nat.le_add_left 1 _)]
    rfl
  | nil =>
    have hcolumn : ¬0 < column ⟨above, ⟨[], after⟩, below⟩ := Nat.lt_irrefl 0
    rw [if_neg hcolumn]
    cases above with
    | nil => rfl
    | cons line above =>
      have hrow : 0 < row ⟨line :: above, ⟨[], after⟩, below⟩ := Nat.succ_pos _
      rw [if_pos hrow]
      show (Checked.sub (above.length + 1) 1).bind _ = _
      rw [Checked.sub_eq_some (Nat.le_add_left 1 _)]
      show ((rows ⟨line :: above, ⟨[], after⟩, below⟩)[above.length]?).bind _ = _
      rw [getElem?_rows_above]
      simp [left, CursorLine.left?, row, column, CursorLine.column, CursorLine.atEnd]

theorem caret_right : b.caret.right? = some b.right.caret := by
  obtain ⟨above, ⟨before, after⟩, below⟩ := b
  rw [TextCaret.right?, caret, getElem?_rows_row, caret, rows_right]
  cases after with
  | cons c after =>
    have hcolumn : before.length < (before.reverse ++ c :: after).length := by simp
    exact if_pos hcolumn
  | nil =>
    have hcolumn : ¬before.length < (before.reverse ++ []).length := by simp
    refine (if_neg hcolumn).trans ?_
    cases below with
    | nil => exact if_neg fun h ↦ (succ_row_lt_iff _).1 h rfl
    | cons line below => exact if_pos ((succ_row_lt_iff _).2 (List.cons_ne_nil _ _))

theorem caret_up : b.caret.up? = some b.up.caret := by
  obtain ⟨above, current, below⟩ := b
  rw [caret, caret, rows_up, TextCaret.up?]
  cases above with
  | nil => rfl
  | cons line above =>
    have hrow : 0 < row ⟨line :: above, current, below⟩ := Nat.succ_pos _
    rw [if_pos hrow]
    show (Checked.sub (above.length + 1) 1).bind _ = _
    rw [Checked.sub_eq_some (Nat.le_add_left 1 _)]
    show ((rows ⟨line :: above, current, below⟩)[above.length]?).bind _ = _
    rw [getElem?_rows_above]
    simp [up, row, column, CursorLine.column, CursorLine.atColumn]

theorem caret_down : b.caret.down? = some b.down.caret := by
  obtain ⟨above, current, below⟩ := b
  rw [caret, caret, rows_down, TextCaret.down?]
  cases below with
  | nil => exact if_neg fun h ↦ (succ_row_lt_iff _).1 h rfl
  | cons line below =>
    rw [if_pos ((succ_row_lt_iff _).2 (List.cons_ne_nil _ _))]
    show ((rows ⟨above, current, line :: below⟩)[above.length + 1]?).bind _ = _
    rw [getElem?_rows_below]
    simp [down, row, column, CursorLine.column, CursorLine.atColumn]

theorem caret_home : b.caret.home = b.home.caret := by
  rw [caret, caret, rows_home]
  rfl

theorem caret_lineEnd : b.caret.lineEnd? = some b.lineEnd.caret := by
  rw [TextCaret.lineEnd?, caret, getElem?_rows_row, caret, rows_lineEnd]
  have hcolumn : b.lineEnd.column = b.current.chars.length := List.length_reverse
  rw [hcolumn]
  rfl

theorem caret_toStart : b.caret.toStart = b.toStart.caret := by
  rw [caret, caret, rows_toStart, TextCaret.toStart, toStart]
  cases b.rows <;> rfl

theorem caret_toEnd : b.caret.toEnd? = some b.toEnd.caret := by
  rw [caret, caret, rows_toEnd, TextCaret.toEnd?, toEnd]
  split
  · rename_i last above hrows
    have hreverse : b.rows = above.reverse ++ [last] := by
      rw [← List.reverse_cons, ← hrows, List.reverse_reverse]
    have hlast : b.rows[above.length]? = some last := by
      rw [hreverse]
      exact Checked.getElem?_reverse_append above [] last
    have hsub : Checked.sub b.rows.length 1 = some above.length := by
      rw [hreverse, Checked.sub_eq_some (by simp)]
      simp
    simp only [hsub, hlast, Option.bind_eq_bind, Option.bind_some]
    simp [row, column, CursorLine.atEnd, CursorLine.column]
  · rename_i hnil
    have hrows := b.row_lt
    rw [List.reverse_eq_nil_iff.1 hnil] at hrows
    exact absurd hrows (Nat.not_lt_zero _)

end Buffer

end Reckoner
