import Reckoner.Proofs.CursorPlaces

/-!
# Where the cursor is drawn

The text is shown in an area of the screen, and the cursor of the terminal is put into this area at the
place of the cursor of the text, if that place is within it (`Editor.textPlace?`). Lengths of lines and
columns have no bound, while places on the screen are numbers of 16 bits. So the question is whether a
number that is too large is lost on the way, before it is compared with the sizes of the area.

Here drawing is done once more with a check of each conversion to 16 bits and of each addition
(`Editor.drawn?`). All checks succeed exactly if every line that is shown has at most 65528 characters,
and then the cursor is drawn where it should be (`Editor.drawn_right_iff`). Beyond that it may be drawn
although it is not within the area: a column that is lost counts from zero again, and if it comes out
as one of the columns of the area, then this is where the cursor is drawn
(`Editor.exists_drawn_wrong`). The rows are never too large, since the line with the cursor is shown.
-/

namespace Reckoner

/-! ### Numbers of 16 bits -/

namespace Checked

/-- A number as one of 16 bits, unless it is too large. -/
def word (n : Nat) : Option UInt16 := if n < 65536 then some n.toUInt16 else none

/-- The sum of two numbers of 16 bits, unless it is too large. -/
def add (a b : UInt16) : Option UInt16 := if a.toNat + b.toNat < 65536 then some (a + b) else none

theorem word_of_lt {n : Nat} (h : n < 65536) : word n = some n.toUInt16 := if_pos h

theorem add_of_lt {a b : UInt16} (h : a.toNat + b.toNat < 65536) : add a b = some (a + b) := if_pos h

theorem word_eq_some_iff {n : Nat} {w : UInt16} : word n = some w ↔ n < 65536 ∧ n.toUInt16 = w := by
  rw [word, Option.ite_none_right_eq_some, Option.some.injEq]

theorem add_eq_some_iff {a b c : UInt16} :
    add a b = some c ↔ a.toNat + b.toNat < 65536 ∧ a + b = c := by
  rw [add, Option.ite_none_right_eq_some, Option.some.injEq]

end Checked

theorem toNat_saturatingSub (a b : UInt16) : (saturatingSub a b).toNat = a.toNat - b.toNat := by
  rw [saturatingSub]
  split
  · rename_i h
    have hlt := UInt16.lt_iff_toNat_lt.1 h
    rw [UInt16.toNat_zero]
    omega
  · rename_i h
    exact UInt16.toNat_sub_of_le _ _ (UInt16.not_lt.1 h)

theorem toNat_add_of_lt {a b : UInt16} (h : a.toNat + b.toNat < 65536) :
    (a + b).toNat = a.toNat + b.toNat := by
  rw [UInt16.toNat_add]
  exact Nat.mod_eq_of_lt h

theorem toNat_toUInt16 (n : Nat) : n.toUInt16.toNat = n % 65536 := rfl

theorem toNat_toUInt16_of_lt {n : Nat} (h : n < 65536) : n.toUInt16.toNat = n :=
  UInt16.toNat_ofNat_of_lt' h

/-! ### The area of the text -/

/-- An area that lies within a screen, in its first columns, and with room behind it for the numbers of
lines. -/
structure Area.OnScreen (a : Area) : Prop where
  x_le : a.x.toNat ≤ 1
  x_add_lt : a.x.toNat + a.width.toNat < 65536
  y_add_lt : a.y.toNat + a.height.toNat < 65536

/-- The area of the text is within the screen, whatever the size of that. -/
theorem onScreen_inner (width height : UInt16) : (screenAreas width height).2.1.inner.OnScreen := by
  have hwidth := width.toNat_lt
  have hheight := height.toNat_lt
  obtain ⟨top, htop⟩ : ∃ top, top = min height 1 := ⟨_, rfl⟩
  obtain ⟨bottom, hbottom⟩ : ∃ bottom, bottom = min 3 (height - top) := ⟨_, rfl⟩
  have hinner : (screenAreas width height).2.1.inner =
      ⟨min (0 + 1) (0 + width), min (top + 1) (top + (height - top - bottom)), saturatingSub width 2,
        saturatingSub (height - top - bottom) 2⟩ := by
    rw [htop] at hbottom
    rw [hbottom, htop]
    rfl
  have htop' : top.toNat = min height.toNat 1 := by rw [htop, UInt16.toNat_min]; rfl
  have hbelow : (height - top).toNat = height.toNat - top.toNat :=
    UInt16.toNat_sub_of_le _ _ (UInt16.le_iff_toNat_le.2 (by omega))
  have hbottom' : bottom.toNat = min 3 (height - top).toNat := by rw [hbottom, UInt16.toNat_min]; rfl
  have hmiddle : (height - top - bottom).toNat = (height - top).toNat - bottom.toNat :=
    UInt16.toNat_sub_of_le _ _ (UInt16.le_iff_toNat_le.2 (by omega))
  have hone : (1 : UInt16).toNat = 1 := rfl
  have hzero : (0 : UInt16).toNat = 0 := rfl
  have htwo : (2 : UInt16).toNat = 2 := rfl
  rw [hinner]
  constructor <;>
    simp only [UInt16.toNat_min, UInt16.toNat_add, toNat_saturatingSub, hone, hzero, htwo] <;> omega

/-! ### Drawing with checks -/

/-- The largest of some numbers and a first one. -/
theorem foldl_max_le_iff {n : Nat} (ns : List Nat) :
    ∀ m, ns.foldl max m ≤ n ↔ m ≤ n ∧ ∀ k ∈ ns, k ≤ n := by
  induction ns with
  | nil => simp
  | cons k ns ih =>
    intro m
    rw [List.foldl_cons, ih, Nat.max_le, List.forall_mem_cons, and_assoc]

namespace Editor

/-- Where the cursor of the text should be on the screen, column and row, if the text has the area
`inner`: behind the number of its line, if it is within the area. -/
def textPlace? (e : Editor) (inner : Area) : Option (Nat × Nat) :=
  if e.mode = .editing ∧ gutter.toNat + e.buffer.column < inner.width.toNat ∧
      0 < inner.height.toNat then
    some (inner.x.toNat + gutter.toNat + e.buffer.column,
      inner.y.toNat + (e.buffer.row - e.scroll))
  else none

/-- The column of the results, with each step checked. -/
def resultColumn? (e : Editor) (width : UInt16) : Option UInt16 := do
  let text ← Checked.word e.visibleWidth
  let shown ← Checked.add (← Checked.add gutter text) 2
  some (min shown (saturatingSub width 12))

/-- The place of the cursor on the screen, with each step checked. -/
def cursorIn? (e : Editor) (inner : Area) : Option (Option (UInt16 × UInt16)) :=
  if e.mode = .editing then do
    let x ← Checked.add (← Checked.add inner.x gutter) (← Checked.word e.buffer.column)
    let y ← Checked.add inner.y (← Checked.word (e.buffer.row - e.scroll))
    let right ← Checked.add inner.x inner.width
    let bottom ← Checked.add inner.y inner.height
    some (if x < right ∧ y < bottom then some (x, y) else none)
  else some none

/-- **All that drawing computes with numbers of 16 bits**, with each step checked: the column of the
results and the place of the cursor. -/
def drawn? (e : Editor) (inner : Area) : Option (UInt16 × Option (UInt16 × UInt16)) := do
  let column ← e.resultColumn? inner.width
  let cursor ← e.cursorIn? inner
  some (column, cursor)

/-- The cursor is beyond the columns that numbers of 16 bits can tell, and is taken for one within the
area. -/
def Wraps (e : Editor) (inner : Area) : Prop :=
  e.mode = .editing ∧ 0 < inner.height.toNat ∧
    65536 ≤ inner.x.toNat + gutter.toNat + e.buffer.column ∧
    (inner.x.toNat + gutter.toNat + e.buffer.column) % 65536 < inner.x.toNat + inner.width.toNat

/-- The editor as it is drawn: the line with the cursor is among those for which the area has room. -/
structure Fits (e : Editor) (inner : Area) : Prop extends e.InView, inner.OnScreen where
  viewport_eq : e.viewport = max inner.height.toNat 1

theorem viewport_reveal (e : Editor) : e.reveal.viewport = e.viewport := by
  rw [reveal]
  split
  · rfl
  · split <;> rfl

theorem fits_view (s : Surroundings) (width height : UInt16) (e : Editor) :
    (e.view s width height).2.Fits (screenAreas width height).2.1.inner where
  toInView := inView_reveal _
  toOnScreen := onScreen_inner width height
  viewport_eq := viewport_reveal _

/-! ### Lines and columns -/

theorem visibleWidth_le_iff {e : Editor} {n : Nat} :
    e.visibleWidth ≤ n ↔ ∀ line ∈ e.visible, line.2.length ≤ n := by
  rw [visibleWidth, foldl_max_le_iff, List.forall_mem_map]
  exact and_iff_right (Nat.zero_le n)

/-- The line with the cursor is shown. -/
theorem InView.current_mem {e : Editor} (h : e.InView) (hviewport : 0 < e.viewport) :
    e.buffer.current.chars ∈ e.visible.map fun line ↦ line.2.toList := by
  have hscroll := h.scroll_le
  have hrow := h.row_lt
  rw [map_visible, List.mem_iff_getElem?]
  refine ⟨e.buffer.row - e.scroll, ?_⟩
  rw [List.getElem?_take_of_lt (by omega), List.getElem?_drop, Nat.add_sub_cancel' hscroll]
  exact e.buffer.getElem?_rows_row

theorem Fits.column_le {e : Editor} {inner : Area} (h : e.Fits inner) :
    e.buffer.column ≤ e.visibleWidth := by
  have hviewport := h.viewport_eq
  obtain ⟨line, hmem, hline⟩ := List.mem_map.1 (h.toInView.current_mem (by omega))
  have hlength : line.2.length = e.buffer.current.chars.length := by
    rw [← hline, String.length_toList]
  exact (hlength ▸ e.buffer.current.column_le).trans (visibleWidth_le_iff.1 le_rfl line hmem)

/-! ### The column of the results -/

theorem resultColumn?_eq_some_iff {e : Editor} {width column : UInt16} :
    e.resultColumn? width = some column ↔
      e.visibleWidth ≤ 65528 ∧ column = e.resultColumn width := by
  have hgutter : gutter.toNat = 5 := rfl
  have htwo : (2 : UInt16).toNat = 2 := rfl
  simp only [resultColumn?, Option.bind_eq_bind, Option.bind_eq_some_iff, Option.some.injEq,
    Checked.word_eq_some_iff, Checked.add_eq_some_iff]
  constructor
  · rintro ⟨text, ⟨hword, rfl⟩, first, ⟨hfirst, rfl⟩, shown, ⟨hshown, rfl⟩, rfl⟩
    rw [toNat_add_of_lt hfirst, toNat_toUInt16_of_lt hword] at hshown
    exact ⟨by omega, rfl⟩
  · rintro ⟨hwidth, rfl⟩
    have hword : e.visibleWidth.toUInt16.toNat = e.visibleWidth :=
      toNat_toUInt16_of_lt (by omega)
    have hfirst : gutter.toNat + e.visibleWidth.toUInt16.toNat < 65536 := by omega
    refine ⟨_, ⟨by omega, rfl⟩, _, ⟨hfirst, rfl⟩, _, ⟨?_, rfl⟩, rfl⟩
    rw [toNat_add_of_lt hfirst]
    omega

/-! ### The place of the cursor -/

/-- The column on the screen is what is left of it in 16 bits. -/
theorem toNat_x (e : Editor) (inner : Area) :
    (inner.x + gutter + e.buffer.column.toUInt16).toNat =
      (inner.x.toNat + gutter.toNat + e.buffer.column) % 65536 := by
  rw [UInt16.toNat_add, UInt16.toNat_add, toNat_toUInt16]
  omega

section

variable {e : Editor} {inner : Area} (h : e.Fits inner)

include h

/-- The row of the cursor is one of the rows of the area, if it has any. -/
theorem Fits.row_lt_max : e.buffer.row - e.scroll < max inner.height.toNat 1 := by
  have hrow := h.row_lt
  have hscroll := h.scroll_le
  have hviewport := h.viewport_eq
  omega

/-- The row on the screen is not lost. -/
theorem Fits.toNat_y :
    (inner.y + (e.buffer.row - e.scroll).toUInt16).toNat =
      inner.y.toNat + (e.buffer.row - e.scroll) := by
  have hrow := h.row_lt_max
  have hy := h.y_add_lt
  have hy' := inner.y.toNat_lt
  have hword : (e.buffer.row - e.scroll).toUInt16.toNat = e.buffer.row - e.scroll :=
    toNat_toUInt16_of_lt (by omega)
  rw [toNat_add_of_lt (by omega), hword]

/-- **Where the cursor is drawn**, as numbers. -/
theorem Fits.cursorIn_eq :
    (e.cursorIn inner).map (Prod.map UInt16.toNat UInt16.toNat) =
      if e.mode = .editing ∧
          (inner.x.toNat + gutter.toNat + e.buffer.column) % 65536 <
            inner.x.toNat + inner.width.toNat ∧ 0 < inner.height.toNat then
        some ((inner.x.toNat + gutter.toNat + e.buffer.column) % 65536,
          inner.y.toNat + (e.buffer.row - e.scroll))
      else none := by
  have hrow := h.row_lt_max
  have hshown : (e.mode = .editing ∧
      inner.x + gutter + e.buffer.column.toUInt16 < inner.x + inner.width ∧
        inner.y + (e.buffer.row - e.scroll).toUInt16 < inner.y + inner.height) ↔
      e.mode = .editing ∧
          (inner.x.toNat + gutter.toNat + e.buffer.column) % 65536 <
            inner.x.toNat + inner.width.toNat ∧ 0 < inner.height.toNat := by
    rw [UInt16.lt_iff_toNat_lt, UInt16.lt_iff_toNat_lt, toNat_x e inner, h.toNat_y,
      toNat_add_of_lt h.x_add_lt, toNat_add_of_lt h.y_add_lt]
    refine and_congr_right fun _ ↦ and_congr_right fun _ ↦ ?_
    omega
  simp only [cursorIn, hshown, apply_ite (Option.map _), Option.map_some, Option.map_none, Prod.map,
    toNat_x e inner, h.toNat_y]

/-- The cursor is drawn where it should be, unless its column is lost. -/
theorem Fits.cursorIn_eq_textPlace_iff :
    (e.cursorIn inner).map (Prod.map UInt16.toNat UInt16.toNat) = e.textPlace? inner ↔
      ¬e.Wraps inner := by
  have hx := h.x_add_lt
  rw [h.cursorIn_eq, textPlace?]
  rcases Nat.lt_or_ge (inner.x.toNat + gutter.toNat + e.buffer.column) 65536 with hlt | hge
  · have hcolumn : inner.x.toNat + gutter.toNat + e.buffer.column <
        inner.x.toNat + inner.width.toNat ↔ gutter.toNat + e.buffer.column < inner.width.toNat := by omega
    simp only [Nat.mod_eq_of_lt hlt, hcolumn]
    exact iff_of_true trivial fun hwraps ↦ absurd hwraps.2.2.1 (Nat.not_le.2 hlt)
  · have houtside : ¬(e.mode = .editing ∧ gutter.toNat + e.buffer.column < inner.width.toNat ∧
        0 < inner.height.toNat) := by omega
    rw [if_neg houtside, ite_eq_right_iff]
    constructor
    · rintro hnone ⟨hmode, hheight, -, hlt⟩
      exact Option.some_ne_none _ (hnone ⟨hmode, hlt, hheight⟩)
    · rintro hwraps ⟨hmode, hlt, hheight⟩
      exact absurd ⟨hmode, hheight, hge, hlt⟩ hwraps

/-- If the lines that are shown are not too long, then no step of drawing the cursor fails. -/
theorem Fits.cursorIn?_eq (hwidth : e.visibleWidth ≤ 65528) :
    e.cursorIn? inner = some (e.cursorIn inner) := by
  have hgutter : gutter.toNat = 5 := rfl
  have hcolumn := h.column_le
  have hx := h.x_le
  have hrow := h.row_lt_max
  have hheight := inner.height.toNat_lt
  have hy := h.y_add_lt
  have hy' := inner.y.toNat_lt
  have hcolumnWord : e.buffer.column.toUInt16.toNat = e.buffer.column :=
    toNat_toUInt16_of_lt (by omega)
  have hrowWord : (e.buffer.row - e.scroll).toUInt16.toNat = e.buffer.row - e.scroll :=
    toNat_toUInt16_of_lt (by omega)
  have hfirst : inner.x.toNat + gutter.toNat < 65536 := by omega
  have hxSum : (inner.x + gutter).toNat + e.buffer.column.toUInt16.toNat < 65536 := by
    rw [toNat_add_of_lt hfirst]
    omega
  have hySum : inner.y.toNat + (e.buffer.row - e.scroll).toUInt16.toNat < 65536 := by omega
  rw [cursorIn?, cursorIn]
  by_cases hmode : e.mode = .editing
  · simp only [hmode, if_true, true_and, Option.bind_eq_bind, Option.bind_some,
      Checked.word_of_lt (show e.buffer.column < 65536 by omega),
      Checked.word_of_lt (show e.buffer.row - e.scroll < 65536 by omega),
      Checked.add_of_lt hfirst, Checked.add_of_lt hxSum, Checked.add_of_lt hySum,
      Checked.add_of_lt h.x_add_lt, Checked.add_of_lt hy]
  · rw [if_neg hmode, if_neg fun hshown ↦ hmode hshown.1]

/-- **Drawing succeeds with all its checks exactly for lines that are not too long**, and then it is what
is drawn. -/
theorem Fits.drawn?_eq_some_iff {d : UInt16 × Option (UInt16 × UInt16)} :
    e.drawn? inner = some d ↔
      (∀ line ∈ e.visible, line.2.length ≤ 65528) ∧
        d = (e.resultColumn inner.width, e.cursorIn inner) := by
  rw [← visibleWidth_le_iff, drawn?]
  simp only [Option.bind_eq_bind, Option.bind_eq_some_iff, resultColumn?_eq_some_iff, Option.some.injEq]
  constructor
  · rintro ⟨column, ⟨hwidth, rfl⟩, cursor, hcursor, rfl⟩
    rw [h.cursorIn?_eq hwidth, Option.some.injEq] at hcursor
    exact ⟨hwidth, by rw [hcursor]⟩
  · rintro ⟨hwidth, rfl⟩
    exact ⟨_, ⟨hwidth, rfl⟩, _, h.cursorIn?_eq hwidth, rfl⟩

/-- Lines that are not too long leave no column to be lost. -/
theorem Fits.not_wraps (hlines : ∀ line ∈ e.visible, line.2.length ≤ 65528) : ¬e.Wraps inner := by
  have hgutter : gutter.toNat = 5 := rfl
  have hcolumn := h.column_le.trans (visibleWidth_le_iff.2 hlines)
  have hx := h.x_le
  rintro ⟨-, -, hlost, -⟩
  omega

end

/-- **The cursor is drawn where the text has it**, for every text, place of the cursor, mode and size of
the screen, unless its column is lost:

* no conversion and no addition of drawing loses anything exactly if every line that is shown has at most
  65528 characters, and then the cursor is drawn where it should be;
* whatever the lines are, it is drawn where it should be, or not drawn if it should not be, exactly if
  it is not taken for a cursor in another column. -/
theorem drawn_right_iff (s : Surroundings) (width height : UInt16) (e : Editor) :
    let inner := (screenAreas width height).2.1.inner
    let drawn := e.view s width height
    let place := drawn.1.cursor.map (Prod.map UInt16.toNat UInt16.toNat)
    (∀ d, drawn.2.drawn? inner = some d ↔
      (∀ line ∈ drawn.2.visible, line.2.length ≤ 65528) ∧
        d = (drawn.2.resultColumn inner.width, drawn.1.cursor)) ∧
    ((∀ line ∈ drawn.2.visible, line.2.length ≤ 65528) → place = drawn.2.textPlace? inner) ∧
    (place = drawn.2.textPlace? inner ↔ ¬drawn.2.Wraps inner) := by
  have hfits := fits_view s width height e
  exact ⟨fun _ ↦ hfits.drawn?_eq_some_iff,
    fun hlines ↦ hfits.cursorIn_eq_textPlace_iff.2 (hfits.not_wraps hlines),
    hfits.cursorIn_eq_textPlace_iff⟩

/-! ### A cursor that is taken for another one -/

/-- The same character, typed several times. -/
def typed (s : Surroundings) (c : Char) (n : Nat) : Editor :=
  run s (List.replicate n (s, .operate (.press false (.char c))))

theorem typed_buffer (s : Surroundings) (c : Char) (n : Nat) :
    (typed s c n).mode = .editing ∧ (typed s c n).scroll = 0 ∧
      (typed s c n).buffer = ⟨[], ⟨List.replicate n c, []⟩, []⟩ := by
  induction n with
  | zero => exact ⟨rfl, rfl, rfl⟩
  | succ n ih =>
    obtain ⟨hmode, hscroll, hbuffer⟩ := ih
    have hinsert : typed s c (n + 1) = (typed s c n).insert s c := by
      rw [typed, List.replicate_succ', run, List.foldl_append]
      show ((typed s c n).press s false (.char c)).1 = _
      rw [press, hmode]
      rfl
    rw [hinsert]
    refine ⟨hmode, hscroll, ?_⟩
    show (typed s c n).buffer.insert c = _
    rw [hbuffer]
    rfl

theorem typed_places (s : Surroundings) (c : Char) (n : Nat) :
    (typed s c n).mode = .editing ∧ (typed s c n).scroll = 0 ∧
      (typed s c n).buffer.row = 0 ∧ (typed s c n).buffer.column = n := by
  obtain ⟨hmode, hscroll, hbuffer⟩ := typed_buffer s c n
  rw [hbuffer]
  exact ⟨hmode, hscroll, rfl, List.length_replicate⟩

/-- Behind so many characters the cursor is drawn on a small screen at the start of its line. -/
theorem cursor_of_wrapping (s : Surroundings) {e : Editor} (hmode : e.mode = .editing)
    (hscroll : e.scroll = 0) (hrow : e.buffer.row = 0) (hcolumn : e.buffer.column = 65536) :
    (e.view s 20 8).2.buffer.column = 65536 ∧
      (e.view s 20 8).1.cursor = some (6, 2) ∧
      (e.view s 20 8).2.textPlace? (screenAreas 20 8).2.1.inner = none := by
  have hview : (e.view s 20 8).2 = { e with viewport := 2 } :=
    reveal_of_inView ⟨by rw [hscroll]; exact Nat.zero_le _, by dsimp only; omega⟩
  have hcursor : (e.view s 20 8).1.cursor =
      (e.view s 20 8).2.cursorIn (screenAreas 20 8).2.1.inner := rfl
  rw [hcursor, hview, cursorIn, textPlace?]
  simp only [hmode, hcolumn, hrow, hscroll]
  decide

/-- Behind 65536 characters that have been typed, the cursor is not within a small screen, and is drawn
on it at the start of the line. -/
theorem exists_drawn_wrong :
    let s : Surroundings := ⟨.standard {}, {}, ⟨0, by decide⟩, .uninitialized, fun _ ↦ .uninitialized⟩
    let drawn := (typed s 'x' 65536).view s 20 8
    drawn.2.buffer.column = 65536 ∧
      drawn.1.cursor = some (6, 2) ∧
      drawn.2.textPlace? (screenAreas 20 8).2.1.inner = none := by
  intro s
  obtain ⟨hmode, hscroll, hrow, hcolumn⟩ := typed_places s 'x' 65536
  exact cursor_of_wrapping s hmode hscroll hrow hcolumn

end Editor

end Reckoner
