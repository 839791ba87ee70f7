import Mathlib.Data.List.TakeWhile
import Reckoner.Editor.Session
import Reckoner.Outcome

/-!
# Saved text is loaded as it was

A text is saved with a newline behind every line, and a text that is loaded is split at newlines, where a
carriage return in front of a newline is dropped. So what is loaded is what was saved, unless a line
itself has a newline in it, which makes two lines of it, or a carriage return at its end, which is lost
(`Editor.saved_text_comes_back`). Lines that are empty make no difference, at the end of the text either.

In front of a newline the pieces of a text end (`Text.splitAtNewlines_append`), so each line is split by
itself. There are at least as many pieces as lines, so if the same lines come back, then each of them is
a single piece.
-/

namespace Reckoner

/-! ### Splitting at newlines -/

namespace Text

theorem splitAtNewlines_ne_nil (cs : List Char) : splitAtNewlines cs ≠ [] := by
  cases cs with
  | nil => exact List.cons_ne_nil _ _
  | cons c cs =>
    rw [splitAtNewlines]
    split
    · exact List.cons_ne_nil _ _
    · split <;> exact List.cons_ne_nil _ _

/-- The piece in front of a newline ends there. -/
theorem splitAtNewlines_append (cs rest : List Char) :
    splitAtNewlines (cs ++ '\n' :: rest) = splitAtNewlines cs ++ splitAtNewlines rest := by
  induction cs with
  | nil => rfl
  | cons c cs ih =>
    rw [List.cons_append, splitAtNewlines, splitAtNewlines, ih]
    split
    · rfl
    · obtain ⟨piece, more, h⟩ := List.exists_cons_of_ne_nil (splitAtNewlines_ne_nil cs)
      rw [h]
      rfl

theorem splitAtNewlines_of_notMem {cs : List Char} (h : '\n' ∉ cs) : splitAtNewlines cs = [cs] := by
  induction cs with
  | nil => rfl
  | cons c cs ih =>
    obtain ⟨hc, hcs⟩ := not_or.1 (mt List.mem_cons.2 h)
    rw [splitAtNewlines, if_neg (Ne.symm hc), ih hcs]

theorem splitAtNewlines_eq_singleton {cs piece : List Char} (h : splitAtNewlines cs = [piece]) :
    '\n' ∉ cs := by
  intro hmem
  obtain ⟨before, after, rfl⟩ := List.append_of_mem hmem
  have hlength := congrArg List.length h
  rw [splitAtNewlines_append, List.length_append, List.length_singleton] at hlength
  have hbefore := List.length_pos_iff.2 (splitAtNewlines_ne_nil before)
  have hafter := List.length_pos_iff.2 (splitAtNewlines_ne_nil after)
  omega

theorem dropFinalReturn_eq_self {cs : List Char} :
    dropFinalReturn cs = cs ↔ cs.getLast? ≠ some '\r' := by
  rw [dropFinalReturn]
  split
  · rename_i h
    refine iff_of_false (fun heq ↦ ?_) (not_not_intro h)
    have hlength := congrArg List.length heq
    have hpos : 0 < cs.length := List.length_pos_of_mem (List.mem_of_getLast? h)
    rw [List.length_dropLast] at hlength
    omega
  · exact iff_of_true rfl ‹_›

theorem linesOfPieces_concat_nil (pieces : List (List Char)) :
    linesOfPieces (pieces ++ [[]]) = pieces.map dropFinalReturn := by
  induction pieces with
  | nil => rfl
  | cons piece more ih =>
    obtain ⟨next, rest, h⟩ := List.exists_cons_of_ne_nil
      (List.append_ne_nil_of_right_ne_nil more (List.cons_ne_nil [] []))
    rw [List.cons_append, List.map_cons, ← ih, h, linesOfPieces]
    · exact fun hnil ↦ nomatch hnil

/-- Of a text with a newline behind every row, each row is split by itself. -/
theorem linesOfChars_flatMap (rows : List (List Char)) :
    linesOfChars (rows.flatMap (· ++ ['\n'])) = (rows.flatMap splitAtNewlines).map dropFinalReturn := by
  have hsplit : splitAtNewlines (rows.flatMap (· ++ ['\n'])) = rows.flatMap splitAtNewlines ++ [[]] := by
    induction rows with
    | nil => rfl
    | cons row rows ih =>
      rw [List.flatMap_cons, List.flatMap_cons, List.append_assoc, List.singleton_append,
        splitAtNewlines_append, ih, List.append_assoc]
  rw [linesOfChars, hsplit, linesOfPieces_concat_nil]

theorem length_le_length_flatMap_splitAtNewlines (rows : List (List Char)) :
    rows.length ≤ (rows.flatMap splitAtNewlines).length := by
  induction rows with
  | nil => exact le_rfl
  | cons row rows ih =>
    have hrow := List.length_pos_iff.2 (splitAtNewlines_ne_nil row)
    rw [List.flatMap_cons, List.length_append, List.length_cons]
    omega

/-- **Rows that come back** are those without newlines, and without carriage returns at the end. -/
theorem linesOfChars_flatMap_eq_iff {rows : List (List Char)} :
    linesOfChars (rows.flatMap (· ++ ['\n'])) = rows ↔
      ∀ row ∈ rows, '\n' ∉ row ∧ row.getLast? ≠ some '\r' := by
  rw [linesOfChars_flatMap]
  induction rows with
  | nil => exact iff_of_true rfl nofun
  | cons row rows ih =>
    rw [List.forall_mem_cons, ← ih, List.flatMap_cons, List.map_append]
    constructor
    · intro h
      have hrow := List.length_pos_iff.2 (splitAtNewlines_ne_nil row)
      have hrows := length_le_length_flatMap_splitAtNewlines rows
      have hlength := congrArg List.length h
      rw [List.length_append, List.length_map, List.length_map, List.length_cons] at hlength
      -- There is no room for a second piece of the first row.
      have hone : (splitAtNewlines row).length = 1 := by omega
      obtain ⟨piece, hpiece⟩ := List.length_eq_one_iff.1 hone
      have hnone := splitAtNewlines_eq_singleton hpiece
      rw [splitAtNewlines_of_notMem hnone] at h
      obtain ⟨hhead, htail⟩ := List.cons.inj h
      exact ⟨⟨hnone, dropFinalReturn_eq_self.1 hhead⟩, htail⟩
    · rintro ⟨⟨hnone, hlast⟩, htail⟩
      rw [splitAtNewlines_of_notMem hnone, htail, List.map_singleton, dropFinalReturn_eq_self.2 hlast]
      rfl

theorem toList_unlines (lines : List String) :
    (unlines lines).toList = (lines.map String.toList).flatMap (· ++ ['\n']) := by
  rw [unlines, String.toList_join, List.flatMap_map, List.flatMap_map]
  simp only [String.toList_append]
  rfl

end Text

/-! ### Files -/

namespace Folder

variable {folder folder' : Folder}

/-- Ways that lead somewhere still do when no folder has been taken away. -/
theorem follow_mono (h : ∀ path, folder.get? path = some .folder → folder'.get? path = some .folder)
    {start parts place : List String} (hfollow : folder.follow start parts = .ok place) :
    folder'.follow start parts = .ok place := by
  induction parts generalizing start with
  | nil => exact hfollow
  | cons part more ih =>
    simp only [follow] at hfollow ⊢
    split at hfollow
    · contradiction
    · rename_i hlength
      rw [if_neg hlength]
      split at hfollow
      · rename_i hmore
        rw [if_pos hmore]
        exact hfollow
      · rename_i hmore
        rw [if_neg hmore]
        split at hfollow
        · rename_i hget
          rw [h _ hget]
          exact ih hfollow
        · contradiction
        · contradiction

theorem find_eq_ok {path : Path} {place : List String} {entry : Option FolderEntry}
    (h : folder.find path = .ok (place, entry)) :
    folder.follow [] path.parts = .ok place ∧ folder.get? place = entry ∧
      ∀ text, entry = some (.file text) → path.meansFolder = false := by
  rw [find] at h
  split at h
  · contradiction
  · rename_i hfollow
    split at h
    · rename_i hget
      split at h
      · contradiction
      · rename_i hmeans
        cases h
        exact ⟨hfollow, hget, fun _ _ ↦ Bool.eq_false_iff.2 hmeans⟩
    · rename_i hnone
      cases h
      exact ⟨hfollow, rfl, fun text htext ↦ absurd htext (hnone text)⟩

/-- What it takes to write a file: the path leads to a place without a folder, and means none. -/
theorem write_eq_ok {name text : String} (h : folder.write name text = .ok folder') :
    ∃ path place, Path.ofText name = .ok path ∧ path.meansFolder = false ∧
      folder.follow [] path.parts = .ok place ∧ folder.get? place ≠ some .folder ∧
      folder' = ⟨folder.entries.insert place (.file text)⟩ := by
  rw [write] at h
  obtain ⟨path, hpath, h⟩ := Outcome.bind_eq_ok.1 h
  obtain ⟨⟨place, entry⟩, hfind, h⟩ := Outcome.bind_eq_ok.1 h
  obtain ⟨hfollow, hget, hfile⟩ := find_eq_ok hfind
  refine ⟨path, place, hpath, ?_⟩
  rw [hget]
  match entry with
  | some .folder => contradiction
  | some (.file old) =>
    cases h
    exact ⟨hfile old rfl, hfollow, nofun, rfl⟩
  | none =>
    dsimp only at h
    split at h
    · contradiction
    · rename_i hmeans
      cases h
      exact ⟨Bool.eq_false_iff.2 hmeans, hfollow, nofun, rfl⟩

/-- **A file that has been written says what was written.** -/
theorem read_of_write {name text : String} (h : folder.write name text = .ok folder') :
    folder'.read name = .ok text := by
  obtain ⟨path, place, hpath, hmeans, hfollow, hplace, rfl⟩ := write_eq_ok h
  have hget (way : List String) :
      get? ⟨folder.entries.insert place (.file text)⟩ way =
        if way.isEmpty then some .folder
        else if way = place then some (.file text) else folder.entries.get? way := by
    rw [get?, Table.get?_insert]
  have hne : place ≠ [] := by
    rintro rfl
    exact hplace rfl
  have hmono (way : List String) (hway : folder.get? way = some .folder) :
      get? ⟨folder.entries.insert place (.file text)⟩ way = some .folder := by
    rw [hget]
    split
    · rfl
    · rename_i hway'
      rw [if_neg, ← hway, get?, if_neg hway']
      rintro rfl
      exact hplace hway
  have hfind : find ⟨folder.entries.insert place (.file text)⟩ path =
      .ok (place, some (.file text)) := by
    rw [find, follow_mono hmono hfollow]
    dsimp only
    rw [hget, if_neg (mt List.isEmpty_iff.1 hne), if_pos rfl]
    dsimp only
    rw [hmeans]
    rfl
  rw [read, hpath]
  show (find _ path >>= _) = _
  rw [hfind]
  rfl

end Folder

/-! ### Saving and loading -/

namespace Buffer

theorem rows_ofLines {rows : List (List Char)} (h : rows ≠ []) : (ofLines rows).rows = rows := by
  obtain ⟨first, more, rfl⟩ := List.exists_cons_of_ne_nil h
  rw [ofLines, Buffer.rows, CursorLine.chars_atStart]
  rfl

end Buffer

namespace Editor

theorem toList_content (e : Editor) : e.content.toList = e.buffer.rows.flatMap (· ++ ['\n']) := by
  have hrows : e.lines.map String.toList = e.buffer.rows := by
    rw [lines, Buffer.lines, List.map_map]
    exact (List.map_congr_left fun row _ ↦ String.toList_ofList).trans (List.map_id _)
  rw [content, Text.toList_unlines, hrows]

theorem rows_setContent_content (s : Surroundings) (e e' : Editor) :
    (e'.setContent s e.content).buffer.rows =
      Text.linesOfChars (e.buffer.rows.flatMap (· ++ ['\n'])) := by
  show (Buffer.ofLines (Text.linesOfChars e.content.toList)).rows = _
  rw [toList_content, Buffer.rows_ofLines]
  rw [Text.linesOfChars_flatMap, Ne, List.map_eq_nil_iff]
  have hlength := Text.length_le_length_flatMap_splitAtNewlines e.buffer.rows
  have hpos := e.buffer.row_lt
  intro hnil
  rw [hnil, List.length_nil] at hlength
  omega

/-- **Lines that come back** when the text of one editor is put into another one. -/
theorem lines_setContent_content_iff (s : Surroundings) (e e' : Editor) :
    (e'.setContent s e.content).lines = e.lines ↔
      ∀ line ∈ e.lines, '\n' ∉ line.toList ∧ line.toList.getLast? ≠ some '\r' := by
  rw [lines, Buffer.lines, lines, Buffer.lines, List.map_inj_right fun _ _ ↦ String.ofList_injective,
    rows_setContent_content, Text.linesOfChars_flatMap_eq_iff, List.forall_mem_map]
  simp only [String.toList_ofList]

end Editor

namespace Session

variable {s : Surroundings} {session : Session} {input : CursorLine} {control : Bool}

/-- Confirming a prompt for saving writes the text to a file. -/
theorem press_save {folder : Folder} (hmode : session.editor.mode = .prompt .save input)
    (hwrite : session.folder.write (Editor.nameOf input) session.editor.content = .ok folder) :
    session.press s control .enter =
      { session with editor := session.editor.saved (.ok (Editor.nameOf input)), folder } := by
  rw [press, Editor.press, hmode]
  show session.answer s (.save session.editor.content (Editor.nameOf input)) = _
  rw [answer, reply, hwrite]
  rfl

/-- Confirming a prompt for loading puts the text of a file into the editor. -/
theorem press_load {text : String} (hmode : session.editor.mode = .prompt .load input)
    (hread : session.folder.read (Editor.nameOf input) = .ok text) :
    session.press s control .enter =
      { session with editor := session.editor.loaded s (.ok (text, Editor.nameOf input)) } := by
  rw [press, Editor.press, hmode]
  show session.answer s (.load (Editor.nameOf input)) = _
  rw [answer, reply, hread]
  rfl

end Session

/-- **Saved text comes back**, with an exact exception. Putting its own text into an editor leaves the
lines as they are if and only if no line has a newline in it or a carriage return at its end. So when a
text without such lines is saved in a file and any editor loads this file, then that editor has the same
lines. -/
theorem Editor.saved_text_comes_back (s : Surroundings) :
    (∀ e : Editor, (e.setContent s e.content).lines = e.lines ↔
      ∀ line ∈ e.lines, '\n' ∉ line.toList ∧ line.toList.getLast? ≠ some '\r') ∧
    ∀ (session : Session) (input : CursorLine) (folder : Folder) (control : Bool),
      session.editor.mode = .prompt .save input →
      session.folder.write (nameOf input) session.editor.content = .ok folder →
      (session.press s control .enter).folder = folder ∧
        ∀ (e : Editor) (clipboard : Except String Unit) (input' : CursorLine),
          e.mode = .prompt .load input' → nameOf input' = nameOf input →
          (((Session.mk e folder clipboard).press s control .enter).editor.lines =
              session.editor.lines ↔
            ∀ line ∈ session.editor.lines,
              '\n' ∉ line.toList ∧ line.toList.getLast? ≠ some '\r') := by
  refine ⟨fun e ↦ lines_setContent_content_iff s e e, ?_⟩
  intro session input folder control hmode hwrite
  rw [Session.press_save hmode hwrite]
  refine ⟨rfl, fun e clipboard input' hmode' hname ↦ ?_⟩
  have hread : folder.read (nameOf input') = .ok session.editor.content := by
    rw [hname]
    exact Folder.read_of_write hwrite
  have hload : (Session.mk e folder clipboard).press s control .enter = ⟨_, folder, clipboard⟩ :=
    Session.press_load hmode' hread
  rw [hload]
  exact lines_setContent_content_iff s session.editor e

end Reckoner
