import Reckoner.Proofs.SharedReadings

/-!
# What it costs to evaluate a document again

A pass reads the lines of its document from top to bottom, so the passes of a notebook are one long run
of calls of its line reader (`reader_afterPasses`). When a document is evaluated again right away, the
reader has used last what has a meaning in it, and how many of its lines are still remembered depends on
how many of them there are.

* If no more distinct lines have a meaning than the memory can hold, all of these are remembered: no
  line from elsewhere has been used since the last use of any of them. This remains so while the lines
  are read (`Recent`), so nothing is dropped, and only the lines without meaning are read again.
* If the document is longer than that, without repetitions and without lines that have no meaning, then
  the next line is always the one whose last use lies furthest back: since then all the other lines have
  been used (`Sound.counters_callAll_of_cycle`). So a memory that is too small by one line is of no use
  at all.
-/

namespace Reckoner

/-! ### Uses -/

section

variable {W : Finset String} {uses : List String} {key : String}

/-- All texts of a set have been used, and since the last use of any of them no other text has been. -/
def Recent (W : Finset String) (uses : List String) : Prop :=
  ∀ key ∈ W, key ∈ uses ∧ ∀ other ∈ uses.takeWhile (· ≠ key), other ∈ W

theorem recent_append (used before : List String) : Recent used.toFinset (used ++ before) := by
  intro key hkey
  obtain ⟨after, earlier, rfl, hafter⟩ := List.eq_append_cons_of_mem (List.mem_toFinset.1 hkey)
  rw [List.append_assoc, List.cons_append, takeWhile_ne_append hafter]
  exact ⟨by simp, fun other hother ↦ by simp [hother]⟩

namespace Recent

theorem cons (h : Recent W uses) (hkey : key ∈ W) : Recent W (key :: uses) := by
  intro a ha
  obtain ⟨hused, hbetween⟩ := h a ha
  refine ⟨List.mem_cons_of_mem _ hused, fun other hother ↦ ?_⟩
  by_cases heq : key = a
  · rw [List.takeWhile_cons_of_neg (by simpa using heq)] at hother
    exact absurd hother List.not_mem_nil
  · rw [List.takeWhile_cons_of_pos (by simpa using heq)] at hother
    rcases List.mem_cons.1 hother with rfl | hother
    · exact hkey
    · exact hbetween other hother

/-- Fewer other texts have been used since the last use of a recent one than there are recent ones. -/
theorem card_lt (h : Recent W uses) (hkey : key ∈ W) :
    (uses.takeWhile (· ≠ key)).toFinset.card < W.card := by
  refine Finset.card_lt_card ((Finset.ssubset_iff_of_subset fun other hother ↦ ?_).2
    ⟨key, hkey, fun hmem ↦ ?_⟩)
  · exact (h key hkey).2 other (List.mem_toFinset.1 hother)
  · have hne := List.mem_takeWhile_imp (List.mem_toFinset.1 hmem)
    exact of_decide_eq_true hne rfl

end Recent

end

variable {K : Type} [Scalar K]

/-- Whether a text has a meaning. -/
def Statement.hasMeaning (K : Type) [Scalar K] (maxDepth : Nat) (key : String) : Bool :=
  (ofText (K := K) maxDepth key).isOk

namespace LineReader.Log

open Statement (hasMeaning)

variable {capacity maxDepth : Nat} {log : Log K}

/-! ### What one call costs -/

theorem Sound.succeeds_eq (h : log.Sound capacity maxDepth) {s : Call K} (hs : s ∈ log.calls) :
    s.succeeds = hasMeaning K maxDepth s.key := by
  have houtcome := h.outcome s hs
  rw [Call.succeeds, hasMeaning]
  cases hcall : s.outcome <;> cases htext : Statement.ofText (K := K) maxDepth s.key
  all_goals rw [hcall, htext] at houtcome
  · rfl
  · contradiction
  · contradiction
  · rfl

/-- A text is remembered exactly if fewer distinct others than the capacity have been used after it. -/
theorem Sound.mem_keys_iff (h : log.Sound capacity maxDepth) {key : String} :
    key ∈ log.reader.cache.keys ↔ key ∈ keysRead log.calls ∧
      ((keysRead log.calls).takeWhile (· ≠ key)).toFinset.card < max capacity 1 := by
  rw [← RecencyCache.contains_iff, h.tracks.contains_iff, h.capacity_eq]

/-- A call is a use of its text, if this has a meaning. -/
theorem Sound.keysRead_call (h : log.Sound capacity maxDepth) (text : String) :
    keysRead (log.call text).calls =
      if hasMeaning K maxDepth (Text.trim text) then Text.trim text :: keysRead log.calls
      else keysRead log.calls := by
  have hsucceeds := (h.call text).succeeds_eq List.mem_cons_self
  rw [Call.key] at hsucceeds
  rw [← hsucceeds, Log.call, keysRead, List.filter_cons]
  split
  · rw [List.map_cons, keysRead]
    rfl
  · rw [keysRead]

/-- What a call costs if its text is remembered. -/
theorem counters_call_of_mem {text : String}
    (hmem : Text.trim text ∈ log.reader.cache.keys) :
    (log.call text).reader.counters =
      { log.reader.counters with hits := log.reader.counters.hits + 1 } := by
  rcases log.reader.read_cases text with ⟨line, -, hread⟩ | ⟨hnew, -⟩
  · rw [Log.call, hread]
  · exact absurd hmem hnew

/-- What a call costs if its text has no meaning. -/
theorem Sound.counters_call_of_not_hasMeaning (h : log.Sound capacity maxDepth) {text : String}
    (hnone : hasMeaning K maxDepth (Text.trim text) = false) :
    (log.call text).reader.counters =
      { log.reader.counters with
        misses := log.reader.counters.misses + 1
        failures := log.reader.counters.failures + 1 } := by
  rcases log.reader.read_cases text with
    ⟨line, hget, -⟩ | ⟨-, ⟨e, -, hread⟩ | ⟨statement, hs, -⟩⟩
  · obtain ⟨-, s, hs, hkey, houtcome⟩ := h.exists_of_get hget
    have hsucceeds := h.succeeds_eq hs
    rw [hkey, hnone, Call.succeeds, houtcome] at hsucceeds
    contradiction
  · rw [Log.call, hread]
  · rw [hasMeaning, ← h.maxDepth_eq, hs] at hnone
    contradiction

/-- What a call costs if its text has a meaning but is not remembered. -/
theorem Sound.counters_call_of_notMem (h : log.Sound capacity maxDepth) {text : String}
    (hmeaning : hasMeaning K maxDepth (Text.trim text) = true)
    (hnew : Text.trim text ∉ log.reader.cache.keys) :
    (log.call text).reader.counters.hits = log.reader.counters.hits ∧
      (log.call text).reader.counters.misses = log.reader.counters.misses + 1 := by
  rcases log.reader.read_cases text with
    ⟨line, hget, -⟩ | ⟨-, ⟨e, he, -⟩ | ⟨statement, -, hread⟩⟩
  · exact absurd (RecencyCache.mem_keys_of_get hget) hnew
  · rw [hasMeaning, ← h.maxDepth_eq, he] at hmeaning
    contradiction
  · rw [Log.call, hread]
    exact ⟨rfl, rfl⟩

/-! ### What a run of calls costs -/

/-- The log after some more calls. -/
def callAll (log : Log K) (texts : List String) : Log K := texts.foldl call log

theorem Sound.callAll (h : log.Sound capacity maxDepth) (texts : List String) :
    (log.callAll texts).Sound capacity maxDepth := by
  induction texts generalizing log with
  | nil => exact h
  | cons text rest ih => exact ih (h.call text)

theorem run_append (texts more : List String) :
    (run capacity maxDepth (texts ++ more) : Log K) = (run capacity maxDepth texts).callAll more := by
  rw [run, List.foldl_append]
  rfl

/-- The texts with a meaning are used, the last one most recently. -/
theorem Sound.keysRead_callAll (h : log.Sound capacity maxDepth) (texts : List String) :
    keysRead (log.callAll texts).calls =
      ((texts.map Text.trim).filter (hasMeaning K maxDepth)).reverse ++ keysRead log.calls := by
  induction texts generalizing log with
  | nil => rfl
  | cons text rest ih =>
    rw [Log.callAll, List.foldl_cons, ← Log.callAll, ih (h.call text), h.keysRead_call text,
      List.map_cons, List.filter_cons]
    split
    · rw [List.reverse_cons, List.append_assoc, List.singleton_append]
    · rfl

/-- **A second scan of what can be remembered.** While all texts that have a meaning are recent ones,
each of them is remembered. -/
theorem Sound.counters_callAll_of_recent {W : Finset String} (h : log.Sound capacity maxDepth)
    (hcard : W.card ≤ max capacity 1) (hrecent : Recent W (keysRead log.calls))
    (texts : List String)
    (htexts : ∀ key ∈ texts.map Text.trim, hasMeaning K maxDepth key = true → key ∈ W) :
    (log.callAll texts).reader.counters =
      { log.reader.counters with
        hits := log.reader.counters.hits + (texts.map Text.trim).countP (hasMeaning K maxDepth)
        misses := log.reader.counters.misses +
          (texts.map Text.trim).countP (!hasMeaning K maxDepth ·)
        failures := log.reader.counters.failures +
          (texts.map Text.trim).countP (!hasMeaning K maxDepth ·) } := by
  induction texts generalizing log with
  | nil => rfl
  | cons text rest ih =>
    rw [List.map_cons, List.forall_mem_cons] at htexts
    have hkeys := h.keysRead_call text
    rw [Log.callAll, List.foldl_cons, ← Log.callAll, List.map_cons]
    cases hmeaning : hasMeaning K maxDepth (Text.trim text) with
    | false =>
      rw [hmeaning, if_neg Bool.false_ne_true] at hkeys
      rw [ih (h.call text) (hkeys ▸ hrecent) htexts.2,
        h.counters_call_of_not_hasMeaning hmeaning,
        List.countP_cons_of_neg (by rw [hmeaning]; exact Bool.false_ne_true),
        List.countP_cons_of_pos (by rw [hmeaning]; rfl)]
      dsimp only
      congr 1 <;> omega
    | true =>
      have hkey := htexts.1 hmeaning
      rw [hmeaning, if_pos rfl] at hkeys
      have hmem : Text.trim text ∈ log.reader.cache.keys :=
        h.mem_keys_iff.2 ⟨(hrecent _ hkey).1, (hrecent.card_lt hkey).trans_le hcard⟩
      rw [ih (h.call text) (hkeys ▸ hrecent.cons hkey) htexts.2, counters_call_of_mem hmem,
        List.countP_cons_of_pos hmeaning,
        List.countP_cons_of_neg (by rw [hmeaning]; exact Bool.false_ne_true)]
      dsimp only
      congr 1
      omega

/-- **A scan in a cycle that cannot be remembered.** The texts that come next have been used longest
ago, and since then all the other ones have been used, which are as many as can be remembered. -/
theorem Sound.counters_callAll_of_cycle (h : log.Sound capacity maxDepth)
    (texts done before : List String)
    (huses : keysRead log.calls = (texts.map Text.trim ++ done).reverse ++ before)
    (hnodup : (texts.map Text.trim ++ done).Nodup)
    (hcapacity : max capacity 1 < (texts.map Text.trim ++ done).length)
    (hmeaning : ∀ key ∈ texts.map Text.trim, hasMeaning K maxDepth key = true) :
    (log.callAll texts).reader.counters.hits = log.reader.counters.hits ∧
      (log.callAll texts).reader.counters.misses = log.reader.counters.misses + texts.length := by
  induction texts generalizing log done before with
  | nil => exact ⟨rfl, rfl⟩
  | cons text rest ih =>
    rw [List.map_cons, List.forall_mem_cons] at hmeaning
    rw [List.map_cons, List.cons_append] at huses hnodup hcapacity
    rw [List.reverse_cons, List.append_assoc, List.singleton_append] at huses
    rw [List.nodup_cons] at hnodup
    -- Between the last use of the text and now, all the others have been used.
    have hnew : Text.trim text ∉ log.reader.cache.keys := by
      have hother : Text.trim text ∉ (rest.map Text.trim ++ done).reverse :=
        fun hmem ↦ hnodup.1 (List.mem_reverse.1 hmem)
      rw [h.mem_keys_iff, huses, takeWhile_ne_append hother, List.toFinset_reverse,
        List.toFinset_card_of_nodup hnodup.2]
      rw [List.length_cons] at hcapacity
      omega
    have hkeys := h.keysRead_call text
    rw [hmeaning.1, if_pos rfl, huses] at hkeys
    obtain ⟨hhits, hmisses⟩ := h.counters_call_of_notMem hmeaning.1 hnew
    -- The text goes behind all the others.
    have hperm : (rest.map Text.trim ++ (done ++ [Text.trim text])).Perm
        (Text.trim text :: (rest.map Text.trim ++ done)) := by
      rw [← List.append_assoc]
      exact List.perm_append_singleton _ _
    obtain ⟨ihhits, ihmisses⟩ := ih (h.call text) (done ++ [Text.trim text])
      (Text.trim text :: before) (by rw [hkeys]; simp)
      (hperm.nodup_iff.2 (List.nodup_cons.2 hnodup)) (hperm.length_eq ▸ hcapacity) hmeaning.2
    rw [Log.callAll, List.foldl_cons, ← Log.callAll, ihhits, ihmisses, hhits, hmisses,
      List.length_cons]
    exact ⟨rfl, by omega⟩

end LineReader.Log

/-! ### Passes are runs of calls -/

namespace Notebook

open LineReader
open Statement (hasMeaning)

/-- What a pass over a document reads: the lines that are not blank, without blanks around them. -/
def keysOf (lines : List String) : List String := (lines.map Text.trim).filter (!·.isEmpty)

theorem map_trim_keysOf (lines : List String) : (keysOf lines).map Text.trim = keysOf lines := by
  have htrim : ∀ key ∈ keysOf lines, Text.trim key = key := by
    intro key hkey
    obtain ⟨text, -, rfl⟩ := List.mem_map.1 (List.mem_of_mem_filter hkey)
    exact Text.trim_trim text
  rw [List.map_congr_left htrim, List.map_id']

theorem reader_evaluateLine_eq (ctx : Context K) (reader : LineReader K) (scope : Scope K)
    (text : String) :
    (evaluateLine ctx reader scope text).2.1 =
      if (Text.trim text).isEmpty then reader else (reader.read (Text.trim text)).2 := by
  unfold evaluateLine
  dsimp only
  split
  · rfl
  · split <;> rename_i hread <;> rw [hread]

theorem reader_evaluateFrom (engine : Engine K) (registry : Nat → Registry K) (index : Nat)
    (log : Log K) (scope : Scope K) (lines : List String) :
    (evaluateFrom engine registry index log.reader scope lines).reader =
      (log.callAll (keysOf lines)).reader := by
  induction lines generalizing index log scope with
  | nil => rfl
  | cons text rest ih =>
    rw [evaluateFrom_cons]
    dsimp only
    rw [reader_evaluateLine_eq, keysOf, List.map_cons, List.filter_cons, ← keysOf]
    cases hempty : (Text.trim text).isEmpty with
    | true => exact ih (index + 1) log _
    | false => exact ih (index + 1) (log.call (Text.trim text)) _

/-- **The passes of a notebook are one run** of calls of its reader. -/
theorem reader_afterPasses (engine : Engine K) (passes : List (Pass K)) :
    (afterPasses engine passes).reader =
      (Log.run engine.limits.cacheCapacity engine.limits.maxExpressionDepth
        (passes.flatMap fun pass ↦ keysOf pass.lines)).reader := by
  induction passes using List.reverseRecOn with
  | nil => rfl
  | append_singleton passes pass ih =>
    rw [afterPasses, List.foldl_append, List.foldl_cons, List.foldl_nil, ← afterPasses, afterPass, ih,
      reader_evaluateFrom, List.flatMap_append, List.flatMap_singleton, Log.run_append]

/-- **What it costs to evaluate a document again**, right after a pass over the same document, whatever
passes came before; in a row of passes over one document, this is every pass after the first. A capacity
of zero counts as one. If no more distinct lines have a meaning than can be
remembered, then each line with a meaning is remembered, each other one is read again, and nothing is
dropped. If the lines that are not blank are distinct, all have a meaning, and are more than can be
remembered, then all of them are read again. -/
theorem repeated_pass_costs (engine : Engine K) (passes : List (Pass K))
    (registry registry' : Nat → Registry K) (now now' : Date) (lines : List String) :
    let capacity := max engine.limits.cacheCapacity 1
    let meaningful := hasMeaning K engine.limits.maxExpressionDepth
    let once := afterPass engine (afterPasses engine passes) ⟨registry, now, lines⟩
    let again := afterPass engine once ⟨registry', now', lines⟩
    (((keysOf lines).filter meaningful).toFinset.card ≤ capacity →
      again.reader.counters =
        { once.reader.counters with
          hits := once.reader.counters.hits + (keysOf lines).countP meaningful
          misses := once.reader.counters.misses + (keysOf lines).countP (!meaningful ·)
          failures := once.reader.counters.failures + (keysOf lines).countP (!meaningful ·) }) ∧
    ((keysOf lines).Nodup → (∀ key ∈ keysOf lines, meaningful key = true) →
      capacity < (keysOf lines).length →
      again.reader.counters.hits = once.reader.counters.hits ∧
        again.reader.counters.misses = once.reader.counters.misses + (keysOf lines).length) := by
  intro capacity meaningful once again
  have hrun := Log.sound_run (K := K) engine.limits.cacheCapacity engine.limits.maxExpressionDepth
    (passes.flatMap fun pass ↦ keysOf pass.lines)
  have hreader := reader_afterPasses engine passes
  generalize (Log.run engine.limits.cacheCapacity engine.limits.maxExpressionDepth
    (passes.flatMap fun pass ↦ keysOf pass.lines) : Log K) = log at hrun hreader
  have honce : once.reader = (log.callAll (keysOf lines)).reader := by
    show (evaluateFrom engine registry 0 _ _ lines).reader = _
    rw [hreader, reader_evaluateFrom]
  have hagain : again.reader = ((log.callAll (keysOf lines)).callAll (keysOf lines)).reader := by
    show (evaluateFrom engine registry' 0 _ _ lines).reader = _
    rw [honce, reader_evaluateFrom]
  have hsound := hrun.callAll (keysOf lines)
  have huses := hrun.keysRead_callAll (keysOf lines)
  have htrim := map_trim_keysOf lines
  rw [htrim] at huses
  rw [hagain, honce]
  constructor
  · intro hcard
    rw [← List.toFinset_reverse] at hcard
    have hcounters := hsound.counters_callAll_of_recent hcard (huses ▸ recent_append _ _)
      (keysOf lines) fun key hkey hmeaning ↦ ?_
    · rwa [htrim] at hcounters
    · rw [htrim] at hkey
      exact List.mem_toFinset.2 (List.mem_reverse.2 (List.mem_filter.2 ⟨hkey, hmeaning⟩))
  · intro hnodup hmeaning hcapacity
    rw [List.filter_eq_self.2 hmeaning] at huses
    refine hsound.counters_callAll_of_cycle (keysOf lines) [] (LineReader.keysRead log.calls)
      ?_ ?_ ?_ ?_
    · rw [htrim, List.append_nil, huses]
    · rwa [htrim, List.append_nil]
    · rwa [htrim, List.append_nil]
    · rwa [htrim]

set_option maxRecDepth 10000 in
/-- A memory for one line is enough for a line that is repeated, but not for two lines in turn. -/
theorem repeated_pass_costs_one_line :
    (((keysOf ["a", " ", ")", "a"]).filter (hasMeaning Float 1)).toFinset.card ≤ 1 ∧
      let once := afterPass (.standard ⟨1, 1, 100000, 64⟩) (.new ⟨1, 1, 100000, 64⟩)
        ⟨fun _ ↦ .uninitialized, ⟨0, by decide⟩, ["a", " ", ")", "a"]⟩
      let again := afterPass (.standard ⟨1, 1, 100000, 64⟩) once
        ⟨fun _ ↦ .uninitialized, ⟨0, by decide⟩, ["a", " ", ")", "a"]⟩
      again.reader.counters =
        { once.reader.counters with
          hits := once.reader.counters.hits + 2
          misses := once.reader.counters.misses + 1
          failures := once.reader.counters.failures + 1 }) ∧
    ((keysOf ["a", "b"]).Nodup ∧ (∀ key ∈ keysOf ["a", "b"], hasMeaning Float 1 key = true) ∧
      1 < (keysOf ["a", "b"]).length ∧
      let once := afterPass (.standard ⟨1, 1, 100000, 64⟩) (.new ⟨1, 1, 100000, 64⟩)
        ⟨fun _ ↦ .uninitialized, ⟨0, by decide⟩, ["a", "b"]⟩
      let again := afterPass (.standard ⟨1, 1, 100000, 64⟩) once
        ⟨fun _ ↦ .uninitialized, ⟨0, by decide⟩, ["a", "b"]⟩
      again.reader.counters.hits = once.reader.counters.hits ∧
        again.reader.counters.misses = once.reader.counters.misses + 2) := by
  have ha : hasMeaning Float 1 "a" = true := by cbv
  have hb : hasMeaning Float 1 "b" = true := by cbv
  have hparenthesis : hasMeaning Float 1 ")" = false := by cbv
  have hkeys : keysOf ["a", " ", ")", "a"] = ["a", ")", "a"] := by decide +kernel
  have hkeys' : keysOf ["a", "b"] = ["a", "b"] := by decide +kernel
  have hrepeated : (["a", ")", "a"].filter (hasMeaning Float 1)) = ["a", "a"] := by
    simp only [List.filter_cons, ha, hparenthesis, List.filter_nil, if_true, Bool.false_eq_true,
      if_false]
  have hcounts : ["a", ")", "a"].countP (hasMeaning Float 1) = 2 ∧
      ["a", ")", "a"].countP (!hasMeaning Float 1 ·) = 1 := by
    simp [ha, hparenthesis]
  have hmeaning : ∀ key ∈ ["a", "b"], hasMeaning Float 1 key = true := by simp [ha, hb]
  obtain ⟨hone, -⟩ := repeated_pass_costs (.standard ⟨1, 1, 100000, 64⟩) [] (fun _ ↦ .uninitialized)
    (fun _ ↦ .uninitialized) ⟨0, by decide⟩ ⟨0, by decide⟩ ["a", " ", ")", "a"]
  obtain ⟨-, htwo⟩ := repeated_pass_costs (.standard ⟨1, 1, 100000, 64⟩) [] (fun _ ↦ .uninitialized)
    (fun _ ↦ .uninitialized) ⟨0, by decide⟩ ⟨0, by decide⟩ ["a", "b"]
  have hlimits : (Engine.standard ⟨1, 1, 100000, 64⟩).limits = ⟨1, 1, 100000, 64⟩ := rfl
  rw [hlimits] at hone htwo
  rw [hkeys] at hone ⊢
  rw [hkeys'] at htwo ⊢
  rw [hrepeated] at hone ⊢
  rw [hcounts.1, hcounts.2] at hone
  exact ⟨⟨by decide, hone (by decide)⟩, by decide, hmeaning, by decide,
    htwo (by decide) hmeaning (by decide)⟩

end Notebook

end Reckoner
