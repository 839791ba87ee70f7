import Reckoner.Proofs.LineMemory
import Reckoner.Proofs.TickOrder

/-!
# Which lines are read anew

A line reader answers from its memory or reads anew, and every reading has a number of its own. So the
number that a line bears tells whether it comes from an earlier reading, and from which. It comes from
the one of the last call that gave the same line, exactly if fewer distinct other lines than the
capacity have been given since (`Lawful.shared`).

`read_cases` says once what a call can do: answer from the memory, fail, or read anew. The memory
follows the keys of the calls that gave a line (`Log.Sound`), since a hit and a successful reading are
both uses of their key, and a call that fails is none. The rest is what is known of such a memory, and a
balance that each of the three ways keeps: a call counts as a hit or a miss, and a miss ends as a
failure, as a line that is still remembered, or as one that has been dropped for it or for a later one.
-/

namespace Reckoner

namespace LineReader

variable {K : Type} [Scalar K]

/-- **What a call can do.** It remembers the line; or it does not, and then the line has no meaning, or
is read anew and remembered from now on. -/
theorem read_cases (reader : LineReader K) (text : String) :
    (∃ line, (reader.cache.get (Text.trim text)).1 = some line ∧
        reader.read text =
          (.ok line, { reader with
            cache := (reader.cache.get (Text.trim text)).2
            counters := { reader.counters with hits := reader.counters.hits + 1 } })) ∨
      (Text.trim text ∉ reader.cache.keys ∧
        ((∃ e, Statement.ofText (K := K) reader.maxDepth (Text.trim text) = .error e ∧
          reader.read text =
            (.error e, { reader with
              cache := reader.cache.next
              counters := { reader.counters with
                misses := reader.counters.misses + 1
                failures := reader.counters.failures + 1 } })) ∨
        ∃ statement, Statement.ofText reader.maxDepth (Text.trim text) = .ok statement ∧
          reader.read text =
            let line := ⟨Text.trim text, statement, reader.counters.misses⟩
            (.ok line, { reader with
              cache := (reader.cache.next.put (Text.trim text) line).2
              counters := { reader.counters with
                misses := reader.counters.misses + 1
                evictions := reader.counters.evictions +
                  if (reader.cache.next.put (Text.trim text) line).1.isSome then 1 else 0 } }))) := by
  rcases reader.cache.get_cases (Text.trim text) with ⟨hnone, hget⟩ | ⟨-, line, hget⟩
  · refine .inr ⟨hnone, ?_⟩
    cases hs : Statement.ofText (K := K) reader.maxDepth (Text.trim text) with
    | error e => exact .inl ⟨e, rfl, by simp only [read, hget, readAnew, hs]⟩
    | ok statement => exact .inr ⟨statement, rfl, by simp only [read, hget, readAnew, hs]⟩
  · refine .inl ⟨line, hget, ?_⟩
    rw [read, ← Prod.mk.eta (p := reader.cache.get (Text.trim text)), hget]

/-! ### Calls -/

/-- A call that has been answered. -/
structure Call (K : Type) where
  text : String
  outcome : Except ParseError (ReadLine K)

namespace Call

/-- The text without blanks around it. -/
def key (s : Call K) : String := Text.trim s.text

/-- Whether the call gave a line. -/
def succeeds (s : Call K) : Bool := s.outcome.isOk

end Call

/-- The lines that some calls gave. -/
def linesGiven (calls : List (Call K)) : List (ReadLine K) :=
  calls.filterMap (·.outcome.toOption)

/-- The keys of the calls that gave a line. -/
def keysRead (calls : List (Call K)) : List String := (calls.filter Call.succeeds).map Call.key

/-- The line that the first of some calls gave for a key, if one did. -/
def lineOf (calls : List (Call K)) (key : String) : Option (ReadLine K) :=
  calls.findSome? fun s ↦ if s.key = key then s.outcome.toOption else none

/-- A reader with all calls and their answers, the last call first. -/
structure Log (K : Type) where
  reader : LineReader K
  calls : List (Call K)

namespace Log

/-- The log of a new reader. -/
def start (capacity maxDepth : Nat) : Log K := ⟨.new capacity maxDepth, []⟩

/-- The log after one more call. -/
def call (log : Log K) (text : String) : Log K :=
  ⟨(log.reader.read text).2, ⟨text, (log.reader.read text).1⟩ :: log.calls⟩

/-- **The log of some calls** of a new reader. -/
def run (capacity maxDepth : Nat) (texts : List String) : Log K :=
  texts.foldl call (start capacity maxDepth)

/-- **The laws of a line reader**, in terms of its calls. -/
structure Lawful (capacity maxDepth : Nat) (log : Log K) : Prop where
  /-- Every call gives the reading of its trimmed text, or exactly the error of the reading. -/
  outcome : ∀ s ∈ log.calls, s.outcome.map (fun line ↦ (line.source, line.statement)) =
    (Statement.ofText maxDepth s.key).map fun statement ↦ (s.key, statement)
  /-- Lines that bear the same number are the same. -/
  reading : ∀ line ∈ linesGiven log.calls, ∀ line' ∈ linesGiven log.calls,
    line.reading = line'.reading → line = line'
  /-- Let `r` be the last call before `s` that gave a line for the text of `s`. Then `s` gives the same
  reading, exactly if fewer distinct other texts than the capacity have been given a line in between. -/
  shared : ∀ after s between r before line, log.calls = after ++ s :: (between ++ r :: before) →
    r.key = s.key → r.outcome = .ok line →
    (∀ m ∈ between, m.key = s.key → m.succeeds = false) →
    ∃ line', s.outcome = .ok line' ∧
      (line'.reading = line.reading ↔ (keysRead between).toFinset.card < max capacity 1)
  /-- Every call is a hit or a miss. -/
  calls : log.reader.counters.hits + log.reader.counters.misses = log.calls.length
  /-- The calls without a line are the failures. -/
  failures : log.reader.counters.failures = log.calls.countP (!·.succeeds)
  /-- What was read anew has failed, has been dropped, or is remembered. -/
  misses : log.reader.counters.misses =
    log.reader.counters.failures + log.reader.counters.evictions + log.reader.cache.size
  /-- No more is remembered than the capacity allows, of which zero counts as one. -/
  size_le : log.reader.cache.size ≤ max capacity 1

end Log

/-! ### The memory follows the calls -/

section

variable {calls : List (Call K)} {s : Call K} {line : ReadLine K} {e : ParseError}

omit [Scalar K]

theorem keysRead_cons_ok (h : s.outcome = .ok line) (calls : List (Call K)) :
    keysRead (s :: calls) = s.key :: keysRead calls := by
  have hs : s.succeeds = true := by rw [Call.succeeds, h]; rfl
  rw [keysRead, List.filter_cons_of_pos hs, List.map_cons, keysRead]

theorem keysRead_cons_error (h : s.outcome = .error e) (calls : List (Call K)) :
    keysRead (s :: calls) = keysRead calls := by
  have hs : ¬s.succeeds = true := by rw [Call.succeeds, h]; exact Bool.false_ne_true
  rw [keysRead, List.filter_cons_of_neg hs, keysRead]

theorem keysRead_append (calls calls' : List (Call K)) :
    keysRead (calls ++ calls') = keysRead calls ++ keysRead calls' := by
  rw [keysRead, List.filter_append, List.map_append, keysRead, keysRead]

theorem lineOf_cons_ok (h : s.outcome = .ok line) (calls : List (Call K)) :
    lineOf (s :: calls) = Function.update (lineOf calls) s.key (some line) := by
  funext key
  rw [lineOf, List.findSome?_cons]
  by_cases hkey : s.key = key
  · rw [if_pos hkey, h, ← hkey, Function.update_self]
    rfl
  · rw [if_neg hkey, Function.update_of_ne (Ne.symm hkey)]
    rfl

theorem lineOf_cons_error (h : s.outcome = .error e) (calls : List (Call K)) :
    lineOf (s :: calls) = lineOf calls := by
  funext key
  rw [lineOf, List.findSome?_cons, h]
  by_cases hkey : s.key = key
  · rw [if_pos hkey]
    rfl
  · rw [if_neg hkey]
    rfl

/-- Calls that gave no line for a key say nothing about its line. -/
theorem lineOf_append_of_none {key : String}
    (h : ∀ m ∈ calls, m.key = key → m.succeeds = false) (calls' : List (Call K)) :
    lineOf (calls ++ calls') key = lineOf calls' key := by
  have hnone : lineOf calls key = none := by
    refine List.findSome?_eq_none_iff.2 fun m hm ↦ ?_
    split
    · rename_i hkey
      have hm := h m hm hkey
      rw [Call.succeeds] at hm
      cases houtcome : m.outcome with
      | error e => rfl
      | ok line => rw [houtcome] at hm; contradiction
    · rfl
  rw [lineOf] at hnone
  rw [lineOf, List.findSome?_append, hnone, Option.none_or, lineOf]

theorem exists_of_lineOf_eq {key : String} (h : lineOf calls key = some line) :
    ∃ s ∈ calls, s.key = key ∧ s.outcome = .ok line := by
  obtain ⟨s, hs, hline⟩ := List.exists_of_findSome?_eq_some h
  split at hline
  · rename_i hkey
    refine ⟨s, hs, hkey, ?_⟩
    cases houtcome : s.outcome with
    | error e => rw [houtcome] at hline; contradiction
    | ok line' =>
      rw [houtcome] at hline
      exact congrArg Except.ok (Option.some.inj hline)
  · contradiction

theorem mem_linesGiven : line ∈ linesGiven calls ↔ ∃ s ∈ calls, s.outcome = .ok line := by
  rw [linesGiven, List.mem_filterMap]
  refine exists_congr fun s ↦ and_congr_right fun _ ↦ ?_
  cases s.outcome <;> simp [Except.toOption]

end

namespace Log

/-- The invariant of logs. -/
structure Sound (capacity maxDepth : Nat) (log : Log K) : Prop where
  tracks : log.reader.cache.Tracks (keysRead log.calls) (lineOf log.calls)
  capacity_eq : log.reader.cache.capacity = max capacity 1
  maxDepth_eq : log.reader.maxDepth = maxDepth
  outcome : ∀ s ∈ log.calls, s.outcome.map (fun line ↦ (line.source, line.statement)) =
    (Statement.ofText maxDepth s.key).map fun statement ↦ (s.key, statement)
  reading : ∀ line ∈ linesGiven log.calls, ∀ line' ∈ linesGiven log.calls,
    line.reading = line'.reading → line = line'
  /-- Readings are numbered in their order, so the next one has a number that no line bears. -/
  reading_lt : ∀ line ∈ linesGiven log.calls, line.reading < log.reader.counters.misses
  calls : log.reader.counters.hits + log.reader.counters.misses = log.calls.length
  failures : log.reader.counters.failures = log.calls.countP (!·.succeeds)
  misses : log.reader.counters.misses =
    log.reader.counters.failures + log.reader.counters.evictions + log.reader.cache.size

theorem sound_start (capacity maxDepth : Nat) :
    (start capacity maxDepth : Log K).Sound capacity maxDepth where
  tracks := RecencyCache.tracks_ofCapacity capacity _
  capacity_eq := rfl
  maxDepth_eq := rfl
  outcome := nofun
  reading := nofun
  reading_lt := nofun
  calls := rfl
  failures := rfl
  misses := rfl

variable {capacity maxDepth : Nat} {log : Log K} {text : String}

/-- A remembered line has been given before, by a call for the same text. -/
theorem Sound.exists_of_get (h : log.Sound capacity maxDepth) {key : String} {line : ReadLine K}
    (hget : (log.reader.cache.get key).1 = some line) :
    lineOf log.calls key = some line ∧ ∃ s ∈ log.calls, s.key = key ∧ s.outcome = .ok line := by
  rw [h.tracks.get_eq] at hget
  split at hget
  · exact ⟨hget, exists_of_lineOf_eq hget⟩
  · contradiction

/-- A call that answers from the memory. -/
theorem Sound.call_of_hit (h : log.Sound capacity maxDepth) {line : ReadLine K}
    (hget : (log.reader.cache.get (Text.trim text)).1 = some line)
    (hread : log.reader.read text =
      (.ok line, { log.reader with
        cache := (log.reader.cache.get (Text.trim text)).2
        counters := { log.reader.counters with hits := log.reader.counters.hits + 1 } })) :
    (log.call text).Sound capacity maxDepth := by
  obtain ⟨hline, r, hr, hkey, houtcome⟩ := h.exists_of_get hget
  have hmem : line ∈ linesGiven log.calls := mem_linesGiven.2 ⟨r, hr, houtcome⟩
  -- No line is new.
  have hlines : ∀ line' ∈ linesGiven (⟨text, .ok line⟩ :: log.calls),
      line' ∈ linesGiven log.calls := fun line' hline' ↦
    (List.mem_cons.1 hline').elim (fun heq ↦ heq ▸ hmem) id
  rw [call, hread]
  constructor
  case tracks =>
    rw [keysRead_cons_ok rfl, lineOf_cons_ok rfl]
    have hsame : Function.update (lineOf log.calls) (Text.trim text) (some line) =
        lineOf log.calls := by
      rw [← hline, Function.update_eq_self]
    have htracks := (h.tracks.get hget).1
    rw [← hsame] at htracks
    exact htracks
  case capacity_eq => exact (log.reader.cache.capacity_get _).trans h.capacity_eq
  case maxDepth_eq => exact h.maxDepth_eq
  case outcome =>
    intro s hs
    rcases List.mem_cons.1 hs with rfl | hs
    · have hr := h.outcome r hr
      rw [houtcome, hkey] at hr
      exact hr
    · exact h.outcome s hs
  case reading =>
    exact fun line₁ h₁ line₂ h₂ ↦ h.reading line₁ (hlines line₁ h₁) line₂ (hlines line₂ h₂)
  case reading_lt => exact fun line' hline' ↦ h.reading_lt line' (hlines line' hline')
  case calls =>
    have hcalls := h.calls
    rw [List.length_cons]
    dsimp only
    omega
  case failures => exact h.failures
  case misses =>
    dsimp only
    rw [(h.tracks.get hget).2]
    exact h.misses

/-- A call for a text without meaning. -/
theorem Sound.call_of_failure (h : log.Sound capacity maxDepth) {e : ParseError}
    (he : Statement.ofText (K := K) log.reader.maxDepth (Text.trim text) = .error e)
    (hread : log.reader.read text =
      (.error e, { log.reader with
        cache := log.reader.cache.next
        counters := { log.reader.counters with
          misses := log.reader.counters.misses + 1
          failures := log.reader.counters.failures + 1 } })) :
    (log.call text).Sound capacity maxDepth := by
  rw [call, hread]
  constructor
  case tracks =>
    rw [keysRead_cons_error rfl, lineOf_cons_error rfl]
    exact h.tracks.next
  case capacity_eq => exact h.capacity_eq
  case maxDepth_eq => exact h.maxDepth_eq
  case outcome =>
    intro s hs
    rcases List.mem_cons.1 hs with rfl | hs
    · rw [Call.key, ← h.maxDepth_eq, he]
      rfl
    · exact h.outcome s hs
  case reading => exact h.reading
  case reading_lt => exact fun line hline ↦ Nat.lt_succ_of_lt (h.reading_lt line hline)
  case calls =>
    have hcalls := h.calls
    rw [List.length_cons]
    dsimp only
    omega
  case failures =>
    rw [List.countP_cons_of_pos rfl]
    exact congrArg Nat.succ h.failures
  case misses =>
    have hmisses := h.misses
    have hsize : log.reader.cache.next.size = log.reader.cache.size := rfl
    dsimp only
    omega

/-- A call that reads its line anew, and remembers it. -/
theorem Sound.call_of_reading (h : log.Sound capacity maxDepth) {statement : Statement K}
    {line : ReadLine K} (hline : line = ⟨Text.trim text, statement, log.reader.counters.misses⟩)
    (hnew : Text.trim text ∉ log.reader.cache.keys)
    (hs : Statement.ofText log.reader.maxDepth (Text.trim text) = .ok statement)
    (hread : log.reader.read text =
      (.ok line, { log.reader with
        cache := (log.reader.cache.next.put (Text.trim text) line).2
        counters := { log.reader.counters with
          misses := log.reader.counters.misses + 1
          evictions := log.reader.counters.evictions +
            if (log.reader.cache.next.put (Text.trim text) line).1.isSome then 1 else 0 } })) :
    (log.call text).Sound capacity maxDepth := by
  have hnumber : line.reading = log.reader.counters.misses := by rw [hline]
  rw [call, hread]
  constructor
  case tracks =>
    rw [keysRead_cons_ok rfl, lineOf_cons_ok rfl]
    exact h.tracks.next.put (Text.trim text) line
  case capacity_eq => exact (RecencyCache.capacity_put _ _ _).trans h.capacity_eq
  case maxDepth_eq => exact h.maxDepth_eq
  case outcome =>
    intro s hs'
    rcases List.mem_cons.1 hs' with rfl | hs'
    · rw [Call.key, ← h.maxDepth_eq, hs, hline]
      rfl
    · exact h.outcome s hs'
  case reading =>
    intro line₁ h₁ line₂ h₂ heq
    rcases List.mem_cons.1 h₁ with hnew₁ | hold₁ <;> rcases List.mem_cons.1 h₂ with hnew₂ | hold₂
    · rw [hnew₁, hnew₂]
    · rw [hnew₁, hnumber] at heq
      exact absurd heq.symm (h.reading_lt line₂ hold₂).ne
    · rw [hnew₂, hnumber] at heq
      exact absurd heq (h.reading_lt line₁ hold₁).ne
    · exact h.reading line₁ hold₁ line₂ hold₂ heq
  case reading_lt =>
    intro line' hline'
    rcases List.mem_cons.1 hline' with rfl | hline'
    · exact hnumber.trans_lt (Nat.lt_succ_self _)
    · exact Nat.lt_succ_of_lt (h.reading_lt line' hline')
  case calls =>
    have hcalls := h.calls
    rw [List.length_cons]
    dsimp only
    omega
  case failures => exact h.failures
  case misses =>
    have hmisses := h.misses
    have hput := h.tracks.next.size_put hnew line
    have hsize : log.reader.cache.next.size = log.reader.cache.size := rfl
    dsimp only
    omega

theorem Sound.call (h : log.Sound capacity maxDepth) (text : String) :
    (log.call text).Sound capacity maxDepth := by
  rcases log.reader.read_cases text with
    ⟨line, hget, hread⟩ | ⟨hnew, ⟨e, he, hread⟩ | ⟨statement, hs, hread⟩⟩
  · exact h.call_of_hit hget hread
  · exact h.call_of_failure he hread
  · exact h.call_of_reading rfl hnew hs hread

theorem run_append_singleton (texts : List String) (text : String) :
    (run capacity maxDepth (texts ++ [text]) : Log K) =
      (run capacity maxDepth texts).call text := by
  rw [run, List.foldl_append, List.foldl_cons, List.foldl_nil, run]

theorem sound_run (capacity maxDepth : Nat) (texts : List String) :
    (run capacity maxDepth texts : Log K).Sound capacity maxDepth := by
  induction texts using List.reverseRecOn with
  | nil => exact sound_start capacity maxDepth
  | append_singleton texts text ih =>
    rw [run_append_singleton]
    exact ih.call text

/-! ### What a call shares with the last one for the same line -/

/-- The next call gives the reading of the last call for the same text, exactly if fewer distinct other
texts than the capacity have been given a line in between. -/
theorem Sound.shared_read (h : log.Sound capacity maxDepth) {between before : List (Call K)}
    {r : Call K} {line : ReadLine K} (hcalls : log.calls = between ++ r :: before)
    (hkey : r.key = Text.trim text) (hline : r.outcome = .ok line)
    (hnone : ∀ m ∈ between, m.key = Text.trim text → m.succeeds = false) :
    ∃ line', (log.reader.read text).1 = .ok line' ∧
      (line'.reading = line.reading ↔ (keysRead between).toFinset.card < max capacity 1) := by
  have hr : r ∈ log.calls := by simp [hcalls]
  have hother : ∀ key ∈ keysRead between, key ≠ Text.trim text := by
    intro key hmem heq
    obtain ⟨m, hm, hmkey⟩ := List.mem_map.1 hmem
    obtain ⟨hm, hsucceeds⟩ := List.mem_filter.1 hm
    rw [hnone m hm (hmkey.trans heq)] at hsucceeds
    contradiction
  have hkeys : keysRead log.calls = keysRead between ++ Text.trim text :: keysRead before := by
    rw [hcalls, keysRead_append, keysRead_cons_ok hline, hkey]
  have hused : Text.trim text ∈ keysRead log.calls := by simp [hkeys]
  have hsince : (keysRead log.calls).takeWhile (· ≠ Text.trim text) = keysRead between := by
    rw [hkeys, takeWhile_ne_append fun hmem ↦ hother _ hmem rfl]
  have hremembered := h.tracks.contains_iff (a := Text.trim text)
  rw [hsince, h.capacity_eq, and_iff_right hused] at hremembered
  rcases log.reader.read_cases text with
    ⟨line', hget, hread⟩ | ⟨hnew, ⟨e, he, -⟩ | ⟨statement, -, hread⟩⟩
  · have hlast : lineOf log.calls (Text.trim text) = some line := by
      rw [hcalls, lineOf_append_of_none hnone, lineOf_cons_ok hline, hkey, Function.update_self]
    obtain ⟨hline', -⟩ := h.exists_of_get hget
    obtain rfl : line' = line := Option.some.inj (hline'.symm.trans hlast)
    refine ⟨line', by rw [hread], iff_of_true rfl (hremembered.1 ?_)⟩
    by_contra hc
    rw [h.tracks.get_eq, if_neg hc] at hget
    contradiction
  · -- The text has a meaning, as the earlier call shows.
    have houtcome := h.outcome r hr
    rw [hline, hkey, ← h.maxDepth_eq, he] at houtcome
    contradiction
  · refine ⟨_, by rw [hread], iff_of_false (Nat.ne_of_gt ?_) fun hlt ↦ hnew ?_⟩
    · exact h.reading_lt line (mem_linesGiven.2 ⟨r, hr, hline⟩)
    · exact RecencyCache.contains_iff.1 (hremembered.2 hlt)

/-- What holds of the next call holds of every call. -/
theorem shared_run (capacity maxDepth : Nat) (texts : List String) :
    ∀ after s between r before line,
      (run capacity maxDepth texts : Log K).calls = after ++ s :: (between ++ r :: before) →
      r.key = s.key → r.outcome = .ok line →
      (∀ m ∈ between, m.key = s.key → m.succeeds = false) →
      ∃ line', s.outcome = .ok line' ∧
        (line'.reading = line.reading ↔ (keysRead between).toFinset.card < max capacity 1) := by
  induction texts using List.reverseRecOn with
  | nil =>
    intro after s between r before line hcalls
    exact absurd hcalls.symm (List.append_ne_nil_of_right_ne_nil _ nofun)
  | append_singleton texts text ih =>
    intro after s between r before line hcalls hkey hline hnone
    rw [run_append_singleton] at hcalls
    cases after with
    | nil =>
      obtain ⟨rfl, htail⟩ := List.cons.inj hcalls
      exact (sound_run capacity maxDepth texts).shared_read htail hkey hline hnone
    | cons t after => exact ih after s between r before line (List.cons.inj hcalls).2 hkey hline hnone

/-- **The laws of a line reader hold after every call**, whatever it is asked to read. -/
theorem lawful_run (capacity maxDepth : Nat) (texts : List String) :
    (run capacity maxDepth texts : Log K).Lawful capacity maxDepth := by
  have h := sound_run (K := K) capacity maxDepth texts
  constructor
  case outcome => exact h.outcome
  case reading => exact h.reading
  case shared => exact shared_run capacity maxDepth texts
  case calls => exact h.calls
  case failures => exact h.failures
  case misses => exact h.misses
  case size_le =>
    rw [h.tracks.size_eq, h.capacity_eq]
    exact Nat.min_le_left _ _

end Log

end LineReader

end Reckoner
