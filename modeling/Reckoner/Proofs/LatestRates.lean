import Reckoner.Outcome
import Reckoner.Proofs.RateFile

/-!
# The latest rates are served

However often rates are fetched, and whatever the file holds at first, each fetch gives the rates that
the source gave last, or those of the file if it gave none (`latest_rates_served`). A source that fails
never costs the rates that have been there.

The reason is that the file always holds just these rates. That is so at first, and a fetch keeps it so:
either it leaves the file alone and the source has given nothing, or it writes what the source gave, and
what is written is read back.

Where the file cannot be written, the answer is the same (`fetchRatesWith_eq_fetchRates`): what has gone
wrong is told apart from it, and is never told instead of it (`FetchCase.of_passed`).
-/

namespace Reckoner

/-! ### Runs of fetches -/

/-- What a fetch depends on besides the file: what the source would answer, and the times at which the
file is looked at and written. -/
structure Occasion where
  source : RateAnswer
  now : Timestamp
  written : Timestamp

/-- What the source would answer can be kept: rates that are read back, fetched within the range of
dates. -/
def Occasion.IsKept (o : Occasion) : Prop :=
  ∀ data, o.source = .ok data → data.IsReadBack ∧ o.written.InRange

/-- A fetch that has taken place. -/
structure Visit where
  occasion : Occasion
  fetch : Fetch

namespace Visit

/-- The rates that the fetch returned. -/
def returned? (visit : Visit) : Option (ExchangeRates Float) := visit.fetch.answer.toOption

/-- The rates that the source gave, if it was asked. -/
def obtained? (visit : Visit) : Option (ExchangeRates Float) :=
  if visit.fetch.asked then visit.occasion.source.toOption else none

end Visit

/-- The file after some fetches, the last of which comes first. -/
def fileAfter (initial : Option String) : List Visit → Option String
  | [] => initial
  | visit :: _ => visit.fetch.file

/-- **The fetches of some occasions**, the last one first. Each finds the file that the one before it has
left. -/
def fetchAll (ttl : Int) (initial : Option String) (occasions : List Occasion) : List Visit :=
  occasions.foldl (fun earlier o ↦
    ⟨o, fetchRates ttl o.source o.now o.written (fileAfter initial earlier)⟩ :: earlier) []

/-- The rates that a file holds, if there is one and it can be read. -/
def ratesIn? (file : Option String) : Option (ExchangeRates Float) :=
  (file.bind FetchedRates.ofText?).map (·.data)

/-- A file holds rates that are fresh. -/
def HoldsFresh (ttl : Int) (now : Timestamp) (file : Option String) : Prop :=
  ∃ entry, file.bind FetchedRates.ofText? = some entry ∧ entry.isFresh ttl now = true

/-- **The latest rates**: those that the source gave last, or those of the file at first. -/
def latest? (initial : Option String) (visits : List Visit) : Option (ExchangeRates Float) :=
  (visits.findSome? Visit.obtained?).or (ratesIn? initial)

/-- **A fetch serves the latest rates**, where `earlier` are the fetches before it. -/
structure Visit.ServesLatest (ttl : Int) (initial : Option String) (earlier : List Visit)
    (visit : Visit) : Prop where
  /-- It returns the latest rates, its own included. -/
  returns : visit.returned? = latest? initial (visit :: earlier)
  /-- It fails only if the source failed in this fetch, and there are no rates at all. -/
  fails : ∀ e, visit.fetch.answer = .error e →
    visit.fetch.asked = true ∧ visit.occasion.source = .error e ∧ latest? initial earlier = none
  /-- The file then holds what was returned last. -/
  holds : ∀ data, (visit :: earlier).findSome? Visit.returned? = some data →
    ratesIn? visit.fetch.file = some data
  /-- The source is asked exactly if the file has held no rates that are fresh. -/
  asks : visit.fetch.asked = true ↔ ¬HoldsFresh ttl visit.occasion.now (fileAfter initial earlier)

/-! ### One fetch -/

/-- What a fetch does: it serves fresh rates, or it asks the source, keeps what that gives, and otherwise
falls back on what there is. Last comes the error that is passed over. -/
inductive FetchCase (store : RateStore) (ttl : Int) (o : Occasion) (file : Option String) :
    Fetch → Except RateError Unit → Prop
  | fresh (entry : FetchedRates) : file.bind FetchedRates.ofText? = some entry →
      HoldsFresh ttl o.now file → FetchCase store ttl o file ⟨.ok entry.data, false, file⟩ (.ok ())
  | obtained (data : ExchangeRates Float) : ¬HoldsFresh ttl o.now file → o.source = .ok data →
      FetchCase store ttl o file ⟨.ok data, true, (store.keep ⟨o.written, data⟩ file).2⟩
        (store.keep ⟨o.written, data⟩ file).1
  | stale (entry : FetchedRates) (e : RateError) : file.bind FetchedRates.ofText? = some entry →
      ¬HoldsFresh ttl o.now file → o.source = .error e →
      FetchCase store ttl o file ⟨.ok entry.data, true, file⟩ (.error e)
  | failed (e : RateError) : file.bind FetchedRates.ofText? = none → ¬HoldsFresh ttl o.now file →
      o.source = .error e → FetchCase store ttl o file ⟨.error e, true, file⟩ (.ok ())

variable {store : RateStore} {ttl : Int} {initial file : Option String} {o : Occasion}
  {earlier : List Visit}

theorem fetchCase_fetchRatesWith (store : RateStore) (ttl : Int) (o : Occasion) (file : Option String) :
    FetchCase store ttl o file (fetchRatesWith store ttl o.source o.now o.written file).1
      (fetchRatesWith store ttl o.source o.now o.written file).2 := by
  unfold fetchRatesWith
  cases hentry : file.bind FetchedRates.ofText? with
  | none =>
    have hfresh : ¬HoldsFresh ttl o.now file := by
      rintro ⟨entry, hsome, -⟩
      rw [hentry] at hsome
      contradiction
    cases hsource : o.source with
    | ok data => exact .obtained data hfresh hsource
    | error e => exact .failed e hentry hfresh hsource
  | some entry =>
    by_cases hfresh : entry.isFresh ttl o.now = true
    · have hfilter : (some entry).filter (·.isFresh ttl o.now) = some entry := by
        rw [Option.filter_some, if_pos hfresh]
      simp only [hfilter]
      exact .fresh entry hentry ⟨entry, hentry, hfresh⟩
    · have hfilter : (some entry).filter (·.isFresh ttl o.now) = none := by
        rw [Option.filter_some, if_neg hfresh]
      have hstale : ¬HoldsFresh ttl o.now file := by
        rintro ⟨other, hsome, hother⟩
        rw [hentry] at hsome
        obtain rfl := Option.some.inj hsome
        exact hfresh hother
      simp only [hfilter]
      cases hsource : o.source with
      | ok data => exact .obtained data hstale hsource
      | error e => exact .stale entry e hentry hstale hsource

theorem fetchCase_fetchRates (ttl : Int) (o : Occasion) (file : Option String) :
    ∃ passed, FetchCase .reliable ttl o file (fetchRates ttl o.source o.now o.written file) passed :=
  ⟨_, fetchCase_fetchRatesWith .reliable ttl o file⟩

theorem FetchCase.asked_iff {fetch : Fetch} {passed : Except RateError Unit}
    (hfetch : FetchCase store ttl o file fetch passed) :
    fetch.asked = true ↔ ¬HoldsFresh ttl o.now file := by
  cases hfetch with
  | fresh _ _ hfresh => exact iff_of_false Bool.false_ne_true (not_not_intro hfresh)
  | obtained _ hstale => exact iff_of_true rfl hstale
  | stale _ _ _ hstale => exact iff_of_true rfl hstale
  | failed _ _ hstale => exact iff_of_true rfl hstale

theorem asked_fetchRates_iff :
    (fetchRates ttl o.source o.now o.written file).asked = true ↔ ¬HoldsFresh ttl o.now file :=
  (fetchCase_fetchRatesWith .reliable ttl o file).asked_iff

theorem ratesIn?_of_some {entry : FetchedRates} (h : file.bind FetchedRates.ofText? = some entry) :
    ratesIn? file = some entry.data := by
  rw [ratesIn?, h, Option.map_some]

/-! ### What can go wrong -/

/-- A source over the network gives just the rates of the response, if these name a base currency. -/
theorem RateAnswer.ofResponse_eq_ok_iff {response : Except String (ExchangeRates Float)}
    {data : ExchangeRates Float} :
    ofResponse response = .ok data ↔ response = .ok data ∧ Text.trim data.base ≠ "" := by
  cases response with
  | error reason => exact iff_of_false nofun fun h ↦ nomatch h.1
  | ok found =>
    show found.validated = .ok data ↔ _
    rw [ExchangeRates.validated, Except.ok.injEq]
    by_cases hbase : Text.trim found.base = ""
    · rw [if_pos hbase]
      refine iff_of_false nofun ?_
      rintro ⟨rfl, hne⟩
      exact hne hbase
    · rw [if_neg hbase, Except.ok.injEq]
      refine ⟨?_, And.left⟩
      rintro rfl
      exact ⟨rfl, hbase⟩

/-- Rates are not kept only because of the file, or because they have no text. -/
theorem RateStore.keep_eq_error {entry : FetchedRates} {e : RateError}
    (h : (store.keep entry file).1 = .error e) :
    (∃ reason, e = .io reason) ∨ ∃ reason, e = .decode reason := by
  rw [keep] at h
  split at h
  · rename_i hfolder
    obtain ⟨reason, -, rfl⟩ := Outcome.mapError_eq_error.1 hfolder
    exact .inl ⟨reason, (Except.error.inj h).symm⟩
  · rename_i htext
    obtain ⟨reason, -, rfl⟩ := Outcome.mapError_eq_error.1 htext
    exact .inr ⟨reason, (Except.error.inj h).symm⟩
  · obtain ⟨reason, -, rfl⟩ := Outcome.mapError_eq_error.1 h
    exact .inl ⟨reason, rfl⟩

/-- **A file that cannot be written stands in the way of no answer**: with whatever store, a fetch gives
what it would if nothing failed, and asks the source if it would then. -/
theorem fetchRatesWith_eq_fetchRates (store : RateStore) (ttl : Int) (source : RateAnswer)
    (now written : Timestamp) (file : Option String) :
    let fetch := (fetchRatesWith store ttl source now written file).1
    let usual := fetchRates ttl source now written file
    fetch.answer = usual.answer ∧ fetch.asked = usual.asked := by
  dsimp only [fetchRates, fetchRatesWith]
  cases (file.bind FetchedRates.ofText?).filter (·.isFresh ttl now) with
  | some fresh => exact ⟨rfl, rfl⟩
  | none =>
    cases source with
    | ok data => exact ⟨rfl, rfl⟩
    | error e => cases file.bind FetchedRates.ofText? <;> exact ⟨rfl, rfl⟩

/-- An error that is passed over is that of a source or of a file that is not written, and there is an
answer in spite of it. -/
theorem FetchCase.of_passed {fetch : Fetch} {e : RateError}
    (hfetch : FetchCase store ttl o file fetch (.error e)) :
    fetch.asked = true ∧ ∃ data, fetch.answer = .ok data ∧
      (o.source = .error e ∧ ratesIn? file = some data ∨
        o.source = .ok data ∧ (store.keep ⟨o.written, data⟩ file).1 = .error e) := by
  generalize hpassed : Except.error e = passed at hfetch ⊢
  cases hfetch with
  | fresh => contradiction
  | failed => contradiction
  | obtained data _ hsource => exact ⟨rfl, data, rfl, .inr ⟨hsource, rfl⟩⟩
  | stale entry e' hentry _ hsource =>
    obtain rfl := Except.error.inj hpassed
    exact ⟨rfl, entry.data, rfl, .inl ⟨hsource, ratesIn?_of_some hentry⟩⟩

/-- The file changes only when what the source gave is kept in it. -/
theorem FetchCase.file_eq_or {fetch : Fetch} {passed : Except RateError Unit}
    (hfetch : FetchCase store ttl o file fetch passed) :
    fetch.file = file ∨
      ∃ data, o.source = .ok data ∧ fetch.file = (store.keep ⟨o.written, data⟩ file).2 := by
  cases hfetch with
  | fresh => exact .inl rfl
  | obtained data _ hsource => exact .inr ⟨data, hsource, rfl⟩
  | stale => exact .inl rfl
  | failed => exact .inl rfl

/-! ### Whole runs -/

/-- What there is after some fetches: the file holds the latest rates, and they are what has been returned
last, if anything has. -/
structure Settled (initial : Option String) (visits : List Visit) : Prop where
  file : ratesIn? (fileAfter initial visits) = latest? initial visits
  returned : ∀ data, visits.findSome? Visit.returned? = some data → latest? initial visits = some data

theorem settled_nil (initial : Option String) : Settled initial [] :=
  ⟨rfl, nofun⟩

theorem latest?_cons (initial : Option String) (visit : Visit) (earlier : List Visit) :
    latest? initial (visit :: earlier) = visit.obtained?.or (latest? initial earlier) := by
  rw [latest?, List.findSome?_cons]
  cases visit.obtained? <;> rfl

section Step

variable {fetch : Fetch} {passed : Except RateError Unit}

/-- A fetch returns the latest rates and leaves them in the file. -/
theorem Settled.latest?_eq (h : Settled initial earlier) (ho : o.IsKept)
    (hfetch : FetchCase .reliable ttl o (fileAfter initial earlier) fetch passed) :
    Visit.returned? ⟨o, fetch⟩ = latest? initial (⟨o, fetch⟩ :: earlier) ∧
      ratesIn? fetch.file = latest? initial (⟨o, fetch⟩ :: earlier) := by
  rw [latest?_cons, ← h.file]
  cases hfetch with
  | fresh entry hentry _ =>
    have hrates := ratesIn?_of_some hentry
    exact ⟨hrates.symm, rfl⟩
  | obtained data _ hsource =>
    obtain ⟨hdata, hwritten⟩ := ho data hsource
    have hread : (some (FetchedRates.text ⟨o.written, data⟩)).bind FetchedRates.ofText? =
        some ⟨o.written, data⟩ := by
      rw [Option.bind_some]
      exact FetchedRates.ofText?_text hwritten hdata
    have hobtained (file : Option String) : Visit.obtained? ⟨o, .ok data, true, file⟩ = some data :=
      congrArg Except.toOption hsource
    rw [hobtained]
    exact ⟨rfl, ratesIn?_of_some hread⟩
  | stale entry e hentry _ hsource =>
    have hrates := ratesIn?_of_some hentry
    have hobtained : Visit.obtained? ⟨o, .ok entry.data, true, fileAfter initial earlier⟩ = none :=
      congrArg Except.toOption hsource
    rw [hobtained]
    exact ⟨hrates.symm, rfl⟩
  | failed e hnone _ hsource =>
    have hrates : ratesIn? (fileAfter initial earlier) = none := by
      rw [ratesIn?, hnone, Option.map_none]
    have hobtained : Visit.obtained? ⟨o, .error e, true, fileAfter initial earlier⟩ = none :=
      congrArg Except.toOption hsource
    rw [hobtained]
    exact ⟨hrates.symm, rfl⟩

/-- It fails only if the source fails and there are no rates. -/
theorem Settled.of_error (h : Settled initial earlier)
    (hfetch : FetchCase .reliable ttl o (fileAfter initial earlier) fetch passed) {e : RateError}
    (he : fetch.answer = .error e) :
    fetch.asked = true ∧ o.source = .error e ∧ latest? initial earlier = none := by
  cases hfetch with
  | fresh => contradiction
  | obtained => contradiction
  | stale => contradiction
  | failed e' hnone _ hsource =>
    obtain rfl := Except.error.inj he
    refine ⟨rfl, hsource, ?_⟩
    rw [← h.file, ratesIn?, hnone, Option.map_none]

/-- **One fetch more** serves the latest rates, and again there is what there should be. -/
theorem Settled.cons (h : Settled initial earlier) (ho : o.IsKept)
    (hfetch : FetchCase .reliable ttl o (fileAfter initial earlier) fetch passed) :
    Visit.ServesLatest ttl initial earlier ⟨o, fetch⟩ ∧ Settled initial (⟨o, fetch⟩ :: earlier) := by
  obtain ⟨hreturns, hfile⟩ := h.latest?_eq ho hfetch
  have hreturned : ∀ data, (Visit.mk o fetch :: earlier).findSome? Visit.returned? = some data →
      latest? initial (⟨o, fetch⟩ :: earlier) = some data := by
    intro data hdata
    rw [List.findSome?_cons] at hdata
    cases hanswer : fetch.answer with
    | ok rates =>
      have hrates : Visit.returned? ⟨o, fetch⟩ = some rates := congrArg Except.toOption hanswer
      rw [hrates] at hdata
      rw [← hreturns, hrates, ← hdata]
    | error e =>
      -- Nothing has been returned before, since there have been no rates.
      have hrates : Visit.returned? ⟨o, fetch⟩ = none := congrArg Except.toOption hanswer
      rw [hrates] at hdata
      obtain ⟨-, -, hnone⟩ := h.of_error hfetch hanswer
      rw [h.returned data hdata] at hnone
      contradiction
  exact ⟨⟨hreturns, fun _ he ↦ h.of_error hfetch he, fun data hdata ↦ hfile.trans (hreturned data hdata),
    hfetch.asked_iff⟩, hfile, hreturned⟩

end Step

/-- A run is a shorter run and one fetch more. -/
theorem fetchAll_concat (ttl : Int) (initial : Option String) (occasions : List Occasion) (o : Occasion) :
    fetchAll ttl initial (occasions ++ [o]) =
      ⟨o, fetchRates ttl o.source o.now o.written (fileAfter initial (fetchAll ttl initial occasions))⟩ ::
        fetchAll ttl initial occasions := by
  rw [fetchAll, List.foldl_append]
  rfl

/-- **The latest rates are served**, whatever the file says at first, and whenever and how often rates are
fetched, if what the source gives can be kept. -/
theorem latest_rates_served (ttl : Int) (initial : Option String) (occasions : List Occasion)
    (h : ∀ o ∈ occasions, o.IsKept) (visit : Visit) (earlier : List Visit)
    (hvisit : visit :: earlier <:+ fetchAll ttl initial occasions) :
    visit.ServesLatest ttl initial earlier := by
  have hrun : Settled initial (fetchAll ttl initial occasions) ∧
      ∀ visit earlier, visit :: earlier <:+ fetchAll ttl initial occasions →
        visit.ServesLatest ttl initial earlier := by
    clear hvisit
    induction occasions using List.reverseRecOn with
    | nil => exact ⟨settled_nil initial, fun visit earlier hvisit ↦ absurd (List.suffix_nil.1 hvisit) nofun⟩
    | append_singleton occasions o ih =>
      obtain ⟨hoccasions, ho⟩ := List.forall_mem_append.1 h
      obtain ⟨hsettled, hserves⟩ := ih hoccasions
      obtain ⟨_, hfetch⟩ := fetchCase_fetchRates ttl o (fileAfter initial (fetchAll ttl initial occasions))
      obtain ⟨hserves', hsettled'⟩ := hsettled.cons (ho o (List.mem_singleton_self o)) hfetch
      rw [fetchAll_concat]
      refine ⟨hsettled', fun visit earlier hvisit ↦ ?_⟩
      rcases List.suffix_cons_iff.1 hvisit with heq | hsuffix
      · obtain ⟨rfl, rfl⟩ := List.cons.inj heq
        exact hserves'
      · exact hserves visit earlier hsuffix
  exact hrun.2 visit earlier hvisit

/-- Rates that are fetched once are served again thirty years later, when the source fails. -/
theorem latest_rates_served_euro :
    let rates : ExchangeRates Float := ⟨"EUR", none, ⟨[("USD", 1.1)]⟩⟩
    let first : Occasion := ⟨.ok rates, ⟨0⟩, ⟨0⟩⟩
    let second : Occasion := ⟨.error .missingBase, ⟨10 ^ 18⟩, ⟨10 ^ 18⟩⟩
    (∀ o ∈ [first, second], o.IsKept) ∧
      ∃ visit earlier, visit :: earlier <:+ fetchAll (timeToLive 1) none [first, second] ∧
        visit.ServesLatest (timeToLive 1) none earlier ∧ visit.occasion = second ∧
        visit.returned? = some rates := by
  intro rates first second
  have hrates : rates.IsReadBack :=
    ⟨List.nodup_singleton _, List.forall_mem_singleton.2 (by decide +kernel)⟩
  have hkept : ∀ o ∈ [first, second], o.IsKept := by
    refine List.forall_mem_cons.2 ⟨?_, List.forall_mem_singleton.2 fun data hdata ↦ nomatch hdata⟩
    intro data hdata
    obtain rfl := Except.ok.inj hdata
    exact ⟨hrates, by decide⟩
  have hserves := latest_rates_served (timeToLive 1) none [first, second] hkept _ _ (List.suffix_refl _)
  have hlatest : latest? none (fetchAll (timeToLive 1) none [first, second]) = some rates := by
    have hsecond (fetch : Fetch) : Visit.obtained? ⟨second, fetch⟩ = none := ite_self none
    show latest? none (⟨second, _⟩ :: [⟨first, _⟩]) = some rates
    rw [latest?_cons, hsecond, Option.none_or]
    rfl
  exact ⟨hkept, _, _, List.suffix_refl _, hserves, rfl, hserves.returns.trans hlatest⟩

end Reckoner
