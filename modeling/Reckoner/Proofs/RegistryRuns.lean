import Mathlib.Data.List.Basic
import Reckoner.Currency.RateCache

/-!
# The registry of currencies never goes back

Loaders and readers share one registry and call it in any order. Each call is atomic, so whatever
they do together is one sequence of calls, and a statement about every sequence is one about every
way in which they interleave.

`perform_cases` says once what a call can do: nothing, begin loading, commit a table, or record a
failure. Everything else about runs follows from it together with four properties of a registry that
no call takes away: that loading has begun, that it has come to the same end, that a table is the
committed one, and that a reason is known exactly after a failure (`forall_steps`).

Loaders are asked about last. Each of them begins, asks its provider, and reports the answer, with
anything else in between; since only the first one begins, only its provider is asked.
-/

namespace Reckoner

variable {K : Type} [Scalar K]

namespace Registry

/-! ### Calls -/

/-- An atomic call to a registry. -/
inductive Call (K : Type) where
  | begin
  | register (data : ExchangeRates K)
  | fail (reason : String)
  | lookup (symbol : String)
  | status
  | failure

/-- What a call answers. -/
inductive Answer (K : Type) where
  | begun (first : Bool)
  | count (n : Nat)
  | recorded
  | currency (found : Option (NamedUnit K))
  | status (stage : LoadingStatus)
  | failure (reason : Option String)

/-- Performs a call: its answer, and the registry after it. -/
def perform (registry : Registry K) : Call K → Answer K × Registry K
  | .begin => (.begun registry.begin.1, registry.begin.2)
  | .register data => (.count (registry.register data).1, (registry.register data).2)
  | .fail reason => (.recorded, registry.fail reason)
  | .lookup symbol => (.currency (registry.lookup symbol), registry)
  | .status => (.status registry.status, registry)
  | .failure => (.failure registry.failure?, registry)

/-- **What a call can do.** It leaves the registry alone, and then it did not begin loading, and if
it should have registered rates, loading had ended. Or it begins loading, commits the table of some
rates, or records a failure. -/
theorem perform_cases (registry : Registry K) (call : Call K) :
    (∃ answer, registry.perform call = (answer, registry) ∧ answer ≠ .begun true ∧
        ∀ data, call = .register data → registry.isFinal ∧ answer = .count 0) ∨
      (call = .begin ∧ registry.status = .uninitialized ∧
        registry.perform call = (.begun true, { registry with status := .loading })) ∨
      (∃ data, call = .register data ∧ ¬registry.isFinal ∧
        registry.perform call = (.count (defined data).size, ⟨.ready, defined data, none⟩)) ∨
      ∃ reason, call = .fail reason ∧ registry.status ≠ .ready ∧
        registry.perform call =
          (.recorded, { registry with status := .failed, failure? := some reason }) := by
  cases call with
  | begin =>
    by_cases h : registry.status = .uninitialized
    · exact .inr (.inl ⟨rfl, h, by simp [perform, begin, h]⟩)
    · exact .inl ⟨.begun false, by simp [perform, begin, h], by simp, by simp⟩
  | register data =>
    by_cases h : registry.isFinal
    · exact .inl ⟨.count 0, by simp [perform, register, h], by simp, by simp [h]⟩
    · exact .inr (.inr (.inl ⟨data, rfl, h, by simp [perform, register, h]⟩))
  | fail reason =>
    by_cases h : registry.status = .ready
    · exact .inl ⟨.recorded, by simp [perform, fail, h], by simp, by simp⟩
    · exact .inr (.inr (.inr ⟨reason, rfl, h, by simp [perform, fail, h]⟩))
  | lookup symbol => exact .inl ⟨_, rfl, by simp, by simp⟩
  | status => exact .inl ⟨_, rfl, by simp, by simp⟩
  | failure => exact .inl ⟨_, rfl, by simp, by simp⟩

/-! ### Runs -/

/-- A call in a run, with the registry that it finds. -/
structure Step (K : Type) where
  before : Registry K
  call : Call K

namespace Step

/-- What the call answers. -/
def answer (s : Step K) : Answer K := (s.before.perform s.call).1

/-- The registry after the call. -/
def after (s : Step K) : Registry K := (s.before.perform s.call).2

/-- The call is told that it is the one to load. -/
def Begins (s : Step K) : Prop := s.answer = .begun true

/-- The call makes the registry ready. -/
def Commits (s : Step K) : Prop := s.before.status ≠ .ready ∧ s.after.status = .ready

end Step

/-- The steps of a run of calls. -/
def steps (registry : Registry K) : List (Call K) → List (Step K)
  | [] => []
  | call :: calls => ⟨registry, call⟩ :: steps (registry.perform call).2 calls

/-- **What no call takes away holds all along**: before and after every step of a run. -/
theorem forall_steps {P : Registry K → Prop} (keeps : ∀ r call, P r → P (r.perform call).2)
    {registry : Registry K} (h : P registry) (calls : List (Call K)) :
    ∀ s ∈ steps registry calls, P s.before ∧ P s.after := by
  induction calls generalizing registry with
  | nil => simp [steps]
  | cons call calls ih =>
    intro s hs
    rcases List.mem_cons.1 hs with rfl | hs
    · exact ⟨h, keeps _ _ h⟩
    · exact ih (keeps _ _ h) s hs

/-- A relation between an earlier and a later step of a run holds if what the earlier step leaves
behind is kept and rules out everything else for the later one. -/
theorem pairwise_steps {R : Step K → Step K → Prop} (Q : Step K → Registry K → Prop)
    (leaves : ∀ s, Q s s.after) (keeps : ∀ s r call, Q s r → Q s (r.perform call).2)
    (holds : ∀ s t, Q s t.before → Q s t.after → R s t) (registry : Registry K)
    (calls : List (Call K)) : (steps registry calls).Pairwise R := by
  induction calls generalizing registry with
  | nil => exact .nil
  | cons call calls ih =>
    refine .cons (fun t ht ↦ ?_) (ih _)
    obtain ⟨hbefore, hafter⟩ :=
      forall_steps (keeps ⟨registry, call⟩) (leaves ⟨registry, call⟩) calls t ht
    exact holds _ _ hbefore hafter

/-! ### What no call takes away -/

/-- Once loading has begun, it has begun. -/
theorem status_perform_ne_uninitialized (registry : Registry K) (call : Call K)
    (h : registry.status ≠ .uninitialized) :
    (registry.perform call).2.status ≠ .uninitialized := by
  rcases perform_cases registry call with
    ⟨answer, heq, -, -⟩ | ⟨-, -, heq⟩ | ⟨data, -, -, heq⟩ | ⟨reason, -, -, heq⟩ <;> rw [heq]
  · exact h
  · simp
  · simp
  · simp

/-- A registry that is ready stays as it is. -/
theorem perform_of_ready {registry : Registry K} (h : registry.status = .ready) (call : Call K) :
    (registry.perform call).2 = registry := by
  rcases perform_cases registry call with
    ⟨answer, heq, -, -⟩ | ⟨-, hstatus, -⟩ | ⟨data, -, hfinal, -⟩ | ⟨reason, -, hready, -⟩
  · rw [heq]
  · simp [h] at hstatus
  · simp [isFinal, h, LoadingStatus.isFinal] at hfinal
  · exact absurd h hready

/-- When loading has ended, it has ended that way. -/
theorem status_perform_of_isFinal {registry : Registry K} (h : registry.isFinal) (call : Call K) :
    (registry.perform call).2.status = registry.status := by
  rcases perform_cases registry call with
    ⟨answer, heq, -, -⟩ | ⟨-, hstatus, -⟩ | ⟨data, -, hfinal, -⟩ | ⟨reason, -, hready, heq⟩
  · rw [heq]
  · simp [isFinal, hstatus, LoadingStatus.isFinal] at h
  · exact absurd h hfinal
  · rw [heq]
    revert h hready
    cases hstatus : registry.status <;> simp [isFinal, hstatus, LoadingStatus.isFinal]

/-- A reason is known exactly after a failure. -/
def Explained (registry : Registry K) : Prop :=
  registry.failure?.isSome ↔ registry.status = .failed

theorem Explained.perform {registry : Registry K} (h : registry.Explained) (call : Call K) :
    (registry.perform call).2.Explained := by
  rcases perform_cases registry call with
    ⟨answer, heq, -, -⟩ | ⟨-, hstatus, heq⟩ | ⟨data, -, -, heq⟩ | ⟨reason, -, -, heq⟩ <;> rw [heq]
  · exact h
  · rw [Explained, hstatus] at h
    simpa [Explained] using h
  · simp [Explained]
  · simp [Explained]

/-! ### One way -/

/-- The moves of a registry from stage to stage. -/
inductive Moves : LoadingStatus → LoadingStatus → Prop where
  | begin : Moves .uninitialized .loading
  | readyAtOnce : Moves .uninitialized .ready
  | failedAtOnce : Moves .uninitialized .failed
  | ready : Moves .loading .ready
  | failed : Moves .loading .failed

theorem Step.moves (s : Step K) :
    s.after.status = s.before.status ∨ Moves s.before.status s.after.status := by
  rcases perform_cases s.before s.call with
    ⟨answer, heq, -, -⟩ | ⟨-, hstatus, heq⟩ | ⟨data, -, hfinal, heq⟩ | ⟨reason, -, hready, heq⟩ <;>
    rw [Step.after, heq]
  · exact .inl rfl
  · rw [hstatus]
    exact .inr .begin
  · right
    revert hfinal
    cases hstatus : s.before.status <;> simp [isFinal, hstatus, LoadingStatus.isFinal]
    · exact .readyAtOnce
    · exact .ready
  · revert hready
    cases hstatus : s.before.status <;> simp
    · exact .failedAtOnce
    · exact .failed

/-- Only the first call to begin is told to load. -/
theorem Step.status_of_begins {s : Step K} (h : s.Begins) :
    s.before.status = .uninitialized ∧ s.after.status = .loading := by
  rw [Step.Begins, Step.answer] at h
  rcases perform_cases s.before s.call with
    ⟨answer, heq, hne, -⟩ | ⟨-, hstatus, heq⟩ | ⟨data, -, -, heq⟩ | ⟨reason, -, -, heq⟩ <;>
    rw [heq] at h
  · exact absurd h hne
  · exact ⟨hstatus, by rw [Step.after, heq]⟩
  · simp at h
  · simp at h

/-- A commit is a registration, which counts the currencies of its table and leaves no other. -/
theorem Step.exists_of_commits {s : Step K} (h : s.Commits) :
    ∃ data, s.call = .register data ∧ s.answer = .count (defined data).size ∧
      s.after = ⟨.ready, defined data, none⟩ := by
  obtain ⟨hbefore, hafter⟩ := h
  rw [Step.after] at hafter
  rcases perform_cases s.before s.call with
    ⟨answer, heq, -, -⟩ | ⟨-, -, heq⟩ | ⟨data, hcall, -, heq⟩ | ⟨reason, -, -, heq⟩
  · rw [heq] at hafter
    exact absurd hafter hbefore
  · simp [heq] at hafter
  · exact ⟨data, hcall, by rw [Step.answer, heq], by rw [Step.after, heq]⟩
  · simp [heq] at hafter

/-- A registration that does not commit returns zero and changes nothing. -/
theorem Step.register_of_not_commits {s : Step K} {data : ExchangeRates K}
    (hcall : s.call = .register data) (h : ¬s.Commits) :
    s.answer = .count 0 ∧ s.after = s.before := by
  rcases perform_cases s.before s.call with
    ⟨answer, heq, -, hzero⟩ | ⟨hother, -⟩ | ⟨data', -, hfinal, heq⟩ | ⟨reason, hother, -⟩
  · exact ⟨by rw [Step.answer, heq, (hzero data hcall).2], by rw [Step.after, heq]⟩
  · simp [hcall] at hother
  · refine absurd ⟨fun hready ↦ hfinal ?_, by rw [Step.after, heq]⟩ h
    rw [isFinal, hready]
    rfl
  · simp [hcall] at hother

/-- **The laws of a run.** -/
structure OneWay (run : List (Step K)) : Prop where
  /-- The stage stays, or moves as it may. -/
  moves : ∀ s ∈ run, s.after.status = s.before.status ∨ Moves s.before.status s.after.status
  /-- When loading has ended, no later call changes how. -/
  final : run.Pairwise fun s t ↦ s.after.isFinal → t.after.status = s.after.status
  /-- No two calls are told to load. -/
  begins_once : run.Pairwise fun s t ↦ ¬(s.Begins ∧ t.Begins)
  /-- No two calls commit. -/
  commits_once : run.Pairwise fun s t ↦ ¬(s.Commits ∧ t.Commits)
  /-- A call that commits registers rates, and its answer counts the currencies of their table. -/
  commits : ∀ s ∈ run, s.Commits → ∃ data, s.call = .register data ∧
    s.answer = .count (defined data).size ∧ s.after.units = defined data
  /-- Any other registration returns zero and changes nothing. -/
  register_else : ∀ s ∈ run, ∀ data, s.call = .register data → ¬s.Commits →
    s.answer = .count 0 ∧ s.after = s.before
  /-- A look-up before the commit, or in a run without one, finds nothing. -/
  lookup_before : ∀ earlier s later symbol, run = earlier ++ s :: later → s.call = .lookup symbol →
    (∀ c ∈ earlier, ¬c.Commits) → s.answer = .currency none
  /-- A look-up after the commit answers from the table of the rates that were committed. -/
  lookup_after : run.Pairwise fun c s ↦ c.Commits → ∀ data symbol, c.call = .register data →
    s.call = .lookup symbol → s.answer = .currency ((defined data).get? symbol)
  /-- A reason for failure is known exactly when loading has failed. -/
  failure : ∀ s ∈ run, (s.after.failure?.isSome ↔ s.after.status = .failed) ∧
    (s.call = .failure → ∃ reason : Option String, s.answer = .failure reason ∧
      (reason.isSome ↔ s.before.status = .failed))

/-- Without a commit, a registry that is not ready stays so. -/
theorem status_ne_ready_of_not_commits {registry : Registry K} (h : registry.status ≠ .ready)
    {calls : List (Call K)} {earlier later : List (Step K)} {s : Step K}
    (hrun : steps registry calls = earlier ++ s :: later) (hnone : ∀ c ∈ earlier, ¬c.Commits) :
    s.before.status ≠ .ready := by
  -- The induction is on the steps before `s`: the first of them leaves a registry that is not ready
  -- either, or it would have committed.
  induction earlier generalizing registry calls with
  | nil =>
    cases calls with
    | nil => simp [steps] at hrun
    | cons call calls =>
      obtain ⟨rfl, -⟩ := List.cons.inj hrun
      exact h
  | cons c earlier ih =>
    cases calls with
    | nil => simp [steps] at hrun
    | cons call calls =>
      rw [steps, List.cons_append] at hrun
      obtain ⟨rfl, htail⟩ := List.cons.inj hrun
      refine ih (fun hready ↦ ?_) htail fun c hc ↦ hnone c (List.mem_cons_of_mem _ hc)
      exact hnone _ List.mem_cons_self ⟨h, hready⟩

/-- Every run that begins before loading obeys the laws. -/
theorem oneWay_steps (calls : List (Call K)) :
    OneWay (steps (uninitialized : Registry K) calls) where
  moves s _ := s.moves
  final := by
    refine pairwise_steps (fun s r ↦ s.after.isFinal → r.status = s.after.status ∧ r.isFinal)
      (fun s h ↦ ⟨rfl, h⟩) (fun s r call h hfinal ↦ ?_) (fun s t _ h hfinal ↦ (h hfinal).1) _ calls
    obtain ⟨hstatus, hr⟩ := h hfinal
    have hkept := status_perform_of_isFinal hr call
    refine ⟨hkept.trans hstatus, ?_⟩
    rw [isFinal, hkept]
    exact hr
  begins_once := by
    refine pairwise_steps (fun s r ↦ s.Begins → r.status ≠ .uninitialized) (fun s h ↦ ?_)
      (fun s r call h hs ↦ status_perform_ne_uninitialized r call (h hs))
      (fun s t h _ ⟨hs, ht⟩ ↦ h hs (Step.status_of_begins ht).1) _ calls
    rw [(Step.status_of_begins h).2]
    decide
  commits_once := by
    refine pairwise_steps (fun s r ↦ s.Commits → r.status = .ready) (fun s h ↦ h.2)
      (fun s r call h hs ↦ ?_) (fun s t h _ ⟨hs, ht⟩ ↦ ht.1 (h hs)) _ calls
    rw [perform_of_ready (h hs)]
    exact h hs
  commits s _ h := by
    obtain ⟨data, hcall, hanswer, hafter⟩ := Step.exists_of_commits h
    exact ⟨data, hcall, hanswer, by rw [hafter]⟩
  register_else s _ data hcall h := Step.register_of_not_commits hcall h
  lookup_before earlier s later symbol hrun hcall hnone := by
    have hstart : (uninitialized : Registry K).status ≠ .ready := by simp [uninitialized]
    have hstatus := status_ne_ready_of_not_commits hstart hrun hnone
    rw [Step.answer, hcall, perform, lookup, if_neg hstatus]
  lookup_after := by
    refine pairwise_steps (fun c r ↦ c.Commits → r = c.after) (fun c _ ↦ rfl)
      (fun c r call h hc ↦ ?_)
      (fun c s h _ hc data symbol hdata hlookup ↦ ?_) _ calls
    · rw [h hc]
      exact perform_of_ready hc.2 call
    · obtain ⟨data', hdata', -, hafter⟩ := Step.exists_of_commits hc
      obtain rfl : data' = data := by
        rw [hdata] at hdata'
        exact (Call.register.inj hdata').symm
      rw [Step.answer, hlookup, perform, h hc, hafter, lookup, if_pos rfl]
  failure s hs := by
    have hstart : (uninitialized : Registry K).Explained := by simp [Explained, uninitialized]
    obtain ⟨hbefore, hafter⟩ :=
      forall_steps (P := Explained) (fun r call h ↦ h.perform call) hstart calls s hs
    refine ⟨hafter, fun hcall ↦ ⟨s.before.failure?, ?_, hbefore⟩⟩
    rw [Step.answer, hcall]
    rfl

end Registry

/-! ### Loaders -/

/-- The loaders of one registry at work. -/
structure Loaders (P K : Type) where
  registry : Registry K
  /-- The providers of the loaders that have been told to load and have not asked yet. -/
  waiting : List P := []
  /-- The answers that providers have given and loaders have not reported yet. -/
  answers : List (Except RateError (ExchangeRates K)) := []
  /-- The providers that have been asked, the last one first. -/
  asked : List P := []

namespace Loaders

variable {P : Type}

/-- What can happen next. Loaders are told apart by their places in the lists. -/
inductive Event (P K : Type) where
  /-- A loader is started with a provider, and waits if it is told to load. -/
  | start (provider : P)
  /-- A waiting loader asks its provider, which may answer anything. -/
  | ask (index : Nat) (answer : Except RateError (ExchangeRates K))
  /-- A loader reports the answer of its provider. -/
  | report (index : Nat)
  /-- A waiting loader cannot go on, and reports why. -/
  | abandon (index : Nat) (reason : String)
  /-- Somebody performs a call. -/
  | call (c : Registry.Call K)

/-- The loaders after an event. -/
def after (s : Loaders P K) : Event P K → Loaders P K
  | .start provider =>
    match s.registry.begin with
    | (true, registry) => { s with registry, waiting := provider :: s.waiting }
    | (false, registry) => { s with registry }
  | .ask index answer =>
    match s.waiting[index]? with
    | some provider =>
      { s with
        waiting := s.waiting.eraseIdx index
        answers := answer :: s.answers
        asked := provider :: s.asked }
    | none => s
  | .report index =>
    match s.answers[index]? with
    | some answer =>
      { s with registry := s.registry.finish answer, answers := s.answers.eraseIdx index }
    | none => s
  | .abandon index reason =>
    match s.waiting[index]? with
    | some _ => { s with registry := s.registry.fail reason, waiting := s.waiting.eraseIdx index }
    | none => s
  | .call c => { s with registry := (s.registry.perform c).2 }

/-- The loaders after some events. -/
def run (s : Loaders P K) (events : List (Event P K)) : Loaders P K := events.foldl after s

/-- Loading a registry at once is one way in which a loader can go about it. -/
theorem run_start_ask_report (registry : Registry K) (asked : List P) (provider : P)
    (source : Unit → Except RateError (ExchangeRates K)) :
    run ⟨registry, [], [], asked⟩ [.start provider, .ask 0 (source ()), .report 0] =
      ⟨(registry.load source).2, [], [],
        if (registry.load source).1 then provider :: asked else asked⟩ := by
  by_cases h : registry.status = .uninitialized
  · simp [run, after, Registry.load, Registry.begin, h]
  · simp [run, after, Registry.load, Registry.begin, h]

/-- At most one loader has been told to load, and none before loading has begun. -/
structure Single (s : Loaders P K) : Prop where
  length_le : s.waiting.length + s.asked.length ≤ 1
  of_uninitialized : s.registry.status = .uninitialized → s.waiting.length + s.asked.length = 0

/-- Reporting an answer is a call. -/
theorem exists_finish_eq (registry : Registry K) (answer : Except RateError (ExchangeRates K)) :
    ∃ call, registry.finish answer = (registry.perform call).2 := by
  cases answer with
  | ok data => exact ⟨.register data, rfl⟩
  | error e => exact ⟨.fail e.message, rfl⟩

/-- A call tells nobody to load. -/
theorem Single.perform {s t : Loaders P K} (h : s.Single) (call : Registry.Call K)
    (hregistry : t.registry = (s.registry.perform call).2)
    (hlength : t.waiting.length + t.asked.length ≤ s.waiting.length + s.asked.length) :
    t.Single := by
  refine ⟨Nat.le_trans hlength h.length_le, fun hstatus ↦ ?_⟩
  have hbefore : s.registry.status = .uninitialized := by
    by_contra hne
    rw [hregistry] at hstatus
    exact Registry.status_perform_ne_uninitialized s.registry call hne hstatus
  have := h.of_uninitialized hbefore
  omega

theorem Single.after {s : Loaders P K} (h : s.Single) (event : Event P K) :
    (s.after event).Single := by
  cases event with
  | start provider =>
    by_cases hstatus : s.registry.status = .uninitialized
    · have hnone := h.of_uninitialized hstatus
      simp only [Loaders.after, Registry.begin, if_pos hstatus]
      refine ⟨?_, by simp⟩
      simp only [List.length_cons]
      omega
    · simp only [Loaders.after, Registry.begin, if_neg hstatus]
      exact h
  | ask index answer =>
    unfold Loaders.after
    dsimp only
    split
    · rename_i provider hprovider
      obtain ⟨hindex, -⟩ := List.getElem?_eq_some_iff.1 hprovider
      have herase := List.length_eraseIdx_add_one hindex
      refine ⟨?_, fun hstatus ↦ ?_⟩
      · have := h.length_le
        simp only [List.length_cons]
        omega
      · have := h.of_uninitialized hstatus
        omega
    · exact h
  | report index =>
    unfold Loaders.after
    dsimp only
    split
    · rename_i answer _
      obtain ⟨call, hcall⟩ := exists_finish_eq s.registry answer
      exact h.perform call hcall (Nat.le_refl _)
    · exact h
  | abandon index reason =>
    unfold Loaders.after
    dsimp only
    split
    · exact h.perform (.fail reason) rfl (Nat.add_le_add_right (List.length_eraseIdx_le ..) _)
    · exact h
  | call c => exact h.perform c rfl (Nat.le_refl _)

theorem Single.run {s : Loaders P K} (h : s.Single) (events : List (Event P K)) :
    (s.run events).Single := by
  induction events generalizing s with
  | nil => exact h
  | cons event events ih => exact ih (h.after event)

/-- **The registry of currencies goes one way.** Every run of calls obeys the laws, and whatever
loaders do, with whatever providers and in whatever order, at most one provider is ever asked. -/
theorem oneWay_and_asked_once (calls : List (Registry.Call K)) (events : List (Event P K)) :
    Registry.OneWay (Registry.steps (.uninitialized : Registry K) calls) ∧
      (run ⟨.uninitialized, [], [], []⟩ events : Loaders P K).asked.length ≤ 1 := by
  have hstart : (⟨.uninitialized, [], [], []⟩ : Loaders P K).Single := ⟨by simp, by simp⟩
  have hsingle := (hstart.run events).length_le
  exact ⟨Registry.oneWay_steps calls, by omega⟩

end Loaders

end Reckoner
