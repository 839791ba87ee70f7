import Mathlib.Algebra.BigOperators.Group.List.Basic
import Mathlib.Tactic.Ring
import Reckoner.Outcome
import Reckoner.Units.Quantity

/-!
# Products of units keep their dimension

A product of units carries its dimension along with its terms. The two agree as long as a name stands
for one dimension: terms are merged by their names alone, and what is merged into a term is counted
with the dimension of that term (`addTerm_cases`). So the invariant of products has two parts. Each
product is well formed on its own, and all of them follow one assignment of dimensions to names,
which is what makes two of them fit together.
-/

namespace Reckoner

/-! ### Exponents -/

namespace Dimension

theorem exponent_ofFn (f : Fin 10 → Exponent) (i : Fin 10) :
    (mk (Vector.ofFn f)).exponent i = (f i).val := by
  rw [exponent, Fin.getElem_fin, Vector.getElem_ofFn]

theorem exponent_none (i : Fin 10) : none.exponent i = 0 := by
  revert i
  decide

theorem exponent_ofInts? {f : Fin 10 → Int} {d : Dimension} (h : ofInts? f = some d) (i : Fin 10) :
    d.exponent i = f i := by
  rw [ofInts?] at h
  split at h
  · obtain rfl := Option.some.inj h
    exact exponent_ofFn _ i
  · contradiction

theorem exponent_mul? {d e f : Dimension} (h : d.mul? e = some f) (i : Fin 10) :
    f.exponent i = d.exponent i + e.exponent i :=
  exponent_ofInts? h i

theorem exponent_pow? {d e : Dimension} {n : Int} (h : d.pow? n = some e) (i : Fin 10) :
    e.exponent i = d.exponent i * n :=
  exponent_ofInts? h i

theorem isNone_iff {d : Dimension} : d.isNone = true ↔ ∀ i, d.exponent i = 0 := by
  rw [isNone, Vector.all_eq_true]
  constructor
  · intro h i
    exact eq_of_beq (h i i.isLt)
  · intro h i hi
    exact beq_of_eq (h ⟨i, hi⟩)

/-- A power of a dimension is none only if the dimension is, or the exponent zero. -/
theorem isNone_pow? {d e : Dimension} {n : Int} (h : d.pow? n = some e) (hd : d.isNone = false)
    (hn : n ≠ 0) : e.isNone = false := by
  rw [Bool.eq_false_iff] at hd ⊢
  intro he
  refine hd (isNone_iff.2 fun i ↦ ?_)
  have hi := isNone_iff.1 he i
  rw [exponent_pow? h] at hi
  exact (Int.mul_eq_zero.1 hi).resolve_right hn

end Dimension

namespace Units

variable {K : Type}

/-- The names in a row of terms. -/
def names (ts : List (UnitTerm K)) : List String := ts.map (·.unit.name)

/-- The exponent of a base dimension that a row of terms comes to. -/
def exponentSum (ts : List (UnitTerm K)) (i : Fin 10) : Int :=
  (ts.map fun t ↦ t.power * t.unit.dimension.exponent i).sum

/-- **A product of units is well formed** if its dimension is the sum over its terms of power times
dimension, no name occurs twice, and no power is zero. -/
structure WellFormed (us : Units K) : Prop where
  exponent_eq : ∀ i, us.dimension.exponent i = exponentSum us.terms i
  nodup : (names us.terms).Nodup
  power_ne_zero : ∀ t ∈ us.terms, t.power ≠ 0

/-- Every unit in a row of terms has the dimension that its name stands for. -/
def Follow (dim : String → Dimension) (ts : List (UnitTerm K)) : Prop :=
  ∀ t ∈ ts, t.unit.dimension = dim t.unit.name

/-- A product that is well formed and follows an assignment of dimensions to names. -/
structure Sound (dim : String → Dimension) (us : Units K) : Prop where
  wellFormed : us.WellFormed
  follow : Follow dim us.terms

variable {dim : String → Dimension} {t : UnitTerm K} {ts ts' vs : List (UnitTerm K)}

@[simp]
theorem exponentSum_append (ts vs : List (UnitTerm K)) (i : Fin 10) :
    exponentSum (ts ++ vs) i = exponentSum ts i + exponentSum vs i := by
  rw [exponentSum, List.map_append, List.sum_append, exponentSum, exponentSum]

@[simp]
theorem exponentSum_cons (t : UnitTerm K) (ts : List (UnitTerm K)) (i : Fin 10) :
    exponentSum (t :: ts) i = t.power * t.unit.dimension.exponent i + exponentSum ts i := by
  rw [exponentSum, List.map_cons, List.sum_cons, exponentSum]

/-! ### Products -/

/-- **What adding a term can do**: change the power of the term with this name, or append a term with
a new name. -/
theorem addTerm_cases (h : addTerm t ts = .ok ts') :
    (∃ above u below, ts = above ++ u :: below ∧ u.unit.name = t.unit.name ∧
        ts' = above ++ { u with power := u.power + t.power } :: below) ∨
      (t.unit.name ∉ names ts ∧ ts' = ts ++ [t]) := by
  induction ts generalizing ts' with
  | nil =>
    rw [addTerm, Except.ok.injEq] at h
    exact .inr ⟨List.not_mem_nil, h.symm⟩
  | cons u rest ih =>
    rw [addTerm] at h
    by_cases hname : u.unit.name = t.unit.name
    · rw [if_pos hname] at h
      split at h
      · exact .inl ⟨[], u, rest, rfl, hname, (Except.ok.inj h).symm⟩
      · contradiction
    · rw [if_neg hname] at h
      obtain ⟨rest', hrest, rfl⟩ := Outcome.map_eq_ok.1 h
      rcases ih hrest with ⟨above, v, below, rfl, hv, rfl⟩ | ⟨hnew, rfl⟩
      · exact .inl ⟨u :: above, v, below, rfl, hv, rfl⟩
      · refine .inr ⟨fun hmem ↦ ?_, rfl⟩
        rcases List.mem_cons.1 hmem with heq | hmem
        · exact hname heq.symm
        · exact hnew hmem

/-- Adding a term keeps names apart, and adds its exponents if names stand for dimensions. -/
theorem addTerm_spec (hts : Follow dim ts) (hnodup : (names ts).Nodup)
    (ht : t.unit.dimension = dim t.unit.name) (h : addTerm t ts = .ok ts') :
    Follow dim ts' ∧ (names ts').Nodup ∧
      ∀ i, exponentSum ts' i = exponentSum ts i + t.power * t.unit.dimension.exponent i := by
  rcases addTerm_cases h with ⟨above, u, below, rfl, hname, rfl⟩ | ⟨hnew, rfl⟩
  · have hu : u.unit.dimension = t.unit.dimension := by
      rw [ht, ← hname]
      exact hts u (List.mem_append_right above List.mem_cons_self)
    refine ⟨fun v hv ↦ ?_, ?_, fun i ↦ ?_⟩
    · rcases List.mem_append.1 hv with hv | hv
      · exact hts v (List.mem_append_left _ hv)
      rcases List.mem_cons.1 hv with rfl | hv
      · rw [hu, ht, hname]
      · exact hts v (List.mem_append_right above (List.mem_cons_of_mem u hv))
    · simpa [names] using hnodup
    · rw [exponentSum_append, exponentSum_append, exponentSum_cons, exponentSum_cons, hu]
      ring
  · refine ⟨fun v hv ↦ ?_, ?_, fun i ↦ ?_⟩
    · rcases List.mem_append.1 hv with hv | hv
      · exact hts v hv
      · obtain rfl := List.mem_singleton.1 hv
        exact ht
    · rw [names, List.map_append]
      refine List.nodup_append.2 ⟨hnodup, List.nodup_cons.2 ⟨nofun, List.nodup_nil⟩, ?_⟩
      rintro name hname _ ht rfl
      obtain rfl := List.mem_singleton.1 ht
      exact hnew hname
    · rw [exponentSum_append, exponentSum_cons]
      simp [exponentSum]

theorem foldlM_addTerm_spec (hts : Follow dim ts) (hnodup : (names ts).Nodup)
    (hvs : Follow dim vs) (h : vs.foldlM (fun ts t ↦ addTerm t ts) ts = .ok ts') :
    Follow dim ts' ∧ (names ts').Nodup ∧
      ∀ i, exponentSum ts' i = exponentSum ts i + exponentSum vs i := by
  induction vs generalizing ts with
  | nil =>
    obtain rfl := Except.ok.inj h
    exact ⟨hts, hnodup, fun i ↦ (add_zero _).symm⟩
  | cons v vs ih =>
    rw [List.foldlM_cons] at h
    obtain ⟨us, hadd, h⟩ := Outcome.bind_eq_ok.1 h
    obtain ⟨hfollow, hnames, hsum⟩ := addTerm_spec hts hnodup (hvs v List.mem_cons_self) hadd
    obtain ⟨hfollow', hnames', hsum'⟩ :=
      ih hfollow hnames (fun t ht ↦ hvs t (List.mem_cons_of_mem v ht)) h
    refine ⟨hfollow', hnames', fun i ↦ ?_⟩
    rw [hsum', hsum, exponentSum_cons]
    ring

/-- Terms whose power is zero count for nothing. -/
theorem exponentSum_filter (ts : List (UnitTerm K)) (i : Fin 10) :
    exponentSum (ts.filter (·.power ≠ 0)) i = exponentSum ts i := by
  induction ts with
  | nil => rfl
  | cons t ts ih =>
    by_cases hzero : t.power = 0
    · rw [List.filter_cons_of_neg (by simpa using hzero), ih, exponentSum_cons, hzero]
      ring
    · rw [List.filter_cons_of_pos (by simpa using hzero), exponentSum_cons, exponentSum_cons, ih]

/-- A row without its zero powers is a product, if its exponents are those of the dimension. -/
theorem sound_filter {d : Dimension} (hts : Follow dim ts) (hnodup : (names ts).Nodup)
    (hsum : ∀ i, d.exponent i = exponentSum ts i) :
    Sound dim ⟨ts.filter (·.power ≠ 0), d⟩ := by
  refine ⟨⟨fun i ↦ ?_, ?_, fun t ht ↦ ?_⟩, fun t ht ↦ hts t (List.mem_of_mem_filter ht)⟩
  · rw [exponentSum_filter, hsum]
  · exact hnodup.sublist ((List.filter_sublist (l := ts)).map _)
  · simpa using (List.mem_filter.1 ht).2

theorem sound_one : Sound dim (one : Units K) :=
  ⟨⟨Dimension.exponent_none, List.nodup_nil, nofun⟩, nofun⟩

theorem sound_single {u : NamedUnit K} (h : u.dimension = dim u.name) : Sound dim (single u) := by
  have hnodup : (names (single u).terms).Nodup := List.nodup_cons.2 ⟨nofun, List.nodup_nil⟩
  refine ⟨⟨fun i ↦ ?_, hnodup, fun t ht ↦ ?_⟩, fun t ht ↦ ?_⟩
  · rw [single, exponentSum, List.map_singleton, List.sum_singleton, one_mul]
  · obtain rfl := List.mem_singleton.1 ht
    exact one_ne_zero
  · obtain rfl := List.mem_singleton.1 ht
    exact h

theorem Sound.mul {us vs ws : Units K} (hus : us.Sound dim) (hvs : vs.Sound dim)
    (h : us.mul vs = .ok ws) : ws.Sound dim := by
  unfold Units.mul at h
  split at h
  · contradiction
  · rename_i d hd
    obtain ⟨ts, hfold, h⟩ := Outcome.bind_eq_ok.1 h
    obtain rfl := Except.ok.inj h
    obtain ⟨hfollow, hnodup, hsum⟩ :=
      foldlM_addTerm_spec hus.follow hus.wellFormed.nodup hvs.follow hfold
    refine sound_filter hfollow hnodup fun i ↦ ?_
    rw [Dimension.exponent_mul? hd, hus.wellFormed.exponent_eq, hvs.wellFormed.exponent_eq, hsum]

/-! ### Powers -/

theorem powTerm_eq_ok {n : Int} {u : UnitTerm K} (h : powTerm n t = .ok u) :
    u = { t with power := t.power * n } := by
  rw [powTerm] at h
  split at h
  · exact (Except.ok.inj h).symm
  · contradiction

theorem mapM_powTerm_eq_ok {n : Int} (h : ts.mapM (powTerm n) = .ok vs) :
    vs = ts.map fun t ↦ { t with power := t.power * n } := by
  induction ts generalizing vs with
  | nil => exact (Except.ok.inj h).symm
  | cons t ts ih =>
    rw [List.mapM_cons] at h
    obtain ⟨u, hu, h⟩ := Outcome.bind_eq_ok.1 h
    obtain ⟨us, hus, h⟩ := Outcome.bind_eq_ok.1 h
    obtain rfl := Except.ok.inj h
    rw [powTerm_eq_ok hu, ih hus, List.map_cons]

theorem exponentSum_map_mul (n : Int) (ts : List (UnitTerm K)) (i : Fin 10) :
    exponentSum (ts.map fun t ↦ { t with power := t.power * n }) i = exponentSum ts i * n := by
  induction ts with
  | nil => exact (zero_mul n).symm
  | cons t ts ih =>
    rw [List.map_cons, exponentSum_cons, exponentSum_cons, ih]
    ring

theorem Sound.pow {us vs : Units K} {n : Int} (hus : us.Sound dim) (h : us.pow n = .ok vs) :
    vs.Sound dim := by
  unfold Units.pow at h
  split at h
  · contradiction
  · rename_i d hd
    obtain ⟨ts, hmap, h⟩ := Outcome.bind_eq_ok.1 h
    obtain rfl := Except.ok.inj h
    obtain rfl := mapM_powTerm_eq_ok hmap
    refine sound_filter (fun t ht ↦ ?_) ?_ fun i ↦ ?_
    · obtain ⟨u, hu, rfl⟩ := List.mem_map.1 ht
      exact hus.follow u hu
    · rw [names, List.map_map]
      exact hus.wellFormed.nodup
    · rw [Dimension.exponent_pow? hd, hus.wellFormed.exponent_eq, exponentSum_map_mul]

theorem dimension_pow {us vs : Units K} {n : Int} (h : us.pow n = .ok vs) :
    us.dimension.pow? n = some vs.dimension := by
  unfold Units.pow at h
  split at h
  · contradiction
  · rename_i d hd
    obtain ⟨ts, -, h⟩ := Outcome.bind_eq_ok.1 h
    obtain rfl := Except.ok.inj h
    exact hd

theorem Sound.div {us vs ws : Units K} (hus : us.Sound dim) (hvs : vs.Sound dim)
    (h : us.div vs = .ok ws) : ws.Sound dim := by
  obtain ⟨inverse, hinverse, h⟩ := Outcome.bind_eq_ok.1 h
  exact hus.mul (hvs.pow hinverse) h

end Units

end Reckoner
