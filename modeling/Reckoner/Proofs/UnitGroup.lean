import Mathlib.Algebra.BigOperators.Ring.List
import Mathlib.Data.List.Nodup
import Mathlib.Data.Set.Function
import Reckoner.Proofs.ExactArithmetic
import Reckoner.Proofs.UnitAlgebra

/-!
# Products of units are a group on exponents

A product of units is, up to the order of its terms, the map from unit names to powers (`powerOf`).
Multiplication adds these maps, division subtracts them, and a power multiplies them, whenever there
is a result at all: results are limited in their powers and in the exponents of their dimension.

The map determines a product only if a name always means the same unit. The products considered here
are those that can be built from a set of units with this property (`Built`). For them equal maps are
equal products (`reordered_of_powerOf_eq`), so the laws of a group follow from those of the integers.
Each is stated for the case that its products exist. A product exists in one order if it does in the
other (`mul_swap`), since each power of the one order is a power of the other.

Over exact numbers the factor of a product is multiplicative as well. Only a factor of zero stands in
the way, which has no negative powers.
-/

namespace Reckoner

theorem Dimension.ext_exponent {d e : Dimension} (h : ∀ i, d.exponent i = e.exponent i) :
    d = e := by
  have hexponents : d.exponents = e.exponents :=
    Vector.ext fun i hi ↦ Subtype.ext (h ⟨i, hi⟩)
  cases d
  cases e
  exact congrArg Dimension.mk hexponents

theorem Dimension.ofInts?_congr {f g : Fin 10 → Int} (h : ∀ i, f i = g i) :
    ofInts? f = ofInts? g :=
  congrArg ofInts? (funext h)

theorem Dimension.mul?_comm (d e : Dimension) : d.mul? e = e.mul? d :=
  ofInts?_congr fun _ ↦ Int.add_comm _ _

/-- A power of a power is the power by the product of the exponents. -/
theorem Dimension.pow?_mul {d e f : Dimension} {m n : Int} (h : d.pow? m = some e)
    (h' : e.pow? n = some f) : d.pow? (m * n) = some f := by
  rw [← h']
  refine ofInts?_congr fun i ↦ ?_
  rw [exponent_pow? h, Int.mul_assoc]

/-- If there is no result, then because an exponent overflows. -/
def OnlyOverflows {α : Type} (x : Except EvalError α) : Prop :=
  ∀ error, x = .error error → error = .exponentOverflow

namespace OnlyOverflows

variable {α β : Type}

theorem ok (a : α) : OnlyOverflows (.ok a) := nofun

theorem overflow : OnlyOverflows (.error .exponentOverflow : Except EvalError α) := by
  rintro error ⟨⟩
  rfl

theorem bind {x : Except EvalError α} {f : α → Except EvalError β} (hx : OnlyOverflows x)
    (hf : ∀ a, OnlyOverflows (f a)) : OnlyOverflows (x >>= f) := by
  intro error h
  rcases Outcome.bind_eq_error.1 h with h | ⟨a, -, h⟩
  · exact hx error h
  · exact hf a error h

theorem map {x : Except EvalError α} {f : α → β} (hx : OnlyOverflows x) :
    OnlyOverflows (x.map f) := by
  cases x with
  | ok a => exact ok (f a)
  | error e =>
    rintro error ⟨⟩
    exact hx e rfl

end OnlyOverflows

namespace Units

variable {K : Type} {t v : UnitTerm K} {ts ts' rs : List (UnitTerm K)} {name : String}

/-! ### The power of a name -/

/-- The power of a name in a row of terms: the sum of the powers of the terms that have it. -/
def powerIn (ts : List (UnitTerm K)) (name : String) : Int :=
  (ts.map fun t ↦ if t.unit.name = name then t.power else 0).sum

/-- **The power of a unit name in a product.** -/
def powerOf (us : Units K) (name : String) : Int := powerIn us.terms name

@[simp]
theorem powerIn_nil : powerIn ([] : List (UnitTerm K)) name = 0 := rfl

@[simp]
theorem powerIn_cons :
    powerIn (t :: ts) name = (if t.unit.name = name then t.power else 0) + powerIn ts name := by
  rw [powerIn, List.map_cons, List.sum_cons, powerIn]

@[simp]
theorem powerIn_append : powerIn (ts ++ rs) name = powerIn ts name + powerIn rs name := by
  rw [powerIn, List.map_append, List.sum_append, powerIn, powerIn]

theorem powerIn_addTerm (h : addTerm t ts = .ok ts') :
    powerIn ts' name = powerIn ts name + if t.unit.name = name then t.power else 0 := by
  rcases addTerm_cases h with ⟨above, u, below, rfl, hname, rfl⟩ | ⟨-, rfl⟩
  · simp only [powerIn_append, powerIn_cons, hname]
    split <;> ring
  · simp

theorem powerIn_foldlM_addTerm (h : rs.foldlM (fun ts t ↦ addTerm t ts) ts = .ok ts') :
    powerIn ts' name = powerIn ts name + powerIn rs name := by
  induction rs generalizing ts with
  | nil =>
    obtain rfl := Except.ok.inj h
    rw [powerIn_nil, add_zero]
  | cons v rs ih =>
    rw [List.foldlM_cons] at h
    obtain ⟨us, hadd, h⟩ := Outcome.bind_eq_ok.1 h
    rw [ih h, powerIn_addTerm hadd, powerIn_cons, add_assoc]

theorem filter_cons_of_zero (h : t.power = 0) :
    (t :: ts).filter (·.power ≠ 0) = ts.filter (·.power ≠ 0) :=
  List.filter_cons_of_neg (by simpa using h)

theorem filter_cons_of_ne_zero (h : t.power ≠ 0) :
    (t :: ts).filter (·.power ≠ 0) = t :: ts.filter (·.power ≠ 0) :=
  List.filter_cons_of_pos (by simpa using h)

/-- Terms whose power is zero count for nothing. -/
theorem powerIn_filter : powerIn (ts.filter (·.power ≠ 0)) name = powerIn ts name := by
  induction ts with
  | nil => rfl
  | cons t ts ih =>
    by_cases hzero : t.power = 0
    · rw [filter_cons_of_zero hzero, ih, powerIn_cons, hzero, ite_self, zero_add]
    · rw [filter_cons_of_ne_zero hzero, powerIn_cons, powerIn_cons, ih]

theorem powerIn_map_mul (n : Int) :
    powerIn (ts.map fun t ↦ { t with power := t.power * n }) name = powerIn ts name * n := by
  induction ts with
  | nil => exact (zero_mul n).symm
  | cons t ts ih =>
    rw [List.map_cons, powerIn_cons, powerIn_cons, ih, add_mul, ite_mul, zero_mul]

/-! ### What products, powers and quotients are -/

variable {us vs ws : Units K} {n : Int}

theorem mul_eq_ok (h : us.mul vs = .ok ws) :
    us.dimension.mul? vs.dimension = some ws.dimension ∧
      ∃ ts, vs.terms.foldlM (fun ts t ↦ addTerm t ts) us.terms = .ok ts ∧
        ws.terms = ts.filter (·.power ≠ 0) := by
  unfold Units.mul at h
  split at h
  · contradiction
  · rename_i d hd
    obtain ⟨ts, hfold, h⟩ := Outcome.bind_eq_ok.1 h
    obtain rfl := Except.ok.inj h
    exact ⟨hd, ts, hfold, rfl⟩

theorem mul_of_foldlM {d : Dimension} (hd : us.dimension.mul? vs.dimension = some d)
    (h : vs.terms.foldlM (fun ts t ↦ addTerm t ts) us.terms = .ok ts) :
    us.mul vs = .ok ⟨ts.filter (·.power ≠ 0), d⟩ := by
  unfold Units.mul
  rw [hd]
  dsimp only
  rw [h]
  rfl

theorem pow_eq_ok (h : us.pow n = .ok vs) :
    us.dimension.pow? n = some vs.dimension ∧
      us.terms.mapM (powTerm n) = .ok (us.terms.map fun t ↦ { t with power := t.power * n }) ∧
        vs.terms = (us.terms.map fun t ↦ { t with power := t.power * n }).filter (·.power ≠ 0) := by
  unfold Units.pow at h
  split at h
  · contradiction
  · rename_i d hd
    obtain ⟨ts, hmap, h⟩ := Outcome.bind_eq_ok.1 h
    obtain rfl := Except.ok.inj h
    obtain rfl := mapM_powTerm_eq_ok hmap
    exact ⟨hd, hmap, rfl⟩

theorem pow_of_mapM {d : Dimension} (hd : us.dimension.pow? n = some d)
    (h : us.terms.mapM (powTerm n) = .ok ts) : us.pow n = .ok ⟨ts.filter (·.power ≠ 0), d⟩ := by
  unfold Units.pow
  rw [hd]
  dsimp only
  rw [h]
  rfl

/-- A product adds the powers. -/
theorem powerOf_mul (h : us.mul vs = .ok ws) (name : String) :
    ws.powerOf name = us.powerOf name + vs.powerOf name := by
  obtain ⟨-, ts, hfold, hterms⟩ := mul_eq_ok h
  rw [powerOf, hterms, powerIn_filter, powerIn_foldlM_addTerm hfold, powerOf, powerOf]

/-- A power multiplies them. -/
theorem powerOf_pow (h : us.pow n = .ok vs) (name : String) :
    vs.powerOf name = us.powerOf name * n := by
  obtain ⟨-, -, hterms⟩ := pow_eq_ok h
  rw [powerOf, hterms, powerIn_filter, powerIn_map_mul, powerOf]

/-- A quotient subtracts them. -/
theorem powerOf_div (h : us.div vs = .ok ws) (name : String) :
    ws.powerOf name = us.powerOf name - vs.powerOf name := by
  obtain ⟨inverse, hinverse, h⟩ := Outcome.bind_eq_ok.1 h
  rw [powerOf_mul h, powerOf_pow hinverse]
  ring

/-! ### Products fail by overflow only -/

theorem onlyOverflows_addTerm (t : UnitTerm K) (ts : List (UnitTerm K)) :
    OnlyOverflows (addTerm t ts) := by
  induction ts with
  | nil => exact .ok _
  | cons u ts ih =>
    rw [addTerm]
    split
    · split
      · exact .ok _
      · exact .overflow
    · exact ih.map

theorem onlyOverflows_mul (us vs : Units K) : OnlyOverflows (us.mul vs) := by
  have hfold (rs : List (UnitTerm K)) :
      ∀ ts : List (UnitTerm K), OnlyOverflows (rs.foldlM (fun ts t ↦ addTerm t ts) ts) := by
    induction rs with
    | nil => exact fun ts ↦ .ok ts
    | cons r rs ih =>
      intro ts
      rw [List.foldlM_cons]
      exact (onlyOverflows_addTerm r ts).bind ih
  unfold Units.mul
  split
  · exact .overflow
  · exact (hfold vs.terms us.terms).bind fun _ ↦ .ok _

theorem onlyOverflows_pow (us : Units K) (n : Int) : OnlyOverflows (us.pow n) := by
  have hterm (t : UnitTerm K) : OnlyOverflows (powTerm n t) := by
    rw [powTerm]
    split
    · exact .ok _
    · exact .overflow
  have hmap (ts : List (UnitTerm K)) : OnlyOverflows (ts.mapM (powTerm n)) := by
    induction ts with
    | nil => exact .ok _
    | cons t ts ih =>
      rw [List.mapM_cons]
      exact (hterm t).bind fun _ ↦ ih.bind fun _ ↦ .ok _
  unfold Units.pow
  split
  · exact .overflow
  · exact (hmap us.terms).bind fun _ ↦ .ok _

theorem onlyOverflows_div (us vs : Units K) : OnlyOverflows (us.div vs) :=
  (onlyOverflows_pow vs (-1)).bind fun _ ↦ onlyOverflows_mul us _

theorem exponent_mul (h : us.mul vs = .ok ws) (i : Fin 10) :
    ws.dimension.exponent i = us.dimension.exponent i + vs.dimension.exponent i :=
  Dimension.exponent_mul? (mul_eq_ok h).1 i

theorem exponent_pow (h : us.pow n = .ok vs) (i : Fin 10) :
    vs.dimension.exponent i = us.dimension.exponent i * n :=
  Dimension.exponent_pow? (pow_eq_ok h).1 i

theorem exponent_div (h : us.div vs = .ok ws) (i : Fin 10) :
    ws.dimension.exponent i = us.dimension.exponent i - vs.dimension.exponent i := by
  obtain ⟨inverse, hinverse, h⟩ := Outcome.bind_eq_ok.1 h
  rw [exponent_mul h, exponent_pow hinverse]
  ring

/-! ### Products built from a set of units -/

/-- **The products that can be built** from the units of a set. -/
inductive Built (S : Set (NamedUnit K)) : Units K → Prop
  | one : Built S one
  | single {u : NamedUnit K} : u ∈ S → Built S (single u)
  | mul {us vs ws : Units K} : Built S us → Built S vs → us.mul vs = .ok ws → Built S ws
  | div {us vs ws : Units K} : Built S us → Built S vs → us.div vs = .ok ws → Built S ws
  | pow {us vs : Units K} {n : Int} : Built S us → us.pow n = .ok vs → Built S vs

variable {S : Set (NamedUnit K)}

/-- Every unit in a row of terms is from a set. -/
def Within (S : Set (NamedUnit K)) (ts : List (UnitTerm K)) : Prop := ∀ t ∈ ts, t.unit ∈ S

theorem Within.addTerm (hts : Within S ts) (ht : t.unit ∈ S) (h : addTerm t ts = .ok ts') :
    Within S ts' := by
  rcases addTerm_cases h with ⟨above, u, below, rfl, hname, rfl⟩ | ⟨-, rfl⟩
  · intro v hv
    rcases List.mem_append.1 hv with hv | hv
    · exact hts v (List.mem_append_left _ hv)
    rcases List.mem_cons.1 hv with rfl | hv
    · exact hts u (List.mem_append_right above List.mem_cons_self)
    · exact hts v (List.mem_append_right above (List.mem_cons_of_mem u hv))
  · exact List.forall_mem_append.2 ⟨hts, List.forall_mem_singleton.2 ht⟩

theorem Within.foldlM_addTerm (hts : Within S ts) (hvs : Within S rs)
    (h : rs.foldlM (fun ts t ↦ Units.addTerm t ts) ts = .ok ts') : Within S ts' := by
  induction rs generalizing ts with
  | nil =>
    obtain rfl := Except.ok.inj h
    exact hts
  | cons v rs ih =>
    rw [List.foldlM_cons] at h
    obtain ⟨us, hadd, h⟩ := Outcome.bind_eq_ok.1 h
    exact ih (hts.addTerm (hvs v List.mem_cons_self) hadd)
      (fun t ht ↦ hvs t (List.mem_cons_of_mem v ht)) h

theorem Within.mul (hus : Within S us.terms) (hvs : Within S vs.terms) (h : us.mul vs = .ok ws) :
    Within S ws.terms := by
  obtain ⟨-, ts, hfold, hterms⟩ := mul_eq_ok h
  rw [hterms]
  exact fun t ht ↦ hus.foldlM_addTerm hvs hfold t (List.mem_of_mem_filter ht)

theorem Within.pow (hus : Within S us.terms) (h : us.pow n = .ok vs) : Within S vs.terms := by
  obtain ⟨-, -, hterms⟩ := pow_eq_ok h
  rw [hterms]
  intro t ht
  obtain ⟨u, hu, rfl⟩ := List.mem_map.1 (List.mem_of_mem_filter ht)
  exact hus u hu

theorem Built.within (h : Built S us) : Within S us.terms := by
  induction h with
  | one => exact nofun
  | single hu =>
    intro t ht
    obtain rfl := List.mem_singleton.1 ht
    exact hu
  | mul _ _ h hus hvs => exact hus.mul hvs h
  | div _ _ h hus hvs =>
    obtain ⟨inverse, hinverse, h⟩ := Outcome.bind_eq_ok.1 h
    exact hus.mul (hvs.pow hinverse) h
  | pow _ h hus => exact hus.pow h

/-- If names determine units, they stand for dimensions. -/
theorem exists_dimension_of_injOn (hS : S.InjOn NamedUnit.name) :
    ∃ dim : String → Dimension, ∀ u ∈ S, u.dimension = dim u.name := by
  classical
  refine ⟨fun name ↦ if h : ∃ u ∈ S, u.name = name then h.choose.dimension else .none,
    fun u hu ↦ ?_⟩
  have h : ∃ w ∈ S, w.name = u.name := ⟨u, hu, rfl⟩
  beta_reduce
  rw [dif_pos h, hS h.choose_spec.1 hu h.choose_spec.2]

theorem Built.sound {dim : String → Dimension} (hdim : ∀ u ∈ S, u.dimension = dim u.name)
    (h : Built S us) : us.Sound dim := by
  induction h with
  | one => exact sound_one
  | single hu => exact sound_single (hdim _ hu)
  | mul _ _ h hus hvs => exact hus.mul hvs h
  | div _ _ h hus hvs => exact hus.div hvs h
  | pow _ h hus => exact hus.pow h

/-- **A product of units in which names determine units is well formed.** -/
theorem Built.wellFormed (hS : S.InjOn NamedUnit.name) (h : Built S us) : us.WellFormed :=
  have ⟨_, hdim⟩ := exists_dimension_of_injOn hS
  (h.sound hdim).wellFormed

/-! ### The powers determine the product -/

theorem powerIn_eq_zero (h : name ∉ names ts) : powerIn ts name = 0 := by
  induction ts with
  | nil => rfl
  | cons t ts ih =>
    rw [names, List.map_cons, List.mem_cons, not_or] at h
    rw [powerIn_cons, if_neg (Ne.symm h.1), ih h.2, add_zero]

theorem powerIn_of_mem (hnodup : (names ts).Nodup) (ht : t ∈ ts) :
    powerIn ts t.unit.name = t.power := by
  induction ts with
  | nil => contradiction
  | cons u ts ih =>
    rw [names, List.map_cons, List.nodup_cons] at hnodup
    rcases List.mem_cons.1 ht with rfl | ht
    · rw [powerIn_cons, if_pos rfl, powerIn_eq_zero hnodup.1, add_zero]
    · have hne : u.unit.name ≠ t.unit.name := fun heq ↦
        hnodup.1 (heq ▸ List.mem_map.2 ⟨t, ht, rfl⟩)
      rw [powerIn_cons, if_neg hne, zero_add, ih hnodup.2 ht]

/-- Two products with the same terms in some order. -/
structure Reordered (us vs : Units K) : Prop where
  perm : us.terms.Perm vs.terms
  dimension_eq : us.dimension = vs.dimension

theorem exponentSum_perm (h : ts.Perm ts') (i : Fin 10) :
    exponentSum ts i = exponentSum ts' i :=
  (h.map _).sum_eq

/-- A term of one product is one of the other, if the powers are the same. -/
theorem mem_terms_of_powerOf_eq (hS : S.InjOn NamedUnit.name) (hus : us.WellFormed)
    (hwithin : Within S us.terms) (hvs : vs.WellFormed) (hwithin' : Within S vs.terms)
    (h : us.powerOf = vs.powerOf) (ht : t ∈ us.terms) : t ∈ vs.terms := by
  have hpower : vs.powerOf t.unit.name = t.power := by
    rw [← h]
    exact powerIn_of_mem hus.nodup ht
  have hname : t.unit.name ∈ names vs.terms := by
    by_contra hnew
    exact hus.power_ne_zero t ht (hpower.symm.trans (powerIn_eq_zero hnew))
  obtain ⟨v, hv, hname⟩ := List.mem_map.1 hname
  have hunit : v.unit = t.unit := hS (hwithin' v hv) (hwithin t ht) hname
  have hvpower : v.power = t.power := by
    rw [← powerIn_of_mem hvs.nodup hv, hname]
    exact hpower
  cases v
  cases t
  obtain rfl : _ = _ := hunit
  obtain rfl : _ = _ := hvpower
  exact hv

theorem nodup_of_names (h : (names ts).Nodup) : ts.Nodup := List.Nodup.of_map _ h

/-- **Products with the same powers are the same** up to the order of their terms. -/
theorem reordered_of_powerOf_eq (hS : S.InjOn NamedUnit.name) (hus : us.WellFormed)
    (hwithin : Within S us.terms) (hvs : vs.WellFormed) (hwithin' : Within S vs.terms)
    (h : us.powerOf = vs.powerOf) : us.Reordered vs := by
  have hperm : us.terms.Perm vs.terms :=
    (List.perm_ext_iff_of_nodup (nodup_of_names hus.nodup) (nodup_of_names hvs.nodup)).2 fun _ ↦
      ⟨mem_terms_of_powerOf_eq hS hus hwithin hvs hwithin' h,
        mem_terms_of_powerOf_eq hS hvs hwithin' hus hwithin h.symm⟩
  refine ⟨hperm, Dimension.ext_exponent fun i ↦ ?_⟩
  rw [hus.exponent_eq, hvs.exponent_eq, exponentSum_perm hperm]

theorem Built.reordered (hS : S.InjOn NamedUnit.name) (hus : Built S us) (hvs : Built S vs)
    (h : us.powerOf = vs.powerOf) : us.Reordered vs :=
  reordered_of_powerOf_eq hS (hus.wellFormed hS) hus.within (hvs.wellFormed hS) hvs.within h

/-! ### When there is a product -/

/-- The powers of two rows of terms add up within the limits, name by name. -/
def PowersFit (ts rs : List (UnitTerm K)) : Prop :=
  ∀ t ∈ ts, ∀ v ∈ rs, t.unit.name = v.unit.name → fitsPower (t.power + v.power) = true

theorem PowersFit.symm (h : PowersFit ts rs) : PowersFit rs ts := by
  intro v hv t ht hname
  rw [Int.add_comm]
  exact h t ht v hv hname.symm

/-- Adding a term leaves the terms with other names as they are. -/
theorem mem_addTerm (h : addTerm t ts = .ok ts') (hname : v.unit.name ≠ t.unit.name) :
    v ∈ ts' ↔ v ∈ ts := by
  rcases addTerm_cases h with ⟨above, u, below, rfl, hu, rfl⟩ | ⟨-, rfl⟩
  · have hne : ∀ w : UnitTerm K, w.unit.name = t.unit.name → v ≠ w := by
      rintro w hw rfl
      exact hname hw
    simp [hne u hu, hne { u with power := u.power + t.power } hu]
  · have hne : v ≠ t := by
      rintro rfl
      exact hname rfl
    simp [hne]

theorem exists_addTerm (h : ∀ u ∈ ts, u.unit.name = t.unit.name → fitsPower (u.power + t.power)) :
    ∃ ts', addTerm t ts = .ok ts' := by
  induction ts with
  | nil => exact ⟨[t], rfl⟩
  | cons u rest ih =>
    rw [addTerm]
    by_cases hname : u.unit.name = t.unit.name
    · exact ⟨_, by rw [if_pos hname, if_pos (h u List.mem_cons_self hname)]⟩
    · obtain ⟨rest', hrest⟩ := ih fun v hv ↦ h v (List.mem_cons_of_mem u hv)
      exact ⟨u :: rest', by rw [if_neg hname, hrest]; rfl⟩

theorem fits_of_addTerm (hnodup : (names ts).Nodup) (h : addTerm t ts = .ok ts') :
    ∀ u ∈ ts, u.unit.name = t.unit.name → fitsPower (u.power + t.power) := by
  induction ts generalizing ts' with
  | nil => exact nofun
  | cons w rest ih =>
    rw [names, List.map_cons, List.nodup_cons] at hnodup
    rw [addTerm] at h
    intro u hu hname
    split at h
    · rename_i hw
      -- names do not repeat, so the first term with this name is the only one
      rcases List.mem_cons.1 hu with rfl | hu
      · split at h
        · assumption
        · contradiction
      · exact absurd (List.mem_map.2 ⟨u, hu, hname.trans hw.symm⟩) hnodup.1
    · rename_i hw
      obtain ⟨rest', hrest, rfl⟩ := Outcome.map_eq_ok.1 h
      rcases List.mem_cons.1 hu with rfl | hu
      · exact absurd hname hw
      · exact ih hnodup.2 hrest u hu hname

variable {dim : String → Dimension}

/-- The terms of one row can be added to those of another exactly if the powers fit. -/
theorem exists_foldlM_addTerm (hts : Follow dim ts) (hnodup : (names ts).Nodup)
    (hvs : Follow dim rs) (hnodup' : (names rs).Nodup) (h : PowersFit ts rs) :
    ∃ ts', rs.foldlM (fun ts t ↦ addTerm t ts) ts = .ok ts' := by
  induction rs generalizing ts with
  | nil => exact ⟨ts, rfl⟩
  | cons v rs ih =>
    rw [names, List.map_cons, List.nodup_cons] at hnodup'
    obtain ⟨us, hadd⟩ := exists_addTerm fun u hu ↦ h u hu v List.mem_cons_self
    obtain ⟨hfollow, hnames, -⟩ := addTerm_spec hts hnodup (hvs v List.mem_cons_self) hadd
    have hfit : PowersFit us rs := by
      intro u hu w hw hname
      have hne : u.unit.name ≠ v.unit.name := fun heq ↦
        hnodup'.1 (List.mem_map.2 ⟨w, hw, hname.symm.trans heq⟩)
      exact h u ((mem_addTerm hadd hne).1 hu) w (List.mem_cons_of_mem v hw) hname
    obtain ⟨ts', hts'⟩ :=
      ih hfollow hnames (fun t ht ↦ hvs t (List.mem_cons_of_mem v ht)) hnodup'.2 hfit
    exact ⟨ts', by rw [List.foldlM_cons, hadd]; exact hts'⟩

theorem powersFit_of_foldlM_addTerm (hts : Follow dim ts) (hnodup : (names ts).Nodup)
    (hvs : Follow dim rs) (hnodup' : (names rs).Nodup)
    (h : rs.foldlM (fun ts t ↦ addTerm t ts) ts = .ok ts') : PowersFit ts rs := by
  induction rs generalizing ts with
  | nil => exact fun _ _ ↦ nofun
  | cons v rs ih =>
    rw [names, List.map_cons, List.nodup_cons] at hnodup'
    rw [List.foldlM_cons] at h
    obtain ⟨us, hadd, h⟩ := Outcome.bind_eq_ok.1 h
    obtain ⟨hfollow, hnames, -⟩ := addTerm_spec hts hnodup (hvs v List.mem_cons_self) hadd
    have hfit : PowersFit us rs :=
      ih hfollow hnames (fun t ht ↦ hvs t (List.mem_cons_of_mem v ht)) hnodup'.2 h
    intro u hu w hw hname
    rcases List.mem_cons.1 hw with rfl | hw
    · exact fits_of_addTerm hnodup hadd u hu hname
    · have hne : u.unit.name ≠ v.unit.name := fun heq ↦
        hnodup'.1 (List.mem_map.2 ⟨w, hw, hname.symm.trans heq⟩)
      exact hfit u ((mem_addTerm hadd hne).2 hu) w hw hname

/-- **There is a product in one order if there is one in the other.** -/
theorem mul_swap (hus : us.Sound dim) (hvs : vs.Sound dim) (h : us.mul vs = .ok ws) :
    ∃ ws', vs.mul us = .ok ws' := by
  obtain ⟨hd, ts, hfold, -⟩ := mul_eq_ok h
  have hfit := powersFit_of_foldlM_addTerm hus.follow hus.wellFormed.nodup hvs.follow
    hvs.wellFormed.nodup hfold
  obtain ⟨ts', hfold'⟩ := exists_foldlM_addTerm hvs.follow hvs.wellFormed.nodup hus.follow
    hus.wellFormed.nodup hfit.symm
  rw [Dimension.mul?_comm] at hd
  exact ⟨_, mul_of_foldlM hd hfold'⟩

/-! ### Powers of powers -/

/-- Two powers one after the other do to a row of terms what the power by their product does. -/
theorem filter_map_filter_map (m n : Int) (ts : List (UnitTerm K)) :
    (((ts.map fun t ↦ { t with power := t.power * m }).filter (·.power ≠ 0)).map
        fun t ↦ { t with power := t.power * n }).filter (·.power ≠ 0) =
      (ts.map fun t ↦ { t with power := t.power * (m * n) }).filter (·.power ≠ 0) := by
  induction ts with
  | nil => rfl
  | cons t ts ih =>
    simp only [List.map_cons]
    by_cases hzero : t.power * m = 0
    · have hzero' : t.power * (m * n) = 0 := by rw [← Int.mul_assoc, hzero, Int.zero_mul]
      rw [filter_cons_of_zero hzero, ih, filter_cons_of_zero hzero']
    · rw [filter_cons_of_ne_zero hzero, List.map_cons, List.filter_cons, List.filter_cons, ih,
        ← Int.mul_assoc]

theorem mapM_powTerm {n : Int} (h : ∀ t ∈ ts, fitsPower (t.power * n) = true) :
    ts.mapM (powTerm n) = .ok (ts.map fun t ↦ { t with power := t.power * n }) := by
  induction ts with
  | nil => rfl
  | cons t ts ih =>
    rw [List.mapM_cons, ih fun u hu ↦ h u (List.mem_cons_of_mem t hu), powTerm,
      if_pos (h t List.mem_cons_self)]
    rfl

theorem fits_of_mapM_powTerm {n : Int} (h : ts.mapM (powTerm n) = .ok rs) :
    ∀ t ∈ ts, fitsPower (t.power * n) = true := by
  induction ts generalizing rs with
  | nil => exact nofun
  | cons t ts ih =>
    rw [List.mapM_cons] at h
    obtain ⟨u, hu, h⟩ := Outcome.bind_eq_ok.1 h
    obtain ⟨us, hus, -⟩ := Outcome.bind_eq_ok.1 h
    rw [powTerm] at hu
    intro v hv
    rcases List.mem_cons.1 hv with rfl | hv
    · split at hu
      · assumption
      · contradiction
    · exact ih hus v hv

/-- **A power of a power** is the very product that the power by the product of the exponents is. -/
theorem pow_pow_eq {m : Int} (h : us.pow m = .ok vs) (h' : vs.pow n = .ok ws) :
    us.pow (m * n) = .ok ws := by
  obtain ⟨hd, -, hterms⟩ := pow_eq_ok h
  obtain ⟨hd', hmap', hterms'⟩ := pow_eq_ok h'
  have hfit : ∀ t ∈ us.terms, fitsPower (t.power * (m * n)) = true := by
    intro t ht
    rw [← Int.mul_assoc]
    by_cases hzero : t.power * m = 0
    · rw [hzero, Int.zero_mul]
      decide
    · refine fits_of_mapM_powTerm hmap' { t with power := t.power * m } ?_
      rw [hterms]
      exact List.mem_filter.2 ⟨List.mem_map.2 ⟨t, ht, rfl⟩, by simpa using hzero⟩
  rw [pow_of_mapM (Dimension.pow?_mul hd hd') (mapM_powTerm hfit), ← filter_map_filter_map, ← hterms,
    ← hterms']

/-! ### Factors over exact numbers -/

section Factor

variable {S : Set (NamedUnit ℚ)} {us vs ws : Units ℚ} {t : UnitTerm ℚ} {ts ts' rs : List (UnitTerm ℚ)}

/-- No factor of zero has a negative power, so the powers of the factors exist. -/
def PowersExist (ts : List (UnitTerm ℚ)) : Prop := ∀ t ∈ ts, t.unit.factor = 0 → 0 ≤ t.power

theorem factorProduct_filter : factorProduct (ts.filter (·.power ≠ 0)) = factorProduct ts := by
  induction ts with
  | nil => rfl
  | cons t ts ih =>
    by_cases hzero : t.power = 0
    · rw [filter_cons_of_zero hzero, ih, factorProduct_cons, hzero, zpow_zero, one_mul]
    · rw [filter_cons_of_ne_zero hzero, factorProduct_cons, factorProduct_cons, ih]

/-- Powers of one number with exponents that both exist are multiplied by adding the exponents. -/
theorem zpow_add_of_exist {x : ℚ} {m n : ℤ} (hm : x = 0 → 0 ≤ m) (hn : x = 0 → 0 ≤ n) :
    x ^ (m + n) = x ^ m * x ^ n := by
  refine zpow_add' ?_
  by_cases hx : x = 0
  · have := hm hx
    have := hn hx
    omega
  · exact .inl hx

theorem factorProduct_addTerm (hS : S.InjOn NamedUnit.name) (hts : Within S ts) (ht : t.unit ∈ S)
    (hexist : PowersExist ts) (hexist' : t.unit.factor = 0 → 0 ≤ t.power)
    (h : addTerm t ts = .ok ts') :
    PowersExist ts' ∧ factorProduct ts' = factorProduct ts * t.unit.factor ^ t.power := by
  rcases addTerm_cases h with ⟨above, u, below, rfl, hname, rfl⟩ | ⟨-, rfl⟩
  · have hmem : u ∈ above ++ u :: below := List.mem_append_right above List.mem_cons_self
    have hunit : u.unit = t.unit := hS (hts u hmem) ht hname
    have hexistu : t.unit.factor = 0 → 0 ≤ u.power := by
      rw [← hunit]
      exact hexist u hmem
    refine ⟨fun v hv hzero ↦ ?_, ?_⟩
    · rcases List.mem_append.1 hv with hv | hv
      · exact hexist v (List.mem_append_left _ hv) hzero
      rcases List.mem_cons.1 hv with rfl | hv
      · rw [hunit] at hzero
        exact add_nonneg (hexistu hzero) (hexist' hzero)
      · exact hexist v (List.mem_append_right above (List.mem_cons_of_mem u hv)) hzero
    · simp only [factorProduct_append, factorProduct_cons, hunit]
      rw [zpow_add_of_exist hexistu hexist']
      ring
  · refine ⟨List.forall_mem_append.2 ⟨hexist, List.forall_mem_singleton.2 hexist'⟩, ?_⟩
    rw [factorProduct_append, factorProduct_cons, factorProduct_nil, mul_one]

theorem factorProduct_foldlM_addTerm (hS : S.InjOn NamedUnit.name) (hts : Within S ts)
    (hrs : Within S rs) (hexist : PowersExist ts) (hexist' : PowersExist rs)
    (h : rs.foldlM (fun ts t ↦ addTerm t ts) ts = .ok ts') :
    factorProduct ts' = factorProduct ts * factorProduct rs := by
  induction rs generalizing ts with
  | nil =>
    obtain rfl := Except.ok.inj h
    rw [factorProduct_nil, mul_one]
  | cons r rs ih =>
    rw [List.foldlM_cons] at h
    obtain ⟨us, hadd, h⟩ := Outcome.bind_eq_ok.1 h
    have hr : r.unit ∈ S := hrs r List.mem_cons_self
    obtain ⟨hexists, hproduct⟩ :=
      factorProduct_addTerm hS hts hr hexist (hexist' r List.mem_cons_self) hadd
    rw [ih (hts.addTerm hr hadd) (fun t ht ↦ hrs t (List.mem_cons_of_mem r ht)) hexists
      (fun t ht ↦ hexist' t (List.mem_cons_of_mem r ht)) h, hproduct, factorProduct_cons, mul_assoc]

theorem factorProduct_map_mul (n : Int) :
    factorProduct (ts.map fun t ↦ { t with power := t.power * n }) = factorProduct ts ^ n := by
  induction ts with
  | nil => exact (one_zpow n).symm
  | cons t ts ih =>
    rw [List.map_cons, factorProduct_cons, factorProduct_cons, ih, mul_zpow, zpow_mul]

/-- Exact factors are multiplied along with products. -/
theorem factor_mul (hS : S.InjOn NamedUnit.name) (hus : Within S us.terms)
    (hvs : Within S vs.terms) (hexist : PowersExist us.terms) (hexist' : PowersExist vs.terms)
    (h : us.mul vs = .ok ws) : ws.factor = us.factor * vs.factor := by
  obtain ⟨-, ts, hfold, hterms⟩ := mul_eq_ok h
  rw [factor_eq_prod, hterms, factorProduct_filter,
    factorProduct_foldlM_addTerm hS hus hvs hexist hexist' hfold, factor_eq_prod, factor_eq_prod]

theorem factor_pow (h : us.pow n = .ok vs) : vs.factor = us.factor ^ n := by
  obtain ⟨-, -, hterms⟩ := pow_eq_ok h
  rw [factor_eq_prod, hterms, factorProduct_filter, factorProduct_map_mul, factor_eq_prod]

/-- If the product of the factors is not zero, none of them is, unless its power is zero. -/
theorem factor_ne_zero_of_mem (h : factorProduct ts ≠ 0) (ht : t ∈ ts) (hpower : t.power ≠ 0) :
    t.unit.factor ≠ 0 := by
  intro hzero
  refine h (List.prod_eq_zero (List.mem_map.2 ⟨t, ht, ?_⟩))
  rw [hzero, zero_zpow _ hpower]

theorem factor_div (hS : S.InjOn NamedUnit.name) (hus : Within S us.terms)
    (hvs : Within S vs.terms) (hexist : PowersExist us.terms) (hfactor : vs.factor ≠ 0)
    (h : us.div vs = .ok ws) : ws.factor = us.factor / vs.factor := by
  obtain ⟨inverse, hinverse, h⟩ := Outcome.bind_eq_ok.1 h
  have hexist' : PowersExist inverse.terms := by
    obtain ⟨-, -, hterms⟩ := pow_eq_ok hinverse
    rw [hterms]
    intro t ht hzero
    obtain ⟨ht, hpower⟩ := List.mem_filter.1 ht
    obtain ⟨v, hv, rfl⟩ := List.mem_map.1 ht
    rw [factor_eq_prod] at hfactor
    have hne : v.power ≠ 0 := by simpa using hpower
    have hunit : v.unit.factor ≠ 0 := factor_ne_zero_of_mem hfactor hv hne
    exact absurd hzero hunit
  rw [factor_mul hS hus (hvs.pow hinverse) hexist hexist' h, factor_pow hinverse, zpow_neg_one,
    div_eq_mul_inv]

end Factor

/-! ### The laws -/

/-- **The laws of a group on exponents**, for the products that can be built from a set of units. Each
law is about the case that its products, powers and quotients exist. -/
structure ExponentLaws (S : Set (NamedUnit K)) : Prop where
  wellFormed : ∀ us, Built S us → us.WellFormed
  reordered : ∀ us vs, Built S us → Built S vs → us.powerOf = vs.powerOf → us.Reordered vs
  mul : ∀ us vs ws, Built S us → Built S vs → us.mul vs = .ok ws →
    ∀ name, ws.powerOf name = us.powerOf name + vs.powerOf name
  div : ∀ us vs ws, Built S us → Built S vs → us.div vs = .ok ws →
    ∀ name, ws.powerOf name = us.powerOf name - vs.powerOf name
  pow : ∀ us vs n, Built S us → us.pow n = .ok vs →
    ∀ name, vs.powerOf name = us.powerOf name * n
  mul_comm : ∀ us vs ws, Built S us → Built S vs → us.mul vs = .ok ws →
    ∃ ws', vs.mul us = .ok ws' ∧ ws'.Reordered ws
  mul_assoc : ∀ us vs ws left right whole whole', Built S us → Built S vs → Built S ws →
    us.mul vs = .ok left → left.mul ws = .ok whole →
    vs.mul ws = .ok right → us.mul right = .ok whole' → whole.Reordered whole'
  mul_div : ∀ us vs ws us', Built S us → Built S vs → us.mul vs = .ok ws → ws.div vs = .ok us' →
    us'.Reordered us
  pow_pow : ∀ us vs ws m n, Built S us → us.pow m = .ok vs → vs.pow n = .ok ws →
    us.pow (m * n) = .ok ws

/-- **Factors follow the operations**: over exact numbers a product has the product of the factors, a
quotient their quotient and a power the power. The factor of a product exists as long as no factor of
zero has a negative power in it. -/
structure FactorLaws (S : Set (NamedUnit ℚ)) : Prop where
  mul : ∀ us vs ws, Built S us → Built S vs → PowersExist us.terms → PowersExist vs.terms →
    us.mul vs = .ok ws → ws.factor = us.factor * vs.factor
  div : ∀ us vs ws, Built S us → Built S vs → PowersExist us.terms → vs.factor ≠ 0 →
    us.div vs = .ok ws → ws.factor = us.factor / vs.factor
  pow : ∀ us vs n, Built S us → us.pow n = .ok vs → vs.factor = us.factor ^ n

theorem Built.mul_reordered (hS : S.InjOn NamedUnit.name) (hus : Built S us) (hvs : Built S vs)
    (h : us.mul vs = .ok ws) : ∃ ws', vs.mul us = .ok ws' ∧ ws'.Reordered ws := by
  obtain ⟨dim, hdim⟩ := exists_dimension_of_injOn hS
  obtain ⟨ws', h'⟩ := mul_swap (hus.sound hdim) (hvs.sound hdim) h
  refine ⟨ws', h', Built.reordered hS (hvs.mul hus h') (hus.mul hvs h) (funext fun name ↦ ?_)⟩
  rw [powerOf_mul h', powerOf_mul h, Int.add_comm]

/-- **Products of units form a group on exponents**, and over exact numbers the factor is a
homomorphism on it. -/
theorem exponents_form_group :
    (∀ (K : Type) (S : Set (NamedUnit K)), S.InjOn NamedUnit.name → ExponentLaws S) ∧
      ∀ S : Set (NamedUnit ℚ), S.InjOn NamedUnit.name → FactorLaws S := by
  refine ⟨fun K S hS ↦ ?_, fun S hS ↦ ?_⟩
  · exact
      { wellFormed := fun us hus ↦ hus.wellFormed hS
        reordered := fun us vs hus hvs h ↦ hus.reordered hS hvs h
        mul := fun us vs ws _ _ h ↦ powerOf_mul h
        div := fun us vs ws _ _ h ↦ powerOf_div h
        pow := fun us vs n _ h ↦ powerOf_pow h
        mul_comm := fun us vs ws hus hvs h ↦ hus.mul_reordered hS hvs h
        mul_assoc := fun us vs ws left right whole whole' hus hvs hws hleft hwhole hright hwhole' ↦ by
          have hbuilt := (hus.mul hvs hleft).mul hws hwhole
          refine hbuilt.reordered hS (hus.mul (hvs.mul hws hright) hwhole') (funext fun name ↦ ?_)
          rw [powerOf_mul hwhole, powerOf_mul hleft, powerOf_mul hwhole', powerOf_mul hright,
            Int.add_assoc]
        mul_div := fun us vs ws us' hus hvs hmul hdiv ↦ by
          have hbuilt := (hus.mul hvs hmul).div hvs hdiv
          refine hbuilt.reordered hS hus (funext fun name ↦ ?_)
          rw [powerOf_div hdiv, powerOf_mul hmul, Int.add_sub_cancel]
        pow_pow := fun us vs ws m n _ hm hn ↦ pow_pow_eq hm hn }
  · exact
      { mul := fun us vs ws hus hvs hexist hexist' h ↦
          factor_mul hS hus.within hvs.within hexist hexist' h
        div := fun us vs ws hus hvs hexist hfactor h ↦
          factor_div hS hus.within hvs.within hexist hfactor h
        pow := fun us vs n _ h ↦ factor_pow h }

/-- The laws at `km / s`: its powers are one and minus one, and its factor is that of `km`. -/
theorem exponents_form_group_speed :
    let km : NamedUnit ℚ := ⟨"km", .base .length, 1000⟩
    let s : NamedUnit ℚ := ⟨"s", .base .time, 1⟩
    ∃ speed, (single km).div (single s) = .ok speed ∧ speed.WellFormed ∧
      (∀ name, speed.powerOf name = (single km).powerOf name - (single s).powerOf name) ∧
        speed.factor = 1000 := by
  intro km s
  have hS : Set.InjOn NamedUnit.name {km, s} := by
    rintro u (rfl | rfl) v (rfl | rfl) h
    · rfl
    · exact absurd h (by decide)
    · exact absurd h (by decide)
    · rfl
  have laws : ExponentLaws {km, s} := exponents_form_group.1 ℚ {km, s} hS
  have factors : FactorLaws {km, s} := exponents_form_group.2 {km, s} hS
  have hkm : Built {km, s} (single km) := .single (.inl rfl)
  have hs : Built {km, s} (single s) := .single (.inr rfl)
  have hkmfactor : (single km).factor = 1000 := by simp [factor_eq_prod, single, km]
  have hsfactor : (single s).factor = 1 := by simp [factor_eq_prod, single, s]
  have hok : ((single km).div (single s)).isOk = true := by decide
  obtain ⟨speed, hspeed⟩ : ∃ speed, (single km).div (single s) = .ok speed := by
    cases hdiv : (single km).div (single s) with
    | error e =>
      rw [hdiv] at hok
      contradiction
    | ok speed => exact ⟨speed, rfl⟩
  refine ⟨speed, hspeed, laws.wellFormed speed (.div hkm hs hspeed),
    laws.div _ _ _ hkm hs hspeed, ?_⟩
  have hexist : PowersExist (single km).terms := List.forall_mem_singleton.2 fun _ ↦ zero_le_one
  rw [factors.div _ _ _ hkm hs hexist (by rw [hsfactor]; exact one_ne_zero) hspeed, hkmfactor,
    hsfactor, div_one]

end Units

end Reckoner
