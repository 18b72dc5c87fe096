import Mathlib.Algebra.Order.Ring.Int
import Mathlib.Data.Prod.Lex
import AudioWalk.Geofence.Matching
import AudioWalk.Proofs.Geofence.Least

/-!
# Which spot is nearest

Distances are compared as floating point numbers, undefined ones included.  Two
others compare as their ranks do, which are triples in lexicographic order
(`compare_eq_cmp`), so among them any two can be compared (`float_le_total`).

Hence the search for the nearest spot ends with the first least distance wherever
all distances are defined, and it gives the number that this spot has in the whole
list (`first_nearest_is_found`).
-/

namespace AudioWalk

open Float.Model (UnpackedFloat)

/-! ## The order of floating point numbers -/

/-- By sign and size class first, then by exponent and significand. -/
def rank : UnpackedFloat → ℤ ×ₗ ℤ ×ₗ ℤ
  | .infinity .positive => toLex (2, toLex (0, 0))
  | .finite .positive m e _ => toLex (1, toLex (e, (m : ℤ)))
  | .zero _ => toLex (0, toLex (0, 0))
  | .notANumber => toLex (0, toLex (0, 0))
  | .finite .negative m e _ => toLex (-1, toLex (-e, -(m : ℤ)))
  | .infinity .negative => toLex (-2, toLex (0, 0))

/-- Of two numbers in one class the exponents decide, then the significands. -/
theorem lt_of_class {k e e' n n' : ℤ} (h : e < e' ∨ e = e' ∧ n < n') :
    toLex (k, toLex (e, n)) < toLex (k, toLex (e', n')) :=
  Prod.Lex.toLex_lt_toLex.2 (Or.inr ⟨rfl, Prod.Lex.toLex_lt_toLex.2 h⟩)

theorem cmp_of_class (k e e' n n' : ℤ) :
    cmp (toLex (k, toLex (e, n))) (toLex (k, toLex (e', n'))) = (cmp e e').then (cmp n n') := by
  rcases lt_trichotomy e e' with he | he | he
  · rw [he.cmp_eq_lt]
    exact (lt_of_class (Or.inl he)).cmp_eq_lt
  · rw [he.cmp_eq_eq]
    show _ = cmp n n'
    rcases lt_trichotomy n n' with hn | hn | hn
    · rw [hn.cmp_eq_lt]
      exact (lt_of_class (Or.inr ⟨he, hn⟩)).cmp_eq_lt
    · rw [he, hn, cmp_self_eq_eq, cmp_self_eq_eq]
    · rw [hn.cmp_eq_gt]
      exact (lt_of_class (Or.inr ⟨he.symm, hn⟩)).cmp_eq_gt
  · rw [he.cmp_eq_gt]
    exact (lt_of_class (Or.inl he)).cmp_eq_gt

theorem compare_eq_cmp {a b : UnpackedFloat} (ha : a ≠ .notANumber) (hb : b ≠ .notANumber) :
    a.compare b = some (cmp (rank a) (rank b)) := by
  rcases a with ⟨_ | _⟩ | _ | _ | ⟨_ | _, m, e, _⟩ <;>
    rcases b with ⟨_ | _⟩ | _ | _ | ⟨_ | _, m', e', _⟩ <;>
    first | rfl | contradiction | skip
  -- What is left are two numbers of one sign, neither zero nor infinite.
  · have hneg : StrictAnti fun i : ℤ => -i := fun _ _ => Int.neg_lt_neg
    show some ((compare e e').then (compare m m')).swap =
      some (cmp (toLex (-1, toLex (-e, -(m : ℤ)))) (toLex (-1, toLex (-e', -(m' : ℤ)))))
    rw [cmp_of_class, hneg.cmp_map_eq, hneg.cmp_map_eq, Int.natCast_strictMono.cmp_map_eq,
      Ordering.swap_then, ← cmp_eq_compare, ← cmp_eq_compare, cmp_swap, cmp_swap]
  · show some ((compare e e').then (compare m m')) =
      some (cmp (toLex (1, toLex (e, (m : ℤ)))) (toLex (1, toLex (e', (m' : ℤ)))))
    rw [cmp_of_class, Int.natCast_strictMono.cmp_map_eq, ← cmp_eq_compare, ← cmp_eq_compare]

theorem compare_eq_none {a b : UnpackedFloat} (h : a = .notANumber ∨ b = .notANumber) :
    a.compare b = none := by
  rcases h with h | h
  · rw [h]
    rfl
  · rw [h]
    cases a <;> rfl

/-- A comparison says something of two numbers only, and goes by their ranks. -/
theorem any_compare_iff {a b : UnpackedFloat} {p : Ordering → Bool} :
    (a.compare b).any p = true ↔
      a ≠ .notANumber ∧ b ≠ .notANumber ∧ p (cmp (rank a) (rank b)) = true := by
  by_cases h : a = .notANumber ∨ b = .notANumber
  · rw [compare_eq_none h]
    constructor
    · intro hany
      cases hany
    · rintro ⟨ha, hb, _⟩
      exact absurd h (not_or.2 ⟨ha, hb⟩)
  · obtain ⟨ha, hb⟩ := not_or.1 h
    rw [compare_eq_cmp ha hb, and_iff_right ha, and_iff_right hb]
    rfl

theorem isNaN_eq_false_iff {x : Float} :
    x.isNaN = false ↔ x.toModel.unpack ≠ .notANumber := by
  show x.toModel.unpack.isNaN = false ↔ _
  generalize x.toModel.unpack = u
  by_cases hu : u = .notANumber
  · rw [hu]
    exact ⟨fun h => Bool.noConfusion h, fun h => absurd rfl h⟩
  · refine ⟨fun _ => hu, fun _ => ?_⟩
    cases u <;> first | rfl | exact absurd rfl hu

theorem float_le_iff {x y : Float} :
    x ≤ y ↔
      x.isNaN = false ∧ y.isNaN = false ∧ rank x.toModel.unpack ≤ rank y.toModel.unpack := by
  have hle : rank x.toModel.unpack ≤ rank y.toModel.unpack ↔
      (cmp (rank x.toModel.unpack) (rank y.toModel.unpack)).isLE = true :=
    (cmp_compares _ _).ne_gt.symm.trans Ordering.ne_gt_iff_isLE
  rw [isNaN_eq_false_iff, isNaN_eq_false_iff, hle, ← any_compare_iff]
  show decide (x.toModel ≤ y.toModel) = true ↔ _
  rw [decide_eq_true_iff]
  rfl

theorem float_lt_iff {x y : Float} :
    x < y ↔
      x.isNaN = false ∧ y.isNaN = false ∧ rank x.toModel.unpack < rank y.toModel.unpack := by
  have hlt : rank x.toModel.unpack < rank y.toModel.unpack ↔
      (cmp (rank x.toModel.unpack) (rank y.toModel.unpack)).isLT = true := by
    rw [← cmp_eq_lt_iff, Ordering.isLT_iff_eq_lt]
  rw [isNaN_eq_false_iff, isNaN_eq_false_iff, hlt, ← any_compare_iff]
  show decide (x.toModel < y.toModel) = true ↔ _
  rw [decide_eq_true_iff]
  show (x.toModel.unpack.compare y.toModel.unpack == some .lt) = true ↔ _
  generalize x.toModel.unpack.compare y.toModel.unpack = order?
  cases order? with
  | none => exact Iff.rfl
  | some order => cases order <;> exact Iff.rfl

theorem float_le_total {x y : Float} (hx : x.isNaN = false) (hy : y.isNaN = false) :
    x ≤ y ∨ y ≤ x := by
  simp only [float_le_iff, hx, hy, true_and]
  exact le_total _ _

theorem float_le_trans {x y z : Float} (hxy : x ≤ y) (hyz : y ≤ z) : x ≤ z := by
  obtain ⟨hx, _, hxy⟩ := float_le_iff.1 hxy
  obtain ⟨_, hz, hyz⟩ := float_le_iff.1 hyz
  exact float_le_iff.2 ⟨hx, hz, hxy.trans hyz⟩

theorem float_lt_of_not_le {x y : Float} (hx : x.isNaN = false) (hy : y.isNaN = false)
    (h : ¬ y ≤ x) : x < y := by
  simp only [float_le_iff, hx, hy, true_and, not_le] at h
  exact float_lt_iff.2 ⟨hx, hy, h⟩

theorem float_not_lt_of_le {x y : Float} (hxy : x ≤ y) : ¬ y < x := by
  intro hyx
  obtain ⟨_, _, hle⟩ := float_le_iff.1 hxy
  obtain ⟨_, _, hlt⟩ := float_lt_iff.1 hyx
  exact absurd hlt (not_lt_of_ge hle)

/-! ## The nearest candidate -/

/-- Both are at a defined distance, and the second is not nearer. -/
def Candidate.AtMost (a b : Candidate) : Prop := a.distance ≤ b.distance

theorem keepsFirst_nearer : KeepsFirst Candidate.AtMost nearer where
  none _ := rfl
  kept hle := if_pos hle
  replaced hle := if_neg hle

theorem Candidate.AtMost.trans {a b c : Candidate} (hab : a.AtMost b) (hbc : b.AtMost c) :
    a.AtMost c := float_le_trans hab hbc

/-- The search sees candidates through their distances only. -/
theorem best?_nearer_map {f : Candidate → Candidate} (hf : ∀ c, (f c).distance = c.distance)
    (cs : List Candidate) : best? nearer (cs.map f) = (best? nearer cs).map f := by
  apply best?_map
  intro best? c
  cases best? with
  | none => rfl
  | some best =>
    show (if (f best).distance ≤ (f c).distance then f best else f c) =
      f (if best.distance ≤ c.distance then best else c)
    rw [hf, hf, apply_ite f]

/-- The spots among which the search chooses. -/
def candidates (distance : Spot → Float) (spots : List Spot) (excluded : Nat → Bool) :
    List Candidate :=
  (spots.zipIdx.filter fun (_, index) => !excluded index).map
    fun (s, index) => ⟨index, s, distance s⟩

variable {distance : Spot → Float} {spots : List Spot} {excluded : Nat → Bool}

theorem nearestBy?_eq_best? :
    nearestBy? distance spots excluded =
      (best? nearer (candidates distance spots excluded)).map fun c => (c.index, c.spot) := rfl

theorem mem_candidates {c : Candidate} :
    c ∈ candidates distance spots excluded ↔
      spots[c.index]? = some c.spot ∧ excluded c.index = false ∧ c.distance = distance c.spot := by
  rw [candidates, List.mem_map]
  constructor
  · intro ⟨(s, index), hmem, hc⟩
    obtain ⟨hat, hexcluded⟩ := List.mem_filter.1 hmem
    rw [← hc]
    exact ⟨List.mem_zipIdx_iff_getElem?.1 hat, by simpa using hexcluded, rfl⟩
  · intro ⟨hat, hexcluded, hdistance⟩
    refine ⟨(c.spot, c.index), List.mem_filter.2 ⟨List.mem_zipIdx_iff_getElem?.2 hat, ?_⟩, ?_⟩
    · simpa using hexcluded
    · exact congrArg (Candidate.mk c.index c.spot) hdistance.symm

theorem nearestBy?_eq_none_iff :
    nearestBy? distance spots excluded = none ↔ ∀ index < spots.length, excluded index = true := by
  rw [nearestBy?_eq_best?, Option.map_eq_none_iff, best?_eq_none_iff,
    List.eq_nil_iff_forall_not_mem]
  constructor
  · intro h index hindex
    by_contra hexcluded
    refine h ⟨index, spots[index], distance spots[index]⟩ (mem_candidates.2 ⟨?_, ?_, rfl⟩)
    · exact List.getElem?_eq_getElem hindex
    · exact eq_false_of_ne_true hexcluded
  · intro h c hc
    obtain ⟨hat, hexcluded, _⟩ := mem_candidates.1 hc
    have hindex := (List.getElem?_eq_some_iff.1 hat).1
    rw [h c.index hindex] at hexcluded
    cases hexcluded

/-! ## The nearest spot -/

/-- The spot has its number in the story, and the search may choose it. -/
def Eligible (spots : List Spot) (excluded : Nat → Bool) (index : Nat) (s : Spot) : Prop :=
  spots[index]? = some s ∧ excluded index = false

/-- Every spot that the search may choose is at a defined distance. -/
def AllDefined (distance : Spot → Float) (spots : List Spot) (excluded : Nat → Bool) : Prop :=
  ∀ index s, Eligible spots excluded index s → (distance s).isNaN = false

/-- No eligible spot is nearer, and every eligible one in front is farther. -/
structure FirstNearest (distance : Spot → Float) (spots : List Spot) (excluded : Nat → Bool)
    (index : Nat) (s : Spot) : Prop where
  eligible : Eligible spots excluded index s
  least : ∀ j s', Eligible spots excluded j s' → distance s ≤ distance s'
  first : ∀ j s', j < index → Eligible spots excluded j s' → distance s < distance s'

theorem FirstNearest.unique {i j : Nat} {s t : Spot}
    (hs : FirstNearest distance spots excluded i s)
    (ht : FirstNearest distance spots excluded j t) : i = j ∧ s = t := by
  have hindex : i = j := by
    rcases Nat.lt_trichotomy i j with hlt | heq | hgt
    · exact absurd (ht.first i s hlt hs.eligible) (float_not_lt_of_le (hs.least j t ht.eligible))
    · exact heq
    · exact absurd (hs.first j t hgt ht.eligible) (float_not_lt_of_le (ht.least i s hs.eligible))
  subst hindex
  exact ⟨rfl, Option.some.inj (hs.eligible.1.symm.trans ht.eligible.1)⟩

theorem eligible_of_mem_candidates {c : Candidate} (hc : c ∈ candidates distance spots excluded) :
    Eligible spots excluded c.index c.spot ∧ c.distance = distance c.spot := by
  obtain ⟨hat, hexcluded, hdistance⟩ := mem_candidates.1 hc
  exact ⟨⟨hat, hexcluded⟩, hdistance⟩

theorem mem_candidates_of_eligible (distance : Spot → Float) {index : Nat} {s : Spot}
    (h : Eligible spots excluded index s) :
    ⟨index, s, distance s⟩ ∈ candidates distance spots excluded :=
  mem_candidates.2 ⟨h.1, h.2, rfl⟩

/-- Candidates come in the order of their numbers. -/
theorem candidates_ordered (distance : Spot → Float) (spots : List Spot)
    (excluded : Nat → Bool) :
    (candidates distance spots excluded).Pairwise fun a b => a.index < b.index := by
  have hnumbers : (spots.zipIdx.map Prod.snd).Pairwise (· < ·) := by
    rw [List.zipIdx_map_snd]
    exact List.pairwise_lt_range'
  rw [candidates, List.pairwise_map]
  exact (List.pairwise_map.1 hnumbers).filter _

theorem best?_of_nearestBy? {index : Nat} {s : Spot}
    (h : nearestBy? distance spots excluded = some (index, s)) :
    best? nearer (candidates distance spots excluded) = some ⟨index, s, distance s⟩ := by
  rw [nearestBy?_eq_best?, Option.map_eq_some_iff] at h
  obtain ⟨c, hbest, hc⟩ := h
  cases hc
  rw [hbest, ← (eligible_of_mem_candidates (keepsFirst_nearer.mem_of_best? hbest)).2]

theorem eligible_of_nearestBy? {index : Nat} {s : Spot}
    (h : nearestBy? distance spots excluded = some (index, s)) :
    Eligible spots excluded index s :=
  (eligible_of_mem_candidates (keepsFirst_nearer.mem_of_best? (best?_of_nearestBy? h))).1

/-- Where all distances are defined, the search finds the first least of them. -/
theorem firstNearest_of_nearestBy? (hdefined : AllDefined distance spots excluded) {index : Nat}
    {s : Spot} (h : nearestBy? distance spots excluded = some (index, s)) :
    FirstNearest distance spots excluded index s := by
  have heligible := eligible_of_nearestBy? h
  have htotal : ∀ a ∈ candidates distance spots excluded,
      ∀ b ∈ candidates distance spots excluded, a.AtMost b ∨ b.AtMost a := by
    intro a ha b hb
    obtain ⟨ha, hadistance⟩ := eligible_of_mem_candidates ha
    obtain ⟨hb, hbdistance⟩ := eligible_of_mem_candidates hb
    unfold Candidate.AtMost
    rw [hadistance, hbdistance]
    exact float_le_total (hdefined _ _ ha) (hdefined _ _ hb)
  have hleast := keepsFirst_nearer.isFirstLeast Candidate.AtMost.trans htotal
    (best?_of_nearestBy? h)
  refine ⟨heligible, fun j s' hs' => ?_, fun j s' hj hs' => ?_⟩
  · have hle : Candidate.AtMost ⟨index, s, distance s⟩ ⟨j, s', distance s'⟩ :=
      hleast.le_of_mem htotal _ (mem_candidates_of_eligible distance hs')
    exact hle
  · have hnot := hleast.not_le_of_before (candidates_ordered distance spots excluded)
      Nat.lt_asymm (mem_candidates_of_eligible distance hs') hj
    exact float_lt_of_not_le (hdefined _ _ heligible) (hdefined _ _ hs') hnot

/-- The search finds nothing where everything is excluded, and else the first nearest
spot, by its number in the story. -/
structure FindsFirstNearest (distance : Spot → Float) (spots : List Spot) (excluded : Nat → Bool)
    (found? : Option (Nat × Spot)) : Prop where
  none_iff : found? = none ↔ ∀ index < spots.length, excluded index = true
  some_iff : ∀ index s, found? = some (index, s) ↔ FirstNearest distance spots excluded index s

theorem findsFirstNearest_nearestBy? (hdefined : AllDefined distance spots excluded) :
    FindsFirstNearest distance spots excluded (nearestBy? distance spots excluded) where
  none_iff := nearestBy?_eq_none_iff
  some_iff index s := by
    constructor
    · exact firstNearest_of_nearestBy? hdefined
    · intro h
      cases hfound : nearestBy? distance spots excluded with
      | none =>
        have hlt : index < spots.length := (List.getElem?_eq_some_iff.1 h.eligible.1).1
        have hexcluded := nearestBy?_eq_none_iff.1 hfound index hlt
        rw [h.eligible.2] at hexcluded
        cases hexcluded
      | some found =>
        obtain ⟨hindex, hspot⟩ := (firstNearest_of_nearestBy? hdefined hfound).unique h
        rw [← hindex, ← hspot]

/-- On the globe and for any other distance, the spot that is found is the first
nearest one. -/
theorem first_nearest_is_found (spots : List Spot) (excluded : Nat → Bool) :
    (∀ position, AllDefined (fun s => haversine s.center position) spots excluded →
      FindsFirstNearest (fun s => haversine s.center position) spots excluded
        (nearest? spots position excluded)) ∧
    ∀ distance, AllDefined distance spots excluded →
      FindsFirstNearest distance spots excluded (nearestBy? distance spots excluded) :=
  ⟨fun _ hdefined => findsFirstNearest_nearestBy? hdefined,
    fun _ hdefined => findsFirstNearest_nearestBy? hdefined⟩

/-- A spot without circles, `degrees` to the north. -/
def Spot.north (degrees : Float) : Spot := Spot.of ⟨degrees, 0⟩ []

/-- With the nearest spot excluded, the earlier of two at the next distance is found. -/
theorem earlier_of_equals_is_found :
    let spots := [Spot.north 1, Spot.north 7, Spot.north 3, Spot.north 3]
    AllDefined (fun s => s.center.latitude) spots (· == 0) ∧
      FirstNearest (fun s => s.center.latitude) spots (· == 0) 2 (Spot.north 3) := by
  intro spots
  have hdefined : AllDefined (fun s => s.center.latitude) spots (· == 0) := by
    have hall : ∀ s ∈ spots, s.center.latitude.isNaN = false := by decide
    intro index s hs
    exact hall s (List.mem_of_getElem? hs.1)
  have hfinds := (first_nearest_is_found spots (· == 0)).2 _ hdefined
  exact ⟨hdefined, (hfinds.some_iff 2 (Spot.north 3)).1 rfl⟩

end AudioWalk
