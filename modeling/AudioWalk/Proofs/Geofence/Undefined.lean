import AudioWalk.Proofs.Geofence.Nearest

/-!
# Spots at an undefined distance

An undefined distance compares with none, so the search takes a spot at such a
distance in place of whatever it has found, and takes the next spot in place of
that one.  What it finds is then what it would find among the spots behind, and
the spots in front are hidden, however near they are.

`undefined_distance_hides_front` says all of it for whole searches: where the list
is cut, which spots can be hidden, and when the spot that is found is itself at an
undefined distance.  At the front of the list such a spot hides nothing.
-/

namespace AudioWalk

variable {distance : Spot → Float} {spots : List Spot} {excluded : Nat → Bool}

/-! ## Undefined distances -/

theorem not_float_le_of_isNaN {x y : Float} (h : x.isNaN = true ∨ y.isNaN = true) : ¬ x ≤ y := by
  intro hle
  obtain ⟨hx, hy, _⟩ := float_le_iff.1 hle
  rcases h with h | h
  · rw [hx] at h
    cases h
  · rw [hy] at h
    cases h

namespace Candidate

theorem atMost_self_iff {c : Candidate} : c.AtMost c ↔ c.distance.isNaN = false :=
  ⟨fun h => (float_le_iff.1 h).1, fun h => float_le_iff.2 ⟨h, h, le_rfl⟩⟩

theorem AtMost.self {a b : Candidate} (h : a.AtMost b) : a.AtMost a :=
  atMost_self_iff.2 (float_le_iff.1 h).1

theorem atMost_total {a b : Candidate} (ha : a.AtMost a) (hb : b.AtMost b) :
    a.AtMost b ∨ b.AtMost a :=
  float_le_total (atMost_self_iff.1 ha) (atMost_self_iff.1 hb)

end Candidate

/-! ## Candidates behind others -/

/-- The number a spot has where `n` more spots stand in front. -/
def behind (n : Nat) (found : Nat × Spot) : Nat × Spot := (n + found.1, found.2)

def Candidate.behind (n : Nat) (c : Candidate) : Candidate := { c with index := n + c.index }

theorem Candidate.distance_behind (n : Nat) (c : Candidate) :
    (c.behind n).distance = c.distance := rfl

/-- Candidates behind a spot have numbers from the next one on. -/
theorem candidates_append_cons {front back : List Spot} {s : Spot}
    (hs : excluded front.length = false) :
    candidates distance (front ++ s :: back) excluded =
      candidates distance front excluded ++ ⟨front.length, s, distance s⟩ ::
        (candidates distance back fun index => excluded (front.length + 1 + index)).map
          (Candidate.behind (front.length + 1)) := by
  have hkept : (!excluded front.length) = true := by rw [hs]; rfl
  rw [candidates, List.zipIdx_append, List.zipIdx_cons, Nat.zero_add, List.filter_append,
    List.filter_cons, if_pos hkept, List.zipIdx_eq_map_add (l := back), List.filter_map,
    List.map_append, List.map_cons, List.map_map, candidates, candidates, List.map_map]
  rfl

/-! ## What an undefined distance hides -/

/-- A spot at an undefined distance cuts the list: what is found is what the search
finds among the spots behind it, and the spot itself if that is nothing. -/
theorem nearestBy?_cut {front back : List Spot} {s : Spot} (hs : excluded front.length = false)
    (hundefined : (distance s).isNaN = true) :
    nearestBy? distance (front ++ s :: back) excluded =
      some (((nearestBy? distance back fun index => excluded (front.length + 1 + index)).map
        (behind (front.length + 1))).getD (front.length, s)) := by
  have hleft (c : Candidate) : ¬ Candidate.AtMost ⟨front.length, s, distance s⟩ c :=
    not_float_le_of_isNaN (Or.inl hundefined)
  have hright (c : Candidate) : ¬ c.AtMost ⟨front.length, s, distance s⟩ :=
    not_float_le_of_isNaN (Or.inr hundefined)
  rw [nearestBy?_eq_best?, candidates_append_cons hs, keepsFirst_nearer.best?_cut hleft hright,
    best?_nearer_map (Candidate.distance_behind _), nearestBy?_eq_best?]
  cases best? nearer (candidates distance back fun index =>
    excluded (front.length + 1 + index)) with
  | none => rfl
  | some c => rfl

/-- A spot that is not excluded is at least as far as the one that is found, or one at
an undefined distance stands behind it. -/
theorem le_or_undefined_behind {i j : Nat} {s s' : Spot}
    (hfound : nearestBy? distance spots excluded = some (i, s))
    (hs' : Eligible spots excluded j s') (hdefined : (distance s').isNaN = false) :
    distance s ≤ distance s' ∨
      ∃ k u, j < k ∧ Eligible spots excluded k u ∧ (distance u).isNaN = true := by
  have hbest := best?_of_nearestBy? hfound
  obtain ⟨front, back, hsplit⟩ :=
    List.append_of_mem (mem_candidates_of_eligible distance hs')
  have hordered := candidates_ordered distance spots excluded
  rw [hsplit] at hbest hordered
  have hself : Candidate.AtMost ⟨j, s', distance s'⟩ ⟨j, s', distance s'⟩ :=
    Candidate.atMost_self_iff.2 hdefined
  rcases keepsFirst_nearer.le_or_cut_behind Candidate.AtMost.trans Candidate.AtMost.self
    Candidate.atMost_total hself hbest with hle | ⟨z, hz, hcut⟩
  · exact Or.inl hle
  · have hmem : z ∈ candidates distance spots excluded := by
      rw [hsplit]
      exact List.mem_append_right _ (List.mem_cons_of_mem _ hz)
    obtain ⟨heligible, hz'⟩ := eligible_of_mem_candidates hmem
    refine Or.inr ⟨z.index, z.spot, ?_, heligible, ?_⟩
    · exact (List.pairwise_cons.1 (List.pairwise_append.1 hordered).2.1).1 z hz
    · rw [Candidate.atMost_self_iff, hz'] at hcut
      exact eq_true_of_ne_false hcut

theorem exists_split_of_eligible {k : Nat} {u : Spot} (h : Eligible spots excluded k u) :
    ∃ front back, spots = front ++ u :: back ∧ front.length = k := by
  obtain ⟨hk, hu⟩ := List.getElem?_eq_some_iff.1 h.1
  refine ⟨spots.take k, spots.drop (k + 1), ?_, List.length_take_of_le (Nat.le_of_lt hk)⟩
  rw [← hu, List.getElem_cons_drop, List.take_append_drop]

/-- Nothing in front of a spot at an undefined distance is found, and that spot itself
only where it is the last that is not excluded. -/
theorem index_le_of_undefined {i k : Nat} {s u : Spot}
    (hfound : nearestBy? distance spots excluded = some (i, s))
    (hu : Eligible spots excluded k u) (hundefined : (distance u).isNaN = true) :
    k ≤ i ∧ (i = k ↔ ∀ j s', Eligible spots excluded j s' → j ≤ k) := by
  have heligible := eligible_of_nearestBy? hfound
  obtain ⟨front, back, hsplit, hk⟩ := exists_split_of_eligible hu
  have hexcluded : excluded front.length = false := by
    rw [hk]
    exact hu.2
  rw [hsplit, nearestBy?_cut hexcluded hundefined, Option.some.injEq] at hfound
  cases hback : nearestBy? distance back fun index => excluded (front.length + 1 + index) with
  | none =>
    rw [hback] at hfound
    have hi : front.length = i := congrArg Prod.fst hfound
    refine ⟨by omega, iff_of_true (by omega) fun j s' hs' => ?_⟩
    by_contra hj
    obtain ⟨n, hn⟩ := Nat.exists_eq_add_of_lt (Nat.lt_of_not_le hj)
    have hplace : j = front.length + 1 + n := by omega
    have hlength : j < spots.length := (List.getElem?_eq_some_iff.1 hs'.1).1
    rw [hsplit, List.length_append, List.length_cons] at hlength
    have hall := nearestBy?_eq_none_iff.1 hback n (by omega)
    rw [← hplace, hs'.2] at hall
    cases hall
  | some found =>
    rw [hback] at hfound
    have hi : front.length + 1 + found.1 = i := congrArg Prod.fst hfound
    refine ⟨by omega, iff_of_false (by omega) fun hlast => ?_⟩
    have hle := hlast i s heligible
    omega

/-- How a search goes where distances may be undefined. -/
structure Hides (distance : Spot → Float) (spots : List Spot) (excluded : Nat → Bool)
    (found? : Option (Nat × Spot)) : Prop where
  /-- Only the spots behind one at an undefined distance are searched, and that one is
  found where all of them are excluded. -/
  cut : ∀ front s back, spots = front ++ s :: back → excluded front.length = false →
    (distance s).isNaN = true →
      found? = some (((nearestBy? distance back fun index =>
        excluded (front.length + 1 + index)).map (behind (front.length + 1))).getD
          (front.length, s))
  /-- Between a nearer spot and the one that is found stands one that hides it. -/
  hidden : ∀ i s, found? = some (i, s) → ∀ j s', Eligible spots excluded j s' →
    distance s' < distance s →
      ∃ k u, j < k ∧ k ≤ i ∧ Eligible spots excluded k u ∧ (distance u).isNaN = true
  /-- What is found is at an undefined distance where the last spot is. -/
  undefined_iff : ∀ i s, found? = some (i, s) →
    ((distance s).isNaN = true ↔ ∃ k u, Eligible spots excluded k u ∧
      (distance u).isNaN = true ∧ ∀ j s', Eligible spots excluded j s' → j ≤ k)

theorem hides_nearestBy? : Hides distance spots excluded (nearestBy? distance spots excluded) where
  cut front s back hsplit hexcluded hundefined := by
    rw [hsplit]
    exact nearestBy?_cut hexcluded hundefined
  hidden i s hfound j s' hs' hless := by
    obtain ⟨hdefined, _, _⟩ := float_lt_iff.1 hless
    rcases le_or_undefined_behind hfound hs' hdefined with hle | ⟨k, u, hjk, hu, hundefined⟩
    · exact absurd hless (float_not_lt_of_le hle)
    · exact ⟨k, u, hjk, (index_le_of_undefined hfound hu hundefined).1, hu, hundefined⟩
  undefined_iff i s hfound := by
    have heligible := eligible_of_nearestBy? hfound
    constructor
    · intro hundefined
      exact ⟨i, s, heligible, hundefined,
        (index_le_of_undefined hfound heligible hundefined).2.1 rfl⟩
    · intro ⟨k, u, hu, hundefined, hlast⟩
      have hi : i = k := (index_le_of_undefined hfound hu hundefined).2.2 hlast
      have hsame : some s = some u := by
        rw [← heligible.1, ← hu.1, hi]
      rw [Option.some.inj hsame]
      exact hundefined

/-- On the globe and for any other distance, a spot at an undefined distance hides the
spots in front of it and no others. -/
theorem undefined_distance_hides_front (spots : List Spot) (excluded : Nat → Bool) :
    (∀ position, Hides (fun s => haversine s.center position) spots excluded
      (nearest? spots position excluded)) ∧
    ∀ distance, Hides distance spots excluded (nearestBy? distance spots excluded) :=
  ⟨fun _ => hides_nearestBy?, fun _ => hides_nearestBy?⟩

/-- A spot at an undefined distance makes the search pass over the nearest spot, which
it finds without it. -/
theorem nearest_spot_hidden :
    let lost := Spot.north (0 / 0)
    (lost.center.latitude.isNaN = true ∧
      nearestBy? (fun s => s.center.latitude) [Spot.north 1, lost, Spot.north 5] (fun _ => false) =
        some (2, Spot.north 5)) ∧
    (Spot.north 1).center.latitude < (Spot.north 5).center.latitude ∧
      nearestBy? (fun s => s.center.latitude) [Spot.north 1, Spot.north 5] (fun _ => false) =
        some (0, Spot.north 1) :=
  ⟨⟨rfl, rfl⟩, by decide, rfl⟩

end AudioWalk
