import AudioWalk.Geofence.Matching
import AudioWalk.Proofs.Geofence.Least
import AudioWalk.Proofs.Story.Lowering

/-!
# Which circle a position triggers

The search for a circle stops at the first circle of a spot that holds the
position, and keeps the best of the spots.  Against the exhaustive reference, in
which every circle of every spot is looked at (`Holds`) and the least of those
that hold the position is taken in the order of `Placed.le`, it makes no
difference: the circles of a spot are sorted, the sort is stable, and the number
that a circle has in its story leads back to its spot.

Nothing is asked of distances.  An undefined one holds no position.
-/

namespace AudioWalk

/-! ## The reference -/

/-- A circle with the number of its spot, and its number among the circles that
were given for that spot. -/
structure Placed where
  circle : Circle
  spot : Nat
  place : Nat

/-- By radius, then by spot, then by place. -/
def Placed.le (a b : Placed) : Prop :=
  a.circle.radius < b.circle.radius ∨ a.circle.radius = b.circle.radius ∧
    (a.spot < b.spot ∨ a.spot = b.spot ∧ a.place ≤ b.place)

/-- The circle stands in its place among those given for each centre, and the
position lies inside it. -/
def Holds (inside : Coordinate → Circle → Bool) (given : List (Coordinate × List Circle))
    (x : Placed) : Prop :=
  ∃ center circles, given[x.spot]? = some (center, circles) ∧
    circles[x.place]? = some x.circle ∧ inside center x.circle = true

/-- What the reference finds: nothing if no circle holds the position, else the
least circle that does, with the number of its spot. -/
structure IsTriggered (inside : Coordinate → Circle → Bool)
    (given : List (Coordinate × List Circle)) (story : Story) (found? : Option Circle) : Prop where
  none_iff : found? = none ↔ ∀ x, ¬ Holds inside given x
  least : ∀ c, found? = some c → ∃ x s, Holds inside given x ∧
    (∀ y, Holds inside given y → x.le y) ∧ c = { x.circle with spot? := some x.spot } ∧
      story.spots[x.spot]? = some s ∧ c ∈ s.circles ∧ inside s.center c = true ∧
        story.spotOf? c = some s

/-! ## One spot -/

/-- The first circle of a spot that holds a position is the smallest one, and of
several such the one given first. -/
theorem least_of_find? {p : Circle → Bool} {given sorted : List Circle}
    (hsorted : Story.StablySorted given sorted) {c : Circle} (hc : sorted.find? p = some c) :
    p c = true ∧ ∃ place, given[place]? = some c ∧ ∀ (place' : Nat) c', given[place']? = some c' →
      p c' = true → c.radius < c'.radius ∨ c.radius = c'.radius ∧ place ≤ place' := by
  obtain ⟨hp, front, back, hsplit, hfront⟩ := List.find?_eq_some_iff_append.1 hc
  have hradius : ∀ c' ∈ given, p c' = true → c.radius ≤ c'.radius := by
    intro c' hc' hp'
    have hmem := hsorted.perm.mem_iff.2 hc'
    have hordered := hsorted.ordered
    rw [hsplit] at hmem hordered
    rcases List.mem_append.1 hmem with hmem | hmem
    · have hnot := hfront c' hmem
      rw [hp'] at hnot
      cases hnot
    · rcases List.mem_cons.1 hmem with hmem | hmem
      · rw [hmem]
        exact UInt32.le_rfl
      · exact (List.pairwise_cons.1 (List.pairwise_append.1 hordered).2.1).1 c' hmem
  -- Among the circles of that radius the order is the one in which they were given.
  have hsame : (sorted.filter fun a => a.radius = c.radius).find? p = some c := by
    rw [List.find?_filter, List.find?_eq_some_iff_append]
    refine ⟨by simpa using hp, front, back, hsplit, fun a ha => ?_⟩
    have hnot := hfront a ha
    simp only [Bool.not_eq_eq_eq_not, Bool.not_true] at hnot
    simp [hnot]
  rw [hsorted.stable c.radius, List.find?_filter, List.find?_eq_some_iff_getElem] at hsame
  obtain ⟨_, place, hplace, hat, hbefore⟩ := hsame
  refine ⟨hp, place, List.getElem?_eq_some_iff.2 ⟨hplace, hat⟩, fun place' c' hat' hp' => ?_⟩
  have hle := hradius c' (List.mem_of_getElem? hat') hp'
  rcases UInt32.lt_or_eq_of_le hle with hlt | heq
  · exact Or.inl hlt
  · refine Or.inr ⟨heq, Nat.le_of_not_lt fun hlt => ?_⟩
    have hnot := hbefore place' hlt
    rw [(List.getElem?_eq_some_iff.1 hat').2] at hnot
    simp [heq, hp'] at hnot

/-- A spot with a circle that holds the position puts forward a circle that is not
greater. -/
theorem exists_find?_of_mem {p : Circle → Bool} {given sorted : List Circle}
    (hsorted : Story.StablySorted given sorted) {c : Circle} (hc : c ∈ given) (hp : p c = true) :
    ∃ c', sorted.find? p = some c' ∧ c'.radius ≤ c.radius := by
  have hsome : (sorted.find? p).isSome := by
    rw [List.find?_isSome]
    exact ⟨c, hsorted.perm.mem_iff.2 hc, hp⟩
  obtain ⟨c', hc'⟩ := Option.isSome_iff_exists.1 hsome
  obtain ⟨_, _, _, hleast⟩ := least_of_find? hsorted hc'
  obtain ⟨place, hplace⟩ := List.mem_iff_getElem?.1 hc
  refine ⟨c', hc', ?_⟩
  rcases hleast place c hplace hp with hlt | ⟨heq, _⟩
  · exact UInt32.le_of_lt hlt
  · exact UInt32.le_of_eq heq

/-! ## All spots -/

theorem keepsFirst_smaller : KeepsFirst (fun a b : Circle => a.radius ≤ b.radius) smaller where
  none _ := rfl
  kept hle := if_neg (UInt32.not_lt.2 hle)
  replaced hle := if_pos (UInt32.not_le.1 hle)

theorem triggeredBy?_eq_best? (inside : Spot → Circle → Bool) (spots : List Spot) :
    triggeredBy? inside spots =
      best? smaller (spots.filterMap fun s => s.circles.find? (inside s)) := by
  rw [best?, List.foldl_filterMap, triggeredBy?]
  congr 1
  funext found? s
  cases s.circles.find? (inside s) with
  | none => rfl
  | some c => rfl

theorem triggeredBy?_eq_none_iff {inside : Spot → Circle → Bool} {spots : List Spot} :
    triggeredBy? inside spots = none ↔ ∀ s ∈ spots, ∀ c ∈ s.circles, ¬ inside s c = true := by
  rw [triggeredBy?_eq_best?, best?_eq_none_iff, List.filterMap_eq_nil_iff]
  simp only [List.find?_eq_none]

/-- Of the circles that the spots put forward, the smallest one is found, and of
several such the one of the first spot. -/
theorem triggeredBy?_eq_some_iff {inside : Spot → Circle → Bool} {spots : List Spot} {c : Circle} :
    triggeredBy? inside spots = some c ↔ ∃ front s back, spots = front ++ s :: back ∧
      s.circles.find? (inside s) = some c ∧
      (∀ s' ∈ front, ∀ c', s'.circles.find? (inside s') = some c' → c.radius < c'.radius) ∧
      ∀ s' ∈ back, ∀ c', s'.circles.find? (inside s') = some c' → c.radius ≤ c'.radius := by
  rw [triggeredBy?_eq_best?]
  constructor
  · intro hc
    obtain ⟨before, after, hsplit, hbefore, hafter⟩ := keepsFirst_smaller.isFirstLeast
      UInt32.le_trans (fun a _ b _ => UInt32.le_total a.radius b.radius) hc
    obtain ⟨front, rest, hspots, hfront, hrest⟩ := List.filterMap_eq_append_iff.1 hsplit
    obtain ⟨skipped, s, back, hrest', hskipped, hs, hback⟩ := List.filterMap_eq_cons_iff.1 hrest
    refine ⟨front ++ skipped, s, back, ?_, hs, fun s' hs' c' hc' => ?_, fun s' hs' c' hc' => ?_⟩
    · rw [hspots, hrest', List.append_assoc]
    · have hmem : s' ∈ front := by
        refine (List.mem_append.1 hs').resolve_right fun hmem => ?_
        rw [hskipped s' hmem] at hc'
        cases hc'
      rw [← hfront] at hbefore
      exact UInt32.not_le.1 (hbefore c' (List.mem_filterMap.2 ⟨s', hmem, hc'⟩))
    · rw [← hback] at hafter
      exact hafter c' (List.mem_filterMap.2 ⟨s', hs', hc'⟩)
  · intro ⟨front, s, back, hspots, hs, hfront, hback⟩
    have hcons : (s :: back).filterMap (fun s => s.circles.find? (inside s)) =
        c :: back.filterMap fun s => s.circles.find? (inside s) := List.filterMap_cons_some hs
    apply keepsFirst_smaller.best?_of_isFirstLeast
    rw [hspots, List.filterMap_append, hcons]
    refine ⟨_, _, rfl, fun c' hc' => ?_, fun c' hc' => ?_⟩
    · obtain ⟨s', hs', hfind⟩ := List.mem_filterMap.1 hc'
      exact UInt32.not_le.2 (hfront s' hs' c' hfind)
    · obtain ⟨s', hs', hfind⟩ := List.mem_filterMap.1 hc'
      exact hback s' hs' c' hfind

/-- The same by the numbers of the spots. -/
theorem exists_of_triggeredBy? {inside : Spot → Circle → Bool} {spots : List Spot} {c : Circle}
    (hc : triggeredBy? inside spots = some c) :
    ∃ number s, spots[number]? = some s ∧ s.circles.find? (inside s) = some c ∧
      ∀ (number' : Nat) s' c', spots[number']? = some s' → s'.circles.find? (inside s') = some c' →
        c.radius < c'.radius ∨ c.radius = c'.radius ∧ number ≤ number' := by
  obtain ⟨front, s, back, hspots, hs, hfront, hback⟩ := triggeredBy?_eq_some_iff.1 hc
  refine ⟨front.length, s, by simp [hspots], hs, fun number' s' c' hs' hc' => ?_⟩
  rw [hspots] at hs'
  rcases Nat.lt_or_ge number' front.length with hlt | hge
  · rw [List.getElem?_append_left hlt] at hs'
    exact Or.inl (hfront s' (List.mem_of_getElem? hs') c' hc')
  · rw [List.getElem?_append_right hge] at hs'
    have hle : c.radius ≤ c'.radius := by
      rcases List.mem_cons.1 (List.mem_of_getElem? hs') with hmem | hmem
      · rw [hmem, hs] at hc'
        rw [Option.some.inj hc']
        exact UInt32.le_rfl
      · exact hback s' hmem c' hc'
    rcases UInt32.lt_or_eq_of_le hle with hlt | heq
    · exact Or.inl hlt
    · exact Or.inr ⟨heq, hge⟩

/-! ## The story -/

/-- The spots of a story for which circles were given around centres. -/
def spotsOf (given : List (Coordinate × List Circle)) : List Spot :=
  (given.map fun g => Spot.of g.1 g.2).mapIdx fun index s => s.numbered index

theorem spotsOf_eq_some {given : List (Coordinate × List Circle)} {number : Nat} {s : Spot} :
    (spotsOf given)[number]? = some s ↔
      ∃ center circles, given[number]? = some (center, circles) ∧
        s = (Spot.of center circles).numbered number := by
  rw [spotsOf, List.getElem?_mapIdx, List.getElem?_map]
  cases given[number]? with
  | none => simp
  | some g =>
    simp only [Option.map_some, Option.some.injEq]
    constructor
    · intro hs
      exact ⟨g.1, g.2, rfl, hs.symm⟩
    · intro ⟨center, circles, hg, hs⟩
      rw [hg, hs]

theorem mem_circles_numbered {center : Coordinate} {circles : List Circle} {number : Nat}
    {c : Circle} :
    c ∈ ((Spot.of center circles).numbered number).circles ↔
      ∃ (place : Nat) (c₀ : Circle), circles[place]? = some c₀ ∧
        c = { c₀ with spot? := some number } := by
  rw [Spot.circles_numbered, Spot.circles_of, List.mem_map]
  constructor
  · intro ⟨c₀, hc₀, hc⟩
    obtain ⟨place, hplace⟩ := List.mem_iff_getElem?.1 ((List.mergeSort_perm _ _).mem_iff.1 hc₀)
    exact ⟨place, c₀, hplace, hc.symm⟩
  · intro ⟨place, c₀, hplace, hc⟩
    exact ⟨c₀, (List.mergeSort_perm _ _).mem_iff.2 (List.mem_of_getElem? hplace), hc.symm⟩

/-- Whether a position lies inside a circle has nothing to do with the number that
the circle gets in a story. -/
def Unnumbered (inside : Coordinate → Circle → Bool) : Prop :=
  ∀ center c spot?, inside center { c with spot? } = inside center c

variable {inside : Coordinate → Circle → Bool} {given : List (Coordinate × List Circle)}
  {story : Story}

theorem find?_numbered (hinside : Unnumbered inside) (s : Spot) (number : Nat) :
    (s.numbered number).circles.find? (inside (s.numbered number).center) =
      (s.circles.find? (inside s.center)).map fun c => { c with spot? := some number } := by
  rw [Spot.circles_numbered, Spot.center_numbered, List.find?_map]
  congr 2
  funext c
  exact hinside s.center c _

/-- The circle that a spot puts forward is the least of those given for it that
hold the position. -/
theorem exists_placed_of_find? (hinside : Unnumbered inside) {number : Nat} {s : Spot} {c : Circle}
    (hs : (spotsOf given)[number]? = some s) (hc : s.circles.find? (inside s.center) = some c) :
    ∃ x, x.spot = number ∧ Holds inside given x ∧ c = { x.circle with spot? := some number } ∧
      ∀ y, Holds inside given y → y.spot = number → x.le y := by
  obtain ⟨center, circles, hgiven, hnumbered⟩ := spotsOf_eq_some.1 hs
  rw [hnumbered, find?_numbered hinside, Option.map_eq_some_iff] at hc
  obtain ⟨c₀, hfind, hc₀⟩ := hc
  obtain ⟨hholds, place, hplace, hfirst⟩ :=
    least_of_find? (Story.stablySorted_mergeSort circles) hfind
  refine ⟨⟨c₀, number, place⟩, rfl, ⟨center, circles, hgiven, hplace, hholds⟩, hc₀.symm, ?_⟩
  intro y ⟨center', circles', hgiven', hplace', hholds'⟩ hspot
  rw [hspot, hgiven] at hgiven'
  cases hgiven'
  exact (hfirst y.place y.circle hplace' hholds').imp_right fun ⟨heq, hle⟩ =>
    ⟨heq, Or.inr ⟨hspot.symm, hle⟩⟩

/-- The spot of a circle that holds the position puts forward a circle that is not
greater. -/
theorem exists_find?_of_holds (hinside : Unnumbered inside) {y : Placed}
    (hy : Holds inside given y) :
    ∃ s c, (spotsOf given)[y.spot]? = some s ∧ s.circles.find? (inside s.center) = some c ∧
      c.radius ≤ y.circle.radius := by
  obtain ⟨center, circles, hgiven, hplace, hholds⟩ := hy
  obtain ⟨c, hfind, hle⟩ := exists_find?_of_mem (Story.stablySorted_mergeSort circles)
    (List.mem_of_getElem? hplace) hholds
  have hfound := find?_numbered hinside (Spot.of center circles) y.spot
  have hcenter : (Spot.of center circles).center = center := rfl
  rw [hcenter, Spot.circles_of, hfind, Option.map_some] at hfound
  exact ⟨_, _, spotsOf_eq_some.2 ⟨center, circles, hgiven, rfl⟩, hfound, hle⟩

theorem isTriggered_triggeredBy? (hinside : Unnumbered inside)
    (hstory : story.spots = spotsOf given) :
    IsTriggered inside given story (triggeredBy? (fun s => inside s.center) story.spots) where
  none_iff := by
    rw [hstory, triggeredBy?_eq_none_iff]
    constructor
    · intro h x ⟨center, circles, hgiven, hplace, hholds⟩
      have hspot := spotsOf_eq_some.2 ⟨center, circles, hgiven, rfl⟩
      refine h _ (List.mem_of_getElem? hspot) _ (mem_circles_numbered.2 ⟨_, _, hplace, rfl⟩) ?_
      exact (hinside center x.circle _).trans hholds
    · intro h s hs c hc hholds
      obtain ⟨number, hnumber⟩ := List.mem_iff_getElem?.1 hs
      obtain ⟨center, circles, hgiven, hs⟩ := spotsOf_eq_some.1 hnumber
      rw [hs] at hc hholds
      obtain ⟨place, c₀, hplace, hc⟩ := mem_circles_numbered.1 hc
      rw [hc] at hholds
      exact h ⟨c₀, number, place⟩
        ⟨center, circles, hgiven, hplace, (hinside center c₀ _).symm.trans hholds⟩
  least := by
    intro c hc
    rw [hstory] at hc ⊢
    obtain ⟨number, s, hnumber, hfind, hleast⟩ := exists_of_triggeredBy? hc
    obtain ⟨x, hspot, hholds, hcx, hsame⟩ := exists_placed_of_find? hinside hnumber hfind
    have hspotOf : story.spotOf? c = some s := by
      rw [Story.spotOf?, hcx, hstory]
      exact hnumber
    refine ⟨x, s, hholds, fun y hy => ?_, by rw [hspot, hcx], by rw [hspot, hnumber],
      List.mem_of_find?_eq_some hfind, List.find?_some hfind, hspotOf⟩
    by_cases hy' : y.spot = number
    · exact hsame y hy hy'
    · obtain ⟨s', c', hs', hfind', hle⟩ := exists_find?_of_holds hinside hy
      have hradius : c.radius = x.circle.radius := by rw [hcx]
      rw [hradius] at hleast
      rcases hleast y.spot s' c' hs' hfind' with hlt | ⟨heq, hle'⟩
      · exact Or.inl (UInt32.lt_of_lt_of_le hlt hle)
      · have hbehind : x.spot < y.spot := by omega
        rcases UInt32.lt_or_eq_of_le hle with hless | heq'
        · exact Or.inl (UInt32.lt_of_le_of_lt (UInt32.le_of_eq heq) hless)
        · exact Or.inr ⟨heq.trans heq', Or.inl hbehind⟩

/-- The circle that a position triggers is what the reference finds, for the
distances of the globe and for any others. -/
theorem triggered_circle_isLeast (title folder : String) (introClip? : Option String)
    (introText : String) (init : List Statement) (given : List (Coordinate × List Circle))
    (position : Coordinate) :
    let story := Story.of title folder introClip? introText init
      (given.map fun g => Spot.of g.1 g.2)
    IsTriggered (fun center c => c.contains center position) given story
        (triggered? story.spots position) ∧
      ∀ distance : Coordinate → Coordinate → Float,
        IsTriggered (fun center c => distance position center < c.reach) given story
          (triggeredBy? (fun s c => distance position s.center < c.reach) story.spots) := by
  intro story
  have hstory : story.spots = spotsOf given := rfl
  have hany : ∀ distance : Coordinate → Coordinate → Float,
      IsTriggered (fun center c => distance position center < c.reach) given story
        (triggeredBy? (fun s c => distance position s.center < c.reach) story.spots) :=
    fun _ => isTriggered_triggeredBy? (fun _ _ _ => rfl) hstory
  exact ⟨hany haversine, hany⟩

end AudioWalk
