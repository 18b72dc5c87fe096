import AudioWalk.Proofs.Geofence.Nearest
import AudioWalk.Proofs.Geofence.Triggering

/-!
# Editing what a circle does

The search for a circle looks at centres and radii, and the search for a spot at
centres alone.  So the statements of one circle can be edited where it stands, and
a position finds the same circle, edited, and the same spot.
-/

namespace AudioWalk

/-! ## Circles, spots and stories -/

theorem map_modify_of_eq {α β : Type} {g : α → α} {k : α → β} (h : ∀ x, k (g x) = k x) (i : Nat)
    (xs : List α) : (xs.modify i g).map k = xs.map k := by
  refine List.ext_getElem? fun j => ?_
  rw [List.getElem?_map, List.getElem?_map, List.getElem?_modify]
  cases xs[j]? with
  | none => rfl
  | some x =>
    show some (k (if i = j then g x else x)) = some (k x)
    split
    · rw [h]
    · rfl

def Circle.edit (f : List Statement → List Statement) (c : Circle) : Circle :=
  { c with statements := f c.statements }

/-- Edits the circle in one place of a spot. -/
def Spot.edit (place : Nat) (f : List Statement → List Statement) (s : Spot) : Spot where
  center := s.center
  circles := s.circles.modify place (Circle.edit f)
  ordered := by
    have hradius : (s.circles.modify place (Circle.edit f)).map Circle.radius =
        s.circles.map Circle.radius :=
      map_modify_of_eq (g := Circle.edit f) (fun _ => rfl) place s.circles
    have hordered : (s.circles.map Circle.radius).Pairwise fun a b => decide (a ≤ b) = true :=
      List.pairwise_map.2 s.ordered
    rw [← hradius] at hordered
    exact List.pairwise_map.1 hordered

/-- Edits the circle in one place of one spot. -/
def Story.edit (number place : Nat) (f : List Statement → List Statement) (s : Story) : Story :=
  { s with spots := s.spots.modify number (Spot.edit place f) }

variable {f : List Statement → List Statement}

theorem modify_append_cons {α : Type} (g : α → α) (front : List α) (x : α) (back : List α) :
    (front ++ x :: back).modify front.length g = front ++ g x :: back :=
  List.modifyTailIdx_add (List.modifyHead g) 0 front (x :: back)

/-! ## The circle that a position triggers -/

theorem find?_edit {p : Circle → Bool} (hp : ∀ c, p (c.edit f) = p c) {circles : List Circle}
    {c : Circle} (hc : circles.find? p = some c) :
    ∃ place, circles[place]? = some c ∧
      (circles.modify place (Circle.edit f)).find? p = some (c.edit f) := by
  obtain ⟨hholds, front, back, hsplit, hfront⟩ := List.find?_eq_some_iff_append.1 hc
  refine ⟨front.length, by simp [hsplit],
    List.find?_eq_some_iff_append.2 ⟨?_, front, back, ?_, hfront⟩⟩
  · rw [hp]
    exact hholds
  · rw [hsplit, modify_append_cons]

/-- The circle that is found has a place in its spot, and edited there it is found
edited. -/
theorem triggeredBy?_edit {inside : Spot → Circle → Bool}
    (hcircle : ∀ s c, inside s (Circle.edit f c) = inside s c)
    (hspot : ∀ s place c, inside (Spot.edit place f s) c = inside s c) {spots : List Spot}
    {c : Circle} (hc : triggeredBy? inside spots = some c) :
    ∃ number s place, spots[number]? = some s ∧ s.circles[place]? = some c ∧
      triggeredBy? inside (spots.modify number (Spot.edit place f)) = some (c.edit f) := by
  obtain ⟨front, s, back, hspots, hs, hfront, hback⟩ := triggeredBy?_eq_some_iff.1 hc
  obtain ⟨place, hplace, hfound⟩ := find?_edit (hcircle s) hs
  refine ⟨front.length, s, place, by simp [hspots], hplace, triggeredBy?_eq_some_iff.2
    ⟨front, s.edit place f, back, by rw [hspots, modify_append_cons], ?_, hfront, hback⟩⟩
  rw [funext (hspot s place)]
  exact hfound

theorem triggered?_edit (f : List Statement → List Statement) {spots : List Spot}
    {position : Coordinate} {c : Circle} (hc : triggered? spots position = some c) :
    ∃ number s place, spots[number]? = some s ∧ s.circles[place]? = some c ∧
      triggered? (spots.modify number (Spot.edit place f)) position = some (c.edit f) :=
  triggeredBy?_edit (fun _ _ => rfl) (fun _ _ _ => rfl) hc

/-! ## The spot that is nearest -/

/-- A spot with nothing but its centre. -/
def Spot.bare (s : Spot) : Spot := ⟨s.center, [], .nil⟩

/-- The search sees a spot through its distance only. -/
theorem nearestBy?_map {distance : Spot → Float} {g : Spot → Spot}
    (hg : ∀ s, distance (g s) = distance s) (spots : List Spot) (excluded : Nat → Bool) :
    nearestBy? distance (spots.map g) excluded =
      (nearestBy? distance spots excluded).map fun (index, s) => (index, g s) := by
  let image (c : Candidate) : Candidate := { c with spot := g c.spot }
  have hcandidates : candidates distance (spots.map g) excluded =
      (candidates distance spots excluded).map image := by
    unfold candidates
    rw [List.zipIdx_map, List.filter_map, List.map_map, List.map_map]
    refine List.map_congr_left fun x _ => ?_
    exact congrArg (Candidate.mk x.2 (g x.1)) (hg x.1)
  rw [nearestBy?_eq_best?, nearestBy?_eq_best?, hcandidates,
    best?_nearer_map (f := image) (fun _ => rfl), Option.map_map, Option.map_map]
  rfl

theorem center_nearest?_edit (number place : Nat) (f : List Statement → List Statement)
    (spots : List Spot) (position : Coordinate) (excluded : Nat → Bool) :
    (nearest? (spots.modify number (Spot.edit place f)) position excluded).map
        (fun (_, s) => s.center) =
      (nearest? spots position excluded).map fun (_, s) => s.center := by
  have hbare (spots : List Spot) : (nearest? spots position excluded).map (fun (_, s) => s.center) =
      (nearest? (spots.map Spot.bare) position excluded).map fun (_, s) => s.center := by
    unfold nearest?
    rw [nearestBy?_map (g := Spot.bare) (fun _ => rfl), Option.map_map]
    rfl
  have hsame : (spots.modify number (Spot.edit place f)).map Spot.bare = spots.map Spot.bare :=
    map_modify_of_eq (g := Spot.edit place f) (fun _ => rfl) number spots
  rw [hbare, hsame, ← hbare]

end AudioWalk
