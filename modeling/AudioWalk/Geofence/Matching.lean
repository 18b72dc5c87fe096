import AudioWalk.Geofence.Distance

/-!
# Matching a position

Which circle a position triggers, and which spot is nearest to it.  Both look at
positions through distances only, and comparisons are those of floating point
numbers: nothing is inside a circle at an undefined distance.
-/

namespace AudioWalk

/-- The radius of a circle in kilometres. -/
def Circle.reach (c : Circle) : Float := c.radius.toFloat / 1000.0

/-- Whether a position lies strictly inside a circle around a centre. -/
def Circle.contains (center : Coordinate) (c : Circle) (position : Coordinate) : Bool :=
  haversine position center < c.reach

/-- The smaller of two circles; the earlier one if neither is smaller. -/
def smaller (best? : Option Circle) (c : Circle) : Circle :=
  match best? with
  | some best => if c.radius < best.radius then c else best
  | none => c

/-- A smallest circle among those that hold a position, of the earliest spot that
has one.  `inside` says which circles of a spot do; the first of them is a
smallest one, since the circles of a spot are in order. -/
def triggeredBy? (inside : Spot → Circle → Bool) (spots : List Spot) : Option Circle :=
  spots.foldl (fun best? s =>
    match s.circles.find? (inside s) with
    | some c => some (smaller best? c)
    | none => best?) none

/-- The circle that a position triggers. -/
def triggered? (spots : List Spot) (position : Coordinate) : Option Circle :=
  triggeredBy? (fun s c => c.contains s.center position) spots

/-- A spot with its number in the story and its distance. -/
structure Candidate where
  index : Nat
  spot : Spot
  distance : Float

/-- The nearer of two candidates.  The earlier one stays if its distance is at
most that of the later one, so it gives way to an undefined distance, and an
undefined distance gives way to any. -/
def nearer (best? : Option Candidate) (c : Candidate) : Candidate :=
  match best? with
  | some best => if best.distance ≤ c.distance then best else c
  | none => c

/-- The nearest spot by some distance, among those that are not excluded by their
number. -/
def nearestBy? (distance : Spot → Float) (spots : List Spot) (excluded : Nat → Bool) :
    Option (Nat × Spot) :=
  let candidates := (spots.zipIdx.filter fun (_, index) => !excluded index).map
    fun (s, index) => (⟨index, s, distance s⟩ : Candidate)
  (candidates.foldl (fun best? c => some (nearer best? c)) none).map
    fun c => (c.index, c.spot)

/-- The spot whose centre is nearest to a position. -/
def nearest? (spots : List Spot) (position : Coordinate) (excluded : Nat → Bool) :
    Option (Nat × Spot) :=
  nearestBy? (fun s => haversine s.center position) spots excluded

end AudioWalk
