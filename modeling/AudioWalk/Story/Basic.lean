/-!
# Stories

A story owns spots, a spot owns circles around its centre, and a circle owns the
statements that run when a walker enters it.  `Spot.of` puts the circles in the
order in which they are searched, and `Story.of` tells every circle which spot it
belongs to.  Nothing in a story changes while it is walked.
-/

namespace AudioWalk

/-- A position in degrees. -/
structure Coordinate where
  latitude : Float
  longitude : Float
deriving Repr

/-- A position as a receiver reports it.  The accuracy takes no part in
matching. -/
structure Reading where
  latitude : Float
  longitude : Float
  accuracy : Float32
deriving Repr

def Reading.coordinate (r : Reading) : Coordinate := ⟨r.latitude, r.longitude⟩

/-- Two operands that must be equal.  An operand is the name of a variable or an
integer, and which of the two is settled when the condition is tested. -/
structure Condition where
  left : String
  right : String
deriving DecidableEq, Repr

inductive Statement where
  | assign (name : String) (value : Int64)
  | increment (name : String) (delta : Int64)
  /-- Asks for a clip and shows its transcript, if it has one. -/
  | play (clip : String) (text : String) (volume : Float32)
  | branch (conditions : List Condition) (whenTrue whenFalse : List Statement)
  /-- Marks the end of the narrative. -/
  | ending
deriving Repr

/-- A circle with a radius in metres.  `spot?` is the place of its spot in the
story, once it is part of one. -/
structure Circle where
  radius : UInt32
  title? : Option String
  statements : List Statement
  spot? : Option Nat
deriving Repr

/-- Smaller circles come first. -/
def Circle.precedes (a b : Circle) : Bool := a.radius ≤ b.radius

/-- A centre with circles around it, the smallest first. -/
structure Spot where
  center : Coordinate
  circles : List Circle
  ordered : circles.Pairwise fun a b => a.precedes b
deriving Repr

/-- Circles of equal radius stay in the order in which they are given. -/
def Spot.of (center : Coordinate) (circles : List Circle) : Spot where
  center
  circles := circles.mergeSort Circle.precedes
  ordered := List.pairwise_mergeSort
    (fun a b c hab hbc => by
      simp only [Circle.precedes, decide_eq_true_eq] at *
      exact UInt32.le_trans hab hbc)
    (fun a b => by
      simp only [Circle.precedes, Bool.or_eq_true, decide_eq_true_eq]
      exact UInt32.le_total a.radius b.radius)
    circles

/-- The same spot as number `index` of a story. -/
def Spot.numbered (s : Spot) (index : Nat) : Spot where
  center := s.center
  circles := s.circles.map fun c => { c with spot? := some index }
  ordered := List.pairwise_map.2 s.ordered

structure Story where
  title : String
  /-- The folder a story was read from; its clips lie there. -/
  folder : String
  introClip? : Option String
  introText : String
  /-- Statements that run once, when the story starts. -/
  init : List Statement
  spots : List Spot
deriving Repr

/-- A story with its spots numbered in their order. -/
def Story.of (title folder : String) (introClip? : Option String) (introText : String)
    (init : List Statement) (spots : List Spot) : Story :=
  { title, folder, introClip?, introText, init
    spots := spots.mapIdx fun index s => s.numbered index }

/-- The spot that a circle of the story belongs to. -/
def Story.spotOf? (s : Story) (c : Circle) : Option Spot := c.spot?.bind fun i => s.spots[i]?

@[simp]
theorem Spot.circles_of (center : Coordinate) (circles : List Circle) :
    (Spot.of center circles).circles = circles.mergeSort Circle.precedes := rfl

@[simp]
theorem Spot.center_numbered (s : Spot) (index : Nat) : (s.numbered index).center = s.center := rfl

@[simp]
theorem Spot.circles_numbered (s : Spot) (index : Nat) :
    (s.numbered index).circles = s.circles.map fun c => { c with spot? := some index } := rfl

end AudioWalk
