import AudioWalk.Story.Basic

/-!
# Distances on the globe

The great circle distance between two positions by the haversine formula, on a
sphere with the mean radius of the earth.
-/

namespace AudioWalk

/-- In kilometres. -/
def earthRadius : Float := 6371.0

/-- One degree, as an angle of the unit circle. -/
def radiansPerDegree : Float := 3.14159265358979323846264338327950288 / 180.0

def radians (degrees : Float) : Float := degrees * radiansPerDegree

def squared (x : Float) : Float := x * x

/-- The great circle distance in kilometres. -/
def haversine (a b : Coordinate) : Float :=
  let dLatitude := radians (b.latitude - a.latitude)
  let dLongitude := radians (b.longitude - a.longitude)
  let h := squared (dLatitude / 2.0).sin +
    squared (dLongitude / 2.0).sin * (radians a.latitude).cos * (radians b.latitude).cos
  earthRadius * (2.0 * Float.atan2 h.sqrt (1.0 - h).sqrt)

end AudioWalk
