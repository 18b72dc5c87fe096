import AudioWalk.Json.Access
import AudioWalk.Json.Reader
import AudioWalk.Story.Basic

/-!
# Recorded tracks

A track is a JSON array of readings.  A reading must have a position; its
accuracy is zero where it is not given.
-/

namespace AudioWalk

def Reading.ofJson? (j : Json) : Option Reading := do
  let members ← j.members? ["latitude", "longitude", "accuracy"]
  let latitude ← Json.required? members "latitude" Json.float?
  let longitude ← Json.required? members "longitude" Json.float?
  let accuracy ← Json.optional? members "accuracy" Json.float32? 0.0
  return { latitude, longitude, accuracy }

/-- Reads the text of a track. -/
def readTrack? (source : String) : Option (List Reading) := do
  let j ← Json.read? source
  let items ← j.list?
  items.mapM Reading.ofJson?

end AudioWalk
