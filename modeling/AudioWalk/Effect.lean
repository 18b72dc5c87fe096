import AudioWalk.Story.Basic

/-!
# Effects

What a session tells its host, in the order in which it happens.
-/

namespace AudioWalk

inductive Effect where
  | displayText (text : String)
  | playRequest (clip : String) (volume : Float32)
  | endOfStory
  | firstFixAcquired
  /-- The centre of the closest spot that has not been visited, if there is one. -/
  | nearestUntriggered (spot? : Option Coordinate)
deriving Repr

namespace Effect

def isEndOfStory : Effect → Bool
  | endOfStory => true
  | _ => false

/-- The clip and volume of a request. -/
def request? : Effect → Option (String × Float32)
  | playRequest clip volume => some (clip, volume)
  | _ => none

/-- The requests among some effects, in their order. -/
def requests (effects : List Effect) : List (String × Float32) := effects.filterMap request?

@[simp]
theorem requests_nil : requests [] = [] := rfl

@[simp]
theorem requests_append (es fs : List Effect) : requests (es ++ fs) = requests es ++ requests fs :=
  List.filterMap_append

end Effect
end AudioWalk
