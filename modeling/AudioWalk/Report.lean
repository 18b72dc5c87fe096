import AudioWalk.Effect
import AudioWalk.Json.Basic
import AudioWalk.Story.Basic

/-!
# Stories and effects as JSON

The objects that are printed for a story and for an effect, with their members
in the order in which they are printed.
-/

namespace AudioWalk

def Coordinate.toJson (c : Coordinate) : Json :=
  .record [("latitude", .ofFloat c.latitude), ("longitude", .ofFloat c.longitude)]

def Reading.toJson (r : Reading) : Json :=
  .record [("latitude", .ofFloat r.latitude), ("longitude", .ofFloat r.longitude),
    ("accuracy", .ofFloat32 r.accuracy)]

def Condition.toJson (c : Condition) : Json :=
  .record [("kind", .ofString "equals"), ("lhs", .ofString c.left), ("rhs", .ofString c.right)]

mutual

def Statement.toJson : Statement → Json
  | .assign name value =>
    .record [("kind", .ofString "assign"), ("variable", .ofString name),
      ("value", .ofInt value.toInt)]
  | .increment name delta =>
    .record [("kind", .ofString "increment"), ("variable", .ofString name),
      ("delta", .ofInt delta.toInt)]
  | .play clip text volume =>
    .record [("kind", .ofString "play"), ("clip", .ofString clip), ("text", .ofString text),
      ("volume", .ofFloat32 volume)]
  | .branch conditions whenTrue whenFalse =>
    .record [("kind", .ofString "if"), ("conditions", .ofList Condition.toJson conditions),
      ("then_branch", .array (Statement.allToJson whenTrue)),
      ("else_branch", .array (Statement.allToJson whenFalse))]
  | .ending => .record [("kind", .ofString "end")]

def Statement.allToJson : List Statement → List Json
  | [] => []
  | s :: ss => s.toJson :: Statement.allToJson ss

end

def Circle.toJson (c : Circle) : Json :=
  .record [("radius", .ofNat c.radius.toNat), ("title", .ofOption .ofString c.title?),
    ("statements", .ofList Statement.toJson c.statements), ("spot", .ofOption .ofNat c.spot?)]

def Spot.toJson (s : Spot) : Json :=
  .record [("coordinate", s.center.toJson), ("circles", .ofList Circle.toJson s.circles)]

def Story.toJson (s : Story) : Json :=
  .record [("title", .ofString s.title), ("folder", .ofString s.folder),
    ("intro_clip", .ofOption .ofString s.introClip?), ("intro_text", .ofString s.introText),
    ("init", .ofList Statement.toJson s.init), ("spots", .ofList Spot.toJson s.spots)]

def Effect.toJson : Effect → Json
  | displayText text =>
    .record [("effect", .ofString "display_text"), ("text", .ofString text)]
  | playRequest clip volume =>
    .record [("effect", .ofString "play_request"), ("clip", .ofString clip),
      ("volume", .ofFloat32 volume)]
  | endOfStory => .record [("effect", .ofString "end_of_story")]
  | firstFixAcquired => .record [("effect", .ofString "first_fix_acquired")]
  | nearestUntriggered spot? =>
    .record [("effect", .ofString "nearest_untriggered_spot"),
      ("spot", .ofOption Coordinate.toJson spot?)]

end AudioWalk
