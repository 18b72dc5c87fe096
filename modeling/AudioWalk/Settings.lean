import AudioWalk.Failure
import AudioWalk.Files
import AudioWalk.Json.Access
import AudioWalk.Json.Reader

/-!
# Settings

What a host may set, as a JSON record of two records.  Whatever is not set keeps
its default, a whole section as well as a single value.
-/

namespace AudioWalk

structure SessionSettings where
  /-- Readings that must come before positions are matched. -/
  warmUpReadings : UInt32 := 5
deriving DecidableEq, Repr

structure LibrarySettings where
  /-- The folder, below the root of a library, that holds the stories. -/
  storiesFolder : String := "stories"
  /-- The extension of markup files. -/
  markupExtension : String := "xml"
deriving DecidableEq, Repr

structure Settings where
  session : SessionSettings := {}
  library : LibrarySettings := {}
deriving DecidableEq, Repr

def SessionSettings.ofJson? (j : Json) : Option SessionSettings := do
  let members ← j.members? ["warm_up_readings"]
  let defaults : SessionSettings := {}
  let warmUpReadings ←
    Json.optional? members "warm_up_readings" Json.uint32? defaults.warmUpReadings
  return { warmUpReadings }

def LibrarySettings.ofJson? (j : Json) : Option LibrarySettings := do
  let members ← j.members? ["stories_dir", "markup_extension"]
  let defaults : LibrarySettings := {}
  let storiesFolder ← Json.optional? members "stories_dir" Json.string? defaults.storiesFolder
  let markupExtension ←
    Json.optional? members "markup_extension" Json.string? defaults.markupExtension
  return { storiesFolder, markupExtension }

def SessionSettings.toJson (s : SessionSettings) : Json :=
  .record [("warm_up_readings", .ofNat s.warmUpReadings.toNat)]

def LibrarySettings.toJson (s : LibrarySettings) : Json :=
  .record [("stories_dir", .ofString s.storiesFolder),
    ("markup_extension", .ofString s.markupExtension)]

namespace Settings

/-- All settings, those that have their defaults included. -/
def toJson (s : Settings) : Json :=
  .record [("session", s.session.toJson), ("library", s.library.toJson)]

def ofJson? (j : Json) : Option Settings := do
  let members ← j.members? ["session", "library"]
  let session ← Json.optional? members "session" SessionSettings.ofJson? {}
  let library ← Json.optional? members "library" LibrarySettings.ofJson? {}
  return { session, library }

/-- Reads the text of a settings file. -/
def read (source : String) : Except Failure Settings :=
  match (Json.read? source).bind ofJson? with
  | some settings => .ok settings
  | none => .error .invalidSettings

end Settings

/-- The text of a file that must be there.  There is no more to say about a file
that cannot be opened, and one thing about a file that is no text. -/
def readText : Option Node → Except Failure String
  | some (.file bytes) =>
    match String.fromUTF8? bytes with
    | some text => .ok text
    | none => .error (.unreadable "stream did not contain valid UTF-8")
  | _ => .error (.unreadable "no such file")

/-- The settings in a file. -/
def Settings.load (file? : Option Node) : Except Failure Settings := do
  let source ← readText file?
  Settings.read source

end AudioWalk
