import AudioWalk.Markup.Document
import AudioWalk.Settings
import AudioWalk.Story.OfMarkup

/-!
# Libraries

A library is a folder of story folders.  A story folder that is not empty holds
one story: the first file, in the order of names, with the extension of markup
files.  Loading is strict, where the first folder without a story ends it, or
lenient, where such folders are passed over.  Both are one loop, which asks what is
to become of such a folder.
-/

namespace AudioWalk

/-- Reads the markup of a story.  `folder` is kept in the story. -/
def Story.read (source folder : String) : Except Failure Story :=
  match Markup.read source with
  | .error fault => .error (.ofMarkupFault fault)
  | .ok root =>
    match Story.ofElement folder root with
    | .error fault => .error (.ofStoryFault fault)
    | .ok story => .ok story

structure Library where
  /-- The path of the folder that holds the story folders. -/
  storiesRoot : String
  stories : List Story

/-- A folder below the stories root, with what lies in it. -/
structure StoryFolder where
  name : String
  entries : List (String × Node)

namespace StoryFolder

/-- The folders among some entries that are not empty, in the order of names. -/
def among (entries : List (String × Node)) : List StoryFolder :=
  let folders := entries.filterMap fun (name, node) =>
    match node with
    | .folder (entry :: more) => some (⟨name, entry :: more⟩ : StoryFolder)
    | _ => none
  folders.mergeSort fun a b => a.name ≤ b.name

/-- The markup files of a folder, in the order of names. -/
def markupFiles (f : StoryFolder) (extension : String) : List (String × Node) :=
  let files := f.entries.filter fun (name, node) =>
    !node.isFolder && Path.extension? name = some extension
  files.mergeSort fun a b => a.1 ≤ b.1

/-- The story of a folder. -/
def story (f : StoryFolder) (extension : String) : Except Failure Story :=
  match f.markupFiles extension with
  | [] => .error (.missingStoryFile f.name)
  | (_, file) :: _ => do
    let source ← readText (some file)
    Story.read source f.name

end StoryFolder

namespace Library

/-- The stories of some folders, in their order.  `onError` is told of a folder without
one, and goes on or ends it all. -/
def collect (extension : String) (onError : String → Failure → Except Failure Unit) :
    List StoryFolder → Except Failure (List Story)
  | [] => .ok []
  | f :: rest =>
    match f.story extension with
    | .ok story => do return story :: (← collect extension onError rest)
    | .error cause => do
      onError f.name cause
      collect extension onError rest

/-- The failure comes with the folder in which it came up. -/
def abort (folder : String) (cause : Failure) : Except Failure Unit :=
  .error (.other s!"story `{folder}`: {cause.message}")

def skip (_folder : String) (_cause : Failure) : Except Failure Unit := .ok ()

/-- Loads a library whose root lies at the path `root`.  `at?` says what lies at
a path. -/
def loadWith (onError : String → Failure → Except Failure Unit) (at? : String → Option Node)
    (root : String) (settings : LibrarySettings) : Except Failure Library := do
  let storiesRoot := Path.join root settings.storiesFolder
  match (at? storiesRoot).bind Node.entries? with
  | none => throw (.unreadable "no such folder")
  | some entries =>
    let stories ← collect settings.markupExtension onError (StoryFolder.among entries)
    return { storiesRoot, stories }

/-- Every story; the first folder without one is a failure. -/
def load : (String → Option Node) → String → LibrarySettings → Except Failure Library :=
  loadWith abort

/-- The stories of the folders that have one. -/
def loadLenient : (String → Option Node) → String → LibrarySettings → Except Failure Library :=
  loadWith skip

def titles (l : Library) : List String := l.stories.map Story.title

/-- The first story with a title. -/
def find (l : Library) (title : String) : Except Failure Story :=
  match l.stories.find? fun s => s.title = title with
  | some story => .ok story
  | none => .error (.unknownStory title)

/-- Where a clip of a story lies. -/
def clipPath (l : Library) (s : Story) (clip : String) : String :=
  Path.join (Path.join l.storiesRoot s.folder) clip

end Library
end AudioWalk
