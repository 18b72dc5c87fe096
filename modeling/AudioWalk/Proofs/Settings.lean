import AudioWalk.Settings
import AudioWalk.Proofs.Json.Printing
import AudioWalk.Proofs.Json.Records
import AudioWalk.Proofs.Library.Folders

/-!
# Settings field by field

A settings file gives some of the settings: whole sections, parts of them or nothing.  Each
field that is given is read, in whatever spelling it is written and whatever stands around
it, and each that is not has its default; a section that is not given is as one that gives
nothing.
-/

namespace AudioWalk

open Json (Gives MeansWhole MeansText)

structure SessionSettings.Given where
  warmUpReadings? : Option UInt32 := none

structure LibrarySettings.Given where
  storiesFolder? : Option String := none
  markupExtension? : Option String := none

/-- What a settings file gives. -/
structure Settings.Given where
  session? : Option SessionSettings.Given := none
  library? : Option LibrarySettings.Given := none

/-! ## What is given and what is not -/

def SessionSettings.Given.settings (g : Given) : SessionSettings where
  warmUpReadings := g.warmUpReadings?.getD 5

def LibrarySettings.Given.settings (g : Given) : LibrarySettings where
  storiesFolder := g.storiesFolder?.getD "stories"
  markupExtension := g.markupExtension?.getD "xml"

def Settings.Given.settings (g : Given) : Settings where
  session := (g.session?.getD {}).settings
  library := (g.library?.getD {}).settings

def Settings.Given.all (s : Settings) : Given where
  session? := some { warmUpReadings? := some s.session.warmUpReadings }
  library? := some {
    storiesFolder? := some s.library.storiesFolder
    markupExtension? := some s.library.markupExtension }

/-! ## Values -/

inductive SessionSettings.IsSection : Json → Given → Prop
  | record {members : List (String × Json)} {g : Given}
    (hreadings : Gives MeansWhole members "warm_up_readings" g.warmUpReadings?) :
    IsSection (.record members) g

inductive LibrarySettings.IsSection : Json → Given → Prop
  | record {members : List (String × Json)} {g : Given}
    (hfolder : Gives MeansText members "stories_dir" g.storiesFolder?)
    (hextension : Gives MeansText members "markup_extension" g.markupExtension?) :
    IsSection (.record members) g

/-- The members that no section and no field are named after may be anything. -/
inductive Settings.IsSettings : Json → Given → Prop
  | record {members : List (String × Json)} {g : Given}
    (hsession : Gives SessionSettings.IsSection members "session" g.session?)
    (hlibrary : Gives LibrarySettings.IsSection members "library" g.library?) :
    IsSettings (.record members) g

/-! ## Reading them -/

theorem SessionSettings.ofJson?_of_isSection {j : Json} {g : Given} (h : IsSection j g) :
    ofJson? j = some g.settings := by
  cases h with
  | record hreadings =>
    have hmembers := Json.members?_record (List.forall_mem_singleton.2 hreadings.count_le)
    simp only [ofJson?, hmembers,
      (hreadings.known (List.mem_singleton_self _)).optional? MeansWhole.uint32?,
      Option.bind_eq_bind, Option.bind_some, Option.map_id', Option.pure_def,
      Given.settings]

theorem LibrarySettings.ofJson?_of_isSection {j : Json} {g : Given} (h : IsSection j g) :
    ofJson? j = some g.settings := by
  cases h with
  | record hfolder hextension =>
    have hmembers := Json.members?_record (List.forall_mem_cons.2
      ⟨hfolder.count_le, List.forall_mem_singleton.2 hextension.count_le⟩)
    simp only [ofJson?, hmembers,
      (hfolder.known (List.mem_pair.2 (Or.inl rfl))).optional? MeansText.string?,
      (hextension.known (List.mem_pair.2 (Or.inr rfl))).optional? MeansText.string?,
      Option.bind_eq_bind, Option.bind_some, Option.map_id', Option.pure_def,
      Given.settings]

theorem Settings.ofJson?_of_isSettings {j : Json} {g : Given} (h : IsSettings j g) :
    ofJson? j = some g.settings := by
  cases h with
  | record hsession hlibrary =>
    have hmembers := Json.members?_record (List.forall_mem_cons.2
      ⟨hsession.count_le, List.forall_mem_singleton.2 hlibrary.count_le⟩)
    have hsettings : g.settings = ⟨(g.session?.map SessionSettings.Given.settings).getD {},
        (g.library?.map LibrarySettings.Given.settings).getD {}⟩ := by
      obtain ⟨session?, library?⟩ := g
      cases session? <;> cases library? <;> rfl
    simp only [ofJson?, hmembers,
      (hsession.known (List.mem_pair.2 (Or.inl rfl))).optional?
        SessionSettings.ofJson?_of_isSection,
      (hlibrary.known (List.mem_pair.2 (Or.inr rfl))).optional?
        LibrarySettings.ofJson?_of_isSection,
      Option.bind_eq_bind, Option.bind_some, Option.pure_def, hsettings]

theorem Settings.load_of_isSettings {source : String} {j : Json} {g : Given}
    (htext : Json.IsText source.toList j) (h : IsSettings j g) :
    load (some (.file source.toUTF8)) = .ok g.settings := by
  have hread : read source = .ok g.settings := by
    rw [read, Json.read?_of_isText htext, Option.bind_some, ofJson?_of_isSettings h]
  exact bind_eq_ok.2 ⟨source, readText_toUTF8 source, hread⟩

/-! ## Settings written and read back -/

theorem SessionSettings.isSection_toJson (s : SessionSettings) :
    IsSection s.toJson ⟨some s.warmUpReadings⟩ :=
  .record (.first (.digits (Decimal.value_digitsOf _)) (List.forall_mem_nil _))

theorem LibrarySettings.isSection_toJson (s : LibrarySettings) :
    IsSection s.toJson ⟨some s.storiesFolder, some s.markupExtension⟩ :=
  .record (.first (.characters _) (List.forall_mem_singleton.2 (by simp)))
    (.second (.characters _) (by decide))

theorem Settings.isSettings_toJson (s : Settings) : IsSettings s.toJson (.all s) :=
  .record (.first s.session.isSection_toJson (List.forall_mem_singleton.2 (by simp)))
    (.second s.library.isSection_toJson (by decide))

theorem Settings.isPlain_toJson (s : Settings) : s.toJson.IsPlain := by
  refine Json.isPlain_record (List.forall_mem_cons.2 ⟨Json.isPlain_record ?_,
    List.forall_mem_singleton.2 (Json.isPlain_record ?_)⟩)
  · exact List.forall_mem_singleton.2 (Json.isPlain_ofNat _)
  · exact List.forall_mem_cons.2 ⟨Json.isPlain_ofString _,
      List.forall_mem_singleton.2 (Json.isPlain_ofString _)⟩

/-- A file has the settings that it gives, wherever and however they are written, and the
defaults for all others.  A file to which settings are written has just these. -/
theorem settings_are_read_by_field :
    (∀ (source : String) (j : Json) (g : Settings.Given), Json.IsText source.toList j →
      Settings.IsSettings j g → Settings.load (some (.file source.toUTF8)) = .ok g.settings) ∧
    ∀ s : Settings,
      Settings.load (some (.file (Json.compact s.toJson).toUTF8)) = .ok s ∧
      Settings.load (some (.file (Json.pretty s.toJson).toUTF8)) = .ok s := by
  refine ⟨fun source j g htext h => Settings.load_of_isSettings htext h, fun s => ⟨?_, ?_⟩⟩
  · exact Settings.load_of_isSettings (Json.isText_compact s.isPlain_toJson) s.isSettings_toJson
  · exact Settings.load_of_isSettings (Json.isText_pretty s.isPlain_toJson) s.isSettings_toJson

/-- A file with one field of one section, and a member of another name in front of it. -/
theorem one_field_is_read :
    let j : Json := .record [("colour", .text (Json.points "red")),
      ("session", .record [("warm_up_readings", .ofNat 7)])]
    let g : Settings.Given := { session? := some ⟨some 7⟩ }
    Json.IsText (Json.pretty j).toList j ∧ Settings.IsSettings j g ∧
      Settings.load (some (.file (Json.pretty j).toUTF8)) =
        .ok ⟨⟨7⟩, ⟨"stories", "xml"⟩⟩ := by
  intro j g
  have htext : Json.IsText (Json.pretty j).toList j :=
    Json.isText_pretty (Json.isPlain_record (List.forall_mem_cons.2 ⟨.text "red",
      List.forall_mem_singleton.2 (Json.isPlain_record
        (List.forall_mem_singleton.2 (Json.isPlain_ofNat 7)))⟩))
  have hsession : SessionSettings.IsSection (.record [("warm_up_readings", .ofNat 7)]) ⟨some 7⟩ :=
    SessionSettings.isSection_toJson ⟨7⟩
  have hgiven : Settings.IsSettings j g :=
    .record (.second hsession (by decide))
      (.absent (List.forall_mem_cons.2 ⟨by simp, List.forall_mem_singleton.2 (by simp)⟩))
  exact ⟨htext, hgiven, settings_are_read_by_field.1 _ j g htext hgiven⟩

/-- Names may be escaped, and a value that is passed over may hold half of a pair. -/
example : Settings.read
    "\x7b\"a\":[\"\\uD800\", 1E9], \"s\\u0065ssion\" :\x7b\"warm_up_readings\":7\x7d\x7d\n" =
      .ok ⟨⟨7⟩, ⟨"stories", "xml"⟩⟩ := by rfl

end AudioWalk
