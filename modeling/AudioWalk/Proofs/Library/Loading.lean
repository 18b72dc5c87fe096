import Mathlib.Data.List.ReduceOption
import AudioWalk.Proofs.Library.Folders
import AudioWalk.Proofs.Story.Sound

/-!
# Strict and lenient loading

Both ways of loading make the same of the same description of a library
(`LoadsAs`): the lenient one has the stories of the folders that yield one, and the
strict one is the lenient one where all folders do, and fails with the first of the
others where not.  A title is looked up in the order of the folders (`Finds`).

Both are the same loop under two policies.  `collect_eq` and `loadWith_of_described`
say of any policy what the loop comes to, and `stories_of_mapM_kept` that no policy
has a say in which stories there are, once a library is loaded.
-/

namespace AudioWalk

theorem StoryFolder.exists_read {f : StoryFolder} {extension : String} {story : Story}
    (h : f.story extension = .ok story) : ∃ source, Story.read source f.name = .ok story := by
  unfold StoryFolder.story at h
  split at h
  · cases h
  · obtain ⟨source, _, hread⟩ := bind_eq_ok.1 h
    exact ⟨source, hread⟩

namespace Library

structure LoadsAs (storiesRoot : String) (names : List String)
    (yield : String → Except Failure Story) (strict lenient : Except Failure Library) : Prop where
  stories : lenient = .ok ⟨storiesRoot, names.filterMap fun f => (yield f).toOption⟩
  complete : (∃ library, strict = .ok library) ↔ ∀ f ∈ names, ∃ story, yield f = .ok story
  same : ∀ library, strict = .ok library → lenient = .ok library
  failed : ∀ failure, strict = .error failure ↔
    ∃ f cause, FirstWith (fun g => ∃ cause, yield g = .error cause) names f ∧
      yield f = .error cause ∧ failure = .other s!"story `{f}`: {cause.message}"

structure Finds (names : List String) (yield : String → Except Failure Story)
    (library : Library) : Prop where
  found : ∀ title story, library.find title = .ok story ↔
    ∃ f, FirstWith (fun g => ∃ s, yield g = .ok s ∧ s.title = title) names f ∧
      yield f = .ok story
  unknown : ∀ title, library.find title = .error (.unknownStory title) ↔
    ∀ f ∈ names, ∀ story, yield f = .ok story → story.title ≠ title

/-! ## Looking a title up -/

theorem find_eq_ok {library : Library} {title : String} {story : Story} :
    library.find title = .ok story ↔
      library.stories.find? (fun s => s.title = title) = some story := by
  rw [find]
  cases library.stories.find? fun s => s.title = title with
  | none => simp
  | some s => simp

theorem find_eq_unknown {library : Library} {title : String} :
    library.find title = .error (.unknownStory title) ↔
      ∀ story ∈ library.stories, story.title ≠ title := by
  rw [find]
  cases hfound : library.stories.find? fun s => s.title = title with
  | none => simpa using hfound
  | some s =>
    have hs := List.mem_of_find?_eq_some hfound
    have htitle := List.find?_some hfound
    simp only [reduceCtorEq, false_iff]
    intro hall
    exact hall s hs (of_decide_eq_true htitle)

theorem toOption_eq_some {yielded : Except Failure Story} {story : Story} :
    yielded.toOption = some story ↔ yielded = .ok story := by
  cases yielded with
  | error cause => simp [Except.toOption]
  | ok s => simp [Except.toOption]

theorem finds_filterMap (storiesRoot : String) (names : List String)
    (yield : String → Except Failure Story) :
    Finds names yield ⟨storiesRoot, names.filterMap fun f => (yield f).toOption⟩ where
  found title story := by
    have hmark : ∀ f, (Option.any (fun s => decide (s.title = title)) (yield f).toOption) = true ↔
        ∃ s, yield f = .ok s ∧ s.title = title := by
      intro f
      simp only [Option.any_eq_true, toOption_eq_some, decide_eq_true_eq]
    rw [find_eq_ok, List.find?_filterMap, Option.bind_eq_some_iff]
    simp only [find?_eq_some_iff_firstWith, hmark, toOption_eq_some]
  unknown title := by
    rw [find_eq_unknown]
    simp only [List.mem_filterMap, toOption_eq_some]
    constructor
    · exact fun h f hf story hstory => h story ⟨f, hf, hstory⟩
    · exact fun h story ⟨f, hf, hstory⟩ => h f hf story hstory

/-! ## One loop -/

/-- What a policy makes of a folder: its story, or none where it goes on without. -/
def kept (onError : String → Failure → Except Failure Unit) (folder : String) :
    Except Failure Story → Except Failure (Option Story)
  | .ok story => .ok (some story)
  | .error cause => (onError folder cause).map fun _ => none

variable {onError : String → Failure → Except Failure Unit}

theorem collect_eq (extension : String) (folders : List StoryFolder) :
    collect extension onError folders =
      (folders.mapM fun f => kept onError f.name (f.story extension)).map List.reduceOption := by
  induction folders with
  | nil => rfl
  | cons f rest ih =>
    rw [collect, List.mapM_cons, ih]
    generalize rest.mapM (fun f => kept onError f.name (f.story extension)) = stories
    cases f.story extension with
    | ok story =>
      cases stories with
      | error failure => rfl
      | ok stories => rfl
    | error cause =>
      dsimp only [kept]
      cases onError f.name cause with
      | error failure => rfl
      | ok _ =>
        cases stories with
        | error failure => rfl
        | ok stories => rfl

theorem kept_eq_ok {folder : String} {yielded : Except Failure Story} {story? : Option Story}
    (h : kept onError folder yielded = .ok story?) : story? = yielded.toOption := by
  cases yielded with
  | ok story => exact (Except.ok.inj h).symm
  | error cause =>
    obtain ⟨_, _, hnone⟩ := map_eq_ok.1 h
    exact hnone

theorem kept_skip (folder : String) (yielded : Except Failure Story) :
    kept skip folder yielded = .ok yielded.toOption := by
  cases yielded with
  | ok story => rfl
  | error cause => rfl

theorem exists_kept_abort {folder : String} {yielded : Except Failure Story} :
    (∃ story?, kept abort folder yielded = .ok story?) ↔ ∃ story, yielded = .ok story := by
  cases yielded with
  | ok story => exact iff_of_true ⟨_, rfl⟩ ⟨_, rfl⟩
  | error cause => exact iff_of_false nofun nofun

theorem kept_abort_eq_error {folder : String} {yielded : Except Failure Story}
    {failure : Failure} : kept abort folder yielded = .error failure ↔
      ∃ cause, yielded = .error cause ∧
        failure = .other s!"story `{folder}`: {cause.message}" := by
  cases yielded with
  | ok story => exact iff_of_false nofun nofun
  | error cause => simp [kept, abort, Except.map, eq_comm]

/-! ## Loading -/

variable {at? : String → Option Node} {root title : String} {settings : LibrarySettings}
  {library : Library} {story : Story}

theorem loadWith_of_listed {entries : List (String × Node)}
    (hlisted : (at? (Path.join root settings.storiesFolder)).bind Node.entries? = some entries) :
    loadWith onError at? root settings =
      (collect settings.markupExtension onError (StoryFolder.among entries)).map fun stories =>
        ⟨Path.join root settings.storiesFolder, stories⟩ := by
  simp only [loadWith, hlisted]
  cases collect settings.markupExtension onError (StoryFolder.among entries) with
  | error failure => rfl
  | ok stories => rfl

/-- What a policy makes of the description of a library. -/
theorem loadWith_of_described {entries : List (String × Node)} {names : List String}
    {yield : String → Except Failure Story} (htree : (Node.folder entries).WellNamed)
    (hlisted : (at? (Path.join root settings.storiesFolder)).bind Node.entries? = some entries)
    (h : Describes entries settings.markupExtension names yield) :
    loadWith onError at? root settings =
      (names.mapM fun f => kept onError f (yield f)).map fun stories =>
        ⟨Path.join root settings.storiesFolder, stories.reduceOption⟩ := by
  obtain ⟨hnames, hyield⟩ := h.among htree
  have hkept : (StoryFolder.among entries).mapM
      (fun f => kept onError f.name (f.story settings.markupExtension)) =
      names.mapM fun f => kept onError f (yield f) := by
    rw [hnames, List.mapM_map]
    exact mapM_congr fun f hf => by rw [hyield f hf]; rfl
  rw [loadWith_of_listed hlisted, collect_eq, hkept]
  cases names.mapM fun f => kept onError f (yield f) with
  | error failure => rfl
  | ok stories => rfl

/-- Where a policy lets all folders pass, their stories are what is loaded. -/
theorem stories_of_mapM_kept {names : List String} {yield : String → Except Failure Story}
    {stories : List (Option Story)}
    (h : (names.mapM fun f => kept onError f (yield f)) = .ok stories) :
    stories.reduceOption = names.filterMap fun f => (yield f).toOption := by
  have hstories : List.Forall₂ (fun f story? => story? = (yield f).toOption) names stories :=
    (mapM_eq_ok.1 h).imp fun _ _ => kept_eq_ok
  clear h
  induction hstories with
  | nil => rfl
  | @cons f story? names stories hstory _ ih =>
    rw [hstory, List.filterMap_cons]
    cases (yield f).toOption with
    | none => rw [List.reduceOption_cons_of_none, ih]
    | some story => rw [List.reduceOption_cons_of_some, ih]

theorem loadsAs_of_described {entries : List (String × Node)} {names : List String}
    {yield : String → Except Failure Story} (htree : (Node.folder entries).WellNamed)
    (hlisted : (at? (Path.join root settings.storiesFolder)).bind Node.entries? = some entries)
    (h : Describes entries settings.markupExtension names yield) :
    LoadsAs (Path.join root settings.storiesFolder) names yield (load at? root settings)
      (loadLenient at? root settings) := by
  have hload : load at? root settings = (names.mapM fun f => kept abort f (yield f)).map
      fun stories => ⟨Path.join root settings.storiesFolder, stories.reduceOption⟩ :=
    loadWith_of_described htree hlisted h
  have hlenient : loadLenient at? root settings =
      .ok ⟨Path.join root settings.storiesFolder, names.filterMap fun f => (yield f).toOption⟩ := by
    obtain ⟨stories, hstories⟩ : ∃ stories,
        (names.mapM fun f => kept skip f (yield f)) = .ok stories :=
      exists_mapM_eq_ok.2 fun f _ => ⟨_, kept_skip f (yield f)⟩
    rw [loadLenient, loadWith_of_described htree hlisted h, hstories,
      ← stories_of_mapM_kept hstories]
    rfl
  refine ⟨hlenient, ?_, fun library hlibrary => ?_, fun failure => ?_⟩
  · have hall : (∃ stories, (names.mapM fun f => kept abort f (yield f)) = .ok stories) ↔
        ∀ f ∈ names, ∃ story, yield f = .ok story := by
      simp only [exists_mapM_eq_ok, exists_kept_abort]
    rw [hload, ← hall]
    simp only [map_eq_ok]
    exact ⟨fun ⟨_, stories, hstories, _⟩ => ⟨stories, hstories⟩,
      fun ⟨stories, hstories⟩ => ⟨_, stories, hstories, rfl⟩⟩
  · rw [hload] at hlibrary
    obtain ⟨stories, hstories, rfl⟩ := map_eq_ok.1 hlibrary
    rw [hlenient, stories_of_mapM_kept hstories]
  · have hmark : (fun g => ∃ failure, kept abort g (yield g) = .error failure) =
        fun g => ∃ cause, yield g = .error cause := by
      funext g
      simp only [kept_abort_eq_error, eq_iff_iff]
      exact ⟨fun ⟨_, cause, hcause, _⟩ => ⟨cause, hcause⟩, fun ⟨cause, hcause⟩ =>
        ⟨_, cause, hcause, rfl⟩⟩
    rw [hload, map_eq_error, mapM_eq_error, hmark]
    simp only [kept_abort_eq_error]
    exact ⟨fun ⟨f, hf, cause, hcause, hfailure⟩ => ⟨f, cause, hf, hcause, hfailure⟩,
      fun ⟨f, cause, hf, hcause, hfailure⟩ => ⟨f, hf, cause, hcause, hfailure⟩⟩

theorem mem_of_find (h : library.find title = .ok story) : story ∈ library.stories :=
  List.mem_of_find?_eq_some (find_eq_ok.1 h)

/-- Every story of a library that was loaded has been read out of markup. -/
theorem exists_read_of_mem (h : loadWith onError at? root settings = .ok library)
    (hstory : story ∈ library.stories) : ∃ source folder, Story.read source folder = .ok story := by
  simp only [loadWith] at h
  split at h
  · cases h
  · obtain ⟨_, hcollect, hlibrary⟩ := bind_eq_ok.1 h
    rw [collect_eq] at hcollect
    obtain ⟨stories, hstories, rfl⟩ := map_eq_ok.1 hcollect
    rw [pure_eq_ok.1 hlibrary] at hstory
    have hmem : some story ∈ stories := List.reduceOption_mem_iff.1 hstory
    obtain ⟨f, _, hf⟩ := exists_of_forall₂ (mapM_eq_ok.1 hstories) _ hmem
    obtain ⟨source, hread⟩ := f.exists_read (toOption_eq_some.1 (kept_eq_ok hf).symm)
    exact ⟨source, f.name, hread⟩

theorem sound_of_find (h : loadWith onError at? root settings = .ok library)
    (hfind : library.find title = .ok story) : story.Sound := by
  obtain ⟨_, _, hread⟩ := exists_read_of_mem h (mem_of_find hfind)
  exact Story.sound_of_read hread

/-! ## The two policies -/

/-- Where the stories folder cannot be listed, both ways of loading fail for that.
Where it can be, there is a description of what it holds, and whatever describes it
says what both come to, and what each title then stands for.  Folders that hold the
same files, listed in another order, are loaded alike. -/
theorem loading_agrees (at? : String → Option Node) (root : String) (settings : LibrarySettings)
    (htree : ∀ n, at? (Path.join root settings.storiesFolder) = some n → n.WellNamed) :
    let storiesRoot := Path.join root settings.storiesFolder
    let strict := load at? root settings
    let lenient := loadLenient at? root settings
    ((at? storiesRoot).bind Node.entries? = none →
      (∃ detail, strict = .error (.unreadable detail)) ∧
        ∃ detail, lenient = .error (.unreadable detail)) ∧
    ∀ entries, (at? storiesRoot).bind Node.entries? = some entries →
      (∃ names yield, Describes entries settings.markupExtension names yield) ∧
      ∀ names yield, Describes entries settings.markupExtension names yield →
        LoadsAs storiesRoot names yield strict lenient ∧
        (∀ library, strict = .ok library ∨ lenient = .ok library → Finds names yield library) ∧
        ∀ at?' entries', (at?' storiesRoot).bind Node.entries? = some entries' →
          (Node.folder entries').WellNamed → SameFiles entries entries' →
          load at?' root settings = strict ∧ loadLenient at?' root settings = lenient := by
  intro storiesRoot strict lenient
  refine ⟨fun hnone => ?_, fun entries hlisted => ?_⟩
  · simp only [strict, lenient, load, loadLenient, loadWith, storiesRoot] at hnone ⊢
    rw [hnone]
    exact ⟨⟨_, rfl⟩, _, rfl⟩
  · have hfolder : at? storiesRoot = some (.folder entries) := by
      obtain ⟨n, hn, hentries⟩ := Option.bind_eq_some_iff.1 hlisted
      cases n with
      | file bytes => cases hentries
      | folder inside =>
        cases hentries
        exact hn
    have hwell := htree _ hfolder
    refine ⟨exists_describes hwell _, fun names yield h => ?_⟩
    have hloads := loadsAs_of_described hwell hlisted h
    refine ⟨hloads, fun library hlibrary => ?_, fun at?' entries' hlisted' hwell' hsame => ?_⟩
    · have hlenient : lenient = .ok library := hlibrary.elim (hloads.same library) id
      cases hlenient.symm.trans hloads.stories
      exact finds_filterMap storiesRoot names yield
    · have h' := h.of_sameFiles hsame
      have hboth (onError : String → Failure → Except Failure Unit) :
          loadWith onError at?' root settings = loadWith onError at? root settings :=
        (loadWith_of_described hwell' hlisted' h').trans
          (loadWith_of_described hwell hlisted h).symm
      exact ⟨hboth abort, hboth skip⟩

/-- Two folders, listed against the order of their names; the first one in that
order has no story. -/
theorem silent_folder_is_passed_over :
    let source := "<story title='Bare' introfile='a'>" ++
      "<spot latitude='0' longitude='0'><circle radius='5'/></spot></story>"
    let story := Story.of "Bare" "walk" (some "a") "" []
      [Spot.of ⟨0, 0⟩ [⟨5, none, [], none⟩]]
    let entries : List (String × Node) := [("walk", .folder [("w.xml", .file source.toUTF8)]),
      ("clips", .folder [("a.ogg", .file .empty)])]
    let at? (path : String) : Option Node :=
      if path = "lib/stories" then some (.folder entries) else none
    let settings : LibrarySettings := {}
    (Node.folder entries).WellNamed ∧
      loadLenient at? "lib" settings = .ok ⟨"lib/stories", [story]⟩ ∧
      load at? "lib" settings = .error (.other
        "story `clips`: story folder `clips` does not contain a story file") := by
  intro source story entries at? settings
  have hread : Story.read source "walk" = .ok story := Story.read_bare
  have hwell : (Node.folder entries).WellNamed := by
    refine .folder (by decide) fun e he => ?_
    simp only [entries, List.mem_cons, List.not_mem_nil, or_false] at he
    rcases he with rfl | rfl
    · exact .folder (by decide) fun e he => List.mem_singleton.1 he ▸ .file _
    · exact .folder (by decide) fun e he => List.mem_singleton.1 he ▸ .file _
  let yield (folder : String) : Except Failure Story :=
    if folder = "walk" then .ok story else .error (.missingStoryFile folder)
  have hmem : ∀ e, e ∈ entries ↔ e = ("walk", .folder [("w.xml", .file source.toUTF8)]) ∨
      e = ("clips", .folder [("a.ogg", .file .empty)]) := by
    simp [entries]
  have hfolders : AreFolders entries ["clips", "walk"] := by
    refine ⟨fun f => ?_, by decide⟩
    simp only [HasFolder, hmem, List.mem_cons, List.not_mem_nil, or_false]
    constructor
    · rintro (rfl | rfl)
      · exact ⟨_, Or.inr rfl, List.cons_ne_nil _ _⟩
      · exact ⟨_, Or.inl rfl, List.cons_ne_nil _ _⟩
    · rintro ⟨inside, hwalk | hclips, _⟩
      · exact Or.inr (congrArg Prod.fst hwalk)
      · exact Or.inl (congrArg Prod.fst hclips)
  have hclips : Yields entries "xml" "clips" (.error (.missingStoryFile "clips")) := by
    refine .missing fun name bytes h => ?_
    obtain ⟨hfile, hextension⟩ := h
    rw [hasFile_iff hwell.names ((hmem _).2 (Or.inr rfl)), List.mem_singleton] at hfile
    cases hfile
    exact absurd hextension (by decide)
  have hwalk : Yields entries "xml" "walk" (.ok story) := by
    have hresult : (do
        let source ← readText (some (.file source.toUTF8))
        Story.read source "walk") = .ok story :=
      bind_eq_ok.2 ⟨source, readText_toUTF8 source, hread⟩
    have hfile (name : String) (bytes : ByteArray) : HasFile entries "walk" name bytes ↔
        (name, .file bytes) ∈ [("w.xml", Node.file source.toUTF8)] :=
      hasFile_iff hwell.names ((hmem _).2 (Or.inl rfl))
    have hmarkup : IsMarkup entries "xml" "walk" "w.xml" source.toUTF8 :=
      ⟨(hfile _ _).2 (List.mem_singleton_self _), by decide⟩
    refine hresult ▸ .first hmarkup fun name bytes h => ?_
    cases List.mem_singleton.1 ((hfile name bytes).1 h.1)
    exact String.le_refl _
  have hdescribes : Describes entries settings.markupExtension ["clips", "walk"] yield := by
    refine ⟨hfolders, fun f hf => ?_⟩
    simp only [List.mem_cons, List.not_mem_nil, or_false] at hf
    rcases hf with rfl | rfl
    · exact hclips
    · exact hwalk
  have hpath : Path.join "lib" "stories" = "lib/stories" := rfl
  have hat : at? (Path.join "lib" settings.storiesFolder) = some (.folder entries) := by
    simp only [settings, hpath]
    rfl
  have htree : ∀ n, at? (Path.join "lib" settings.storiesFolder) = some n → n.WellNamed := by
    intro n hn
    cases hat.symm.trans hn
    exact hwell
  have hlisted : (at? (Path.join "lib" settings.storiesFolder)).bind Node.entries? =
      some entries := by
    rw [hat]
    rfl
  obtain ⟨hloads, _⟩ := ((loading_agrees at? "lib" settings htree).2 entries hlisted).2 _ yield
    hdescribes
  have hstories : loadLenient at? "lib" settings = .ok ⟨"lib/stories", [story]⟩ := by
    rw [hloads.stories, show settings.storiesFolder = "stories" from rfl, hpath]
    rfl
  refine ⟨hwell, hstories, (hloads.failed _).2 ⟨"clips", .missingStoryFile "clips", ?_, rfl, rfl⟩⟩
  exact firstWith_cons.2 (Or.inl ⟨⟨_, rfl⟩, rfl⟩)

end Library
end AudioWalk
