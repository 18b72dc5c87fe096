import Mathlib.Data.List.Nodup
import Mathlib.Data.List.Sort
import AudioWalk.Library
import AudioWalk.Proofs.Results

/-!
# Story folders and their stories

What a library is made of, told without the order in which a folder lists its
entries: which names are those of story folders (`AreFolders`), which files of a
folder are markup (`IsMarkup`), and what becomes of a folder (`Yields`).  Loading
sorts twice, and what it finds is this: `areFolders_iff`, `yields_iff`.
-/

namespace AudioWalk

theorem readText_toUTF8 (text : String) : readText (some (.file text.toUTF8)) = .ok text := by
  have hvalid : String.fromUTF8? text.toUTF8 = some text := dif_pos text.isValidUTF8
  rw [readText, hvalid]

/-- No folder has two entries of one name. -/
inductive Node.WellNamed : Node → Prop
  | file (bytes : ByteArray) : WellNamed (.file bytes)
  | folder {entries : List (String × Node)} (hnames : (entries.map Prod.fst).Nodup)
    (hentries : ∀ e ∈ entries, WellNamed e.2) : WellNamed (.folder entries)

theorem Node.WellNamed.names {entries : List (String × Node)}
    (h : (Node.folder entries).WellNamed) : (entries.map Prod.fst).Nodup := by
  cases h with
  | folder hnames hentries => exact hnames

theorem Node.WellNamed.inside {entries : List (String × Node)} {name : String} {node : Node}
    (h : (Node.folder entries).WellNamed) (hmem : (name, node) ∈ entries) : node.WellNamed := by
  cases h with
  | folder hnames hentries => exact hentries _ hmem

namespace Library

/-! ## What a folder of stories holds -/

/-- A folder with something in it. -/
def HasFolder (entries : List (String × Node)) (folder : String) : Prop :=
  ∃ inside, (folder, .folder inside) ∈ entries ∧ inside ≠ []

/-- A file directly in a folder. -/
def HasFile (entries : List (String × Node)) (folder name : String) (bytes : ByteArray) : Prop :=
  ∃ inside, (folder, .folder inside) ∈ entries ∧ (name, .file bytes) ∈ inside

/-- The same folders with the same files, listed in whatever order. -/
structure SameFiles (entries entries' : List (String × Node)) : Prop where
  folders : ∀ folder, HasFolder entries folder ↔ HasFolder entries' folder
  files : ∀ folder name bytes,
    HasFile entries folder name bytes ↔ HasFile entries' folder name bytes

/-- The names of the folders that are not empty, in the order of names. -/
structure AreFolders (entries : List (String × Node)) (names : List String) : Prop where
  mem : ∀ f, f ∈ names ↔ HasFolder entries f
  ordered : names.Pairwise fun f g => f < g

def IsMarkup (entries : List (String × Node)) (extension folder name : String)
    (bytes : ByteArray) : Prop :=
  HasFile entries folder name bytes ∧ Path.extension? name = some extension

/-- What a folder yields: the story in the markup file whose name comes first, or
why there is none. -/
inductive Yields (entries : List (String × Node)) (extension folder : String) :
    Except Failure Story → Prop
  | missing (hnone : ∀ name bytes, ¬ IsMarkup entries extension folder name bytes) :
    Yields entries extension folder (.error (.missingStoryFile folder))
  | first {name : String} {bytes : ByteArray}
    (hmarkup : IsMarkup entries extension folder name bytes)
    (hfirst : ∀ name' bytes', IsMarkup entries extension folder name' bytes' → name ≤ name') :
    Yields entries extension folder (do
      let source ← readText (some (.file bytes))
      Story.read source folder)

/-- The story folders with what they yield. -/
structure Describes (entries : List (String × Node)) (extension : String) (names : List String)
    (yield : String → Except Failure Story) : Prop where
  folders : AreFolders entries names
  yields : ∀ f ∈ names, Yields entries extension f (yield f)

/-! ## Folders in their order -/

theorem sorted_by_name {α : Type} (name : α → String) (xs : List α) :
    (xs.mergeSort fun a b => name a ≤ name b).Pairwise fun a b => name a ≤ name b := by
  let precedes (a b : α) : Bool := name a ≤ name b
  have htrans : ∀ a b c, precedes a b = true → precedes b c = true → precedes a c = true := by
    intro a b c hab hbc
    simp only [precedes, decide_eq_true_eq] at *
    exact String.le_trans hab hbc
  have htotal : ∀ a b, (precedes a b || precedes b a) = true := by
    intro a b
    simp only [precedes, Bool.or_eq_true, decide_eq_true_eq]
    exact String.le_total _ _
  exact (List.pairwise_mergeSort htrans htotal xs).imp fun h => of_decide_eq_true h

theorem mem_among {entries : List (String × Node)} {f : StoryFolder} :
    f ∈ StoryFolder.among entries ↔ (f.name, .folder f.entries) ∈ entries ∧ f.entries ≠ [] := by
  rw [StoryFolder.among, List.mem_mergeSort, List.mem_filterMap]
  constructor
  · rintro ⟨⟨name, node⟩, hmem, hfound⟩
    dsimp only at hfound
    split at hfound
    · cases hfound
      exact ⟨hmem, List.cons_ne_nil _ _⟩
    · cases hfound
  · intro ⟨hmem, hne⟩
    refine ⟨_, hmem, ?_⟩
    obtain ⟨name, inside⟩ := f
    cases inside with
    | nil => exact absurd rfl hne
    | cons entry more => rfl

variable {entries : List (String × Node)}

theorem node_unique (hnames : (entries.map Prod.fst).Nodup) {name : String} {node node' : Node}
    (h : (name, node) ∈ entries) (h' : (name, node') ∈ entries) : node' = node := by
  have hsame := List.inj_on_of_nodup_map hnames h' h rfl
  cases hsame
  rfl

theorem areFolders_among (hnames : (entries.map Prod.fst).Nodup) :
    AreFolders entries ((StoryFolder.among entries).map (·.name)) where
  mem f := by
    rw [List.mem_map]
    constructor
    · rintro ⟨folder, hfolder, rfl⟩
      exact ⟨folder.entries, mem_among.1 hfolder⟩
    · intro ⟨inside, hinside⟩
      exact ⟨⟨f, inside⟩, mem_among.2 hinside, rfl⟩
  ordered := by
    have hdistinct : (StoryFolder.among entries).Pairwise fun f g => f.name ≠ g.name := by
      refine ((List.mergeSort_perm _ _).pairwise_iff fun h => Ne.symm h).2 ?_
      rw [List.pairwise_filterMap]
      refine (List.pairwise_map.1 hnames).imp fun {a b} hne f hf g hg => ?_
      dsimp only at hf hg
      split at hf
      · split at hg
        · cases hf
          cases hg
          exact hne
        · cases hg
      · cases hf
    exact List.pairwise_map.2 (((sorted_by_name _ _).and hdistinct).imp fun h =>
      Std.lt_of_le_of_ne h.1 h.2)

theorem areFolders_iff (hnames : (entries.map Prod.fst).Nodup) {names : List String} :
    AreFolders entries names ↔ names = (StoryFolder.among entries).map (·.name) := by
  have hamong := areFolders_among hnames
  constructor
  · intro h
    exact h.ordered.eq_of_mem_iff hamong.ordered fun f => (h.mem f).trans (hamong.mem f).symm
  · intro h
    rw [h]
    exact hamong

/-! ## The markup file of a folder -/

theorem mem_markupFiles {f : StoryFolder} {extension name : String} {node : Node} :
    (name, node) ∈ f.markupFiles extension ↔
      (∃ bytes, node = .file bytes) ∧ (name, node) ∈ f.entries ∧
        Path.extension? name = some extension := by
  rw [StoryFolder.markupFiles, List.mem_mergeSort, List.mem_filter]
  simp only [Bool.and_eq_true, Bool.not_eq_true', decide_eq_true_eq]
  cases node with
  | file bytes => simp [Node.isFolder, Node.entries?]
  | folder inside => simp [Node.isFolder, Node.entries?]

/-- The files of a folder are those of the one entry that has its name. -/
theorem hasFile_iff (hnames : (entries.map Prod.fst).Nodup) {folder name : String}
    {inside : List (String × Node)} {bytes : ByteArray}
    (hfolder : (folder, .folder inside) ∈ entries) :
    HasFile entries folder name bytes ↔ (name, .file bytes) ∈ inside := by
  constructor
  · intro ⟨inside', hinside, hfile⟩
    cases node_unique hnames hfolder hinside
    exact hfile
  · exact fun hfile => ⟨inside, hfolder, hfile⟩

theorem isMarkup_iff {f : StoryFolder} (hnames : (entries.map Prod.fst).Nodup)
    (hf : f ∈ StoryFolder.among entries) {extension name : String} {bytes : ByteArray} :
    IsMarkup entries extension f.name name bytes ↔
      (name, .file bytes) ∈ f.markupFiles extension := by
  rw [mem_markupFiles, IsMarkup, hasFile_iff hnames (mem_among.1 hf).1]
  exact (and_iff_right ⟨bytes, rfl⟩).symm

/-- Each folder yields one thing, and that is what loading makes of it. -/
theorem yields_iff {f : StoryFolder} (htree : (Node.folder entries).WellNamed)
    (hf : f ∈ StoryFolder.among entries) {extension : String} {result : Except Failure Story} :
    Yields entries extension f.name result ↔ f.story extension = result := by
  have hinside : (f.entries.map Prod.fst).Nodup := (htree.inside (mem_among.1 hf).1).names
  have hmarkup := @isMarkup_iff entries f htree.names hf extension
  have hordered : (f.markupFiles extension).Pairwise fun a b => a.1 ≤ b.1 :=
    sorted_by_name Prod.fst _
  rw [StoryFolder.story]
  cases hfiles : f.markupFiles extension with
  | nil =>
    simp only [hfiles, List.not_mem_nil, iff_false] at hmarkup
    constructor
    · intro h
      cases h with
      | missing hnone => rfl
      | first hfile hfirst => exact absurd hfile hmarkup
    · rintro rfl
      exact .missing fun name bytes => hmarkup
  | cons file rest =>
    obtain ⟨name, node⟩ := file
    have hhead : (name, node) ∈ f.markupFiles extension := by
      rw [hfiles]
      exact List.mem_cons_self
    obtain ⟨⟨bytes, rfl⟩, hmem, _⟩ := mem_markupFiles.1 hhead
    rw [hfiles] at hordered
    have hleast : ∀ name' bytes', IsMarkup entries extension f.name name' bytes' →
        name ≤ name' := by
      intro name' bytes' h'
      have hmem' := hmarkup.1 h'
      rw [hfiles] at hmem'
      rcases List.mem_cons.1 hmem' with heq | hlater
      · cases heq
        exact String.le_refl _
      · exact (List.pairwise_cons.1 hordered).1 _ hlater
    constructor
    · intro h
      cases h with
      | missing hnone => exact absurd (hmarkup.2 hhead) (hnone name bytes)
      | @first name' bytes' hfile hfirst =>
        obtain rfl : name = name' :=
          String.le_antisymm (hleast name' bytes' hfile) (hfirst name bytes (hmarkup.2 hhead))
        have hmem' := (mem_markupFiles.1 (hmarkup.1 hfile)).2.1
        cases node_unique hinside hmem hmem'
        rfl
    · rintro rfl
      exact .first (hmarkup.2 hhead) hleast

/-! ## Descriptions -/

theorem Describes.among {extension : String} {names : List String}
    {yield : String → Except Failure Story} (htree : (Node.folder entries).WellNamed)
    (h : Describes entries extension names yield) :
    names = (StoryFolder.among entries).map (·.name) ∧
      ∀ f ∈ StoryFolder.among entries, f.story extension = yield f.name := by
  have hamong := (areFolders_iff htree.names).1 h.folders
  refine ⟨hamong, fun f hf => (yields_iff htree hf).1 (h.yields f.name ?_)⟩
  rw [hamong]
  exact List.mem_map_of_mem hf

theorem exists_describes (htree : (Node.folder entries).WellNamed) (extension : String) :
    ∃ names yield, Describes entries extension names yield := by
  have hyields : ∀ name, ∃ result, name ∈ (StoryFolder.among entries).map (·.name) →
      Yields entries extension name result := by
    intro name
    by_cases hname : name ∈ (StoryFolder.among entries).map (·.name)
    · obtain ⟨f, hf, rfl⟩ := List.mem_map.1 hname
      exact ⟨f.story extension, fun _ => (yields_iff htree hf).2 rfl⟩
    · exact ⟨.error (.missingStoryFile name), fun h => absurd h hname⟩
  obtain ⟨yield, hyield⟩ := Classical.skolem.1 hyields
  exact ⟨_, yield, areFolders_among htree.names, hyield⟩

/-- A description says nothing about the order in which entries are listed. -/
theorem Describes.of_sameFiles {entries' : List (String × Node)} {extension : String}
    {names : List String} {yield : String → Except Failure Story}
    (h : Describes entries extension names yield) (hsame : SameFiles entries entries') :
    Describes entries' extension names yield where
  folders := ⟨fun f => (h.folders.mem f).trans (hsame.folders f), h.folders.ordered⟩
  yields f hf := by
    have hmarkup : ∀ name bytes, IsMarkup entries extension f name bytes ↔
        IsMarkup entries' extension f name bytes := fun name bytes =>
      and_congr_left fun _ => hsame.files f name bytes
    generalize hresult : yield f = result
    cases hresult ▸ h.yields f hf with
    | missing hnone =>
      exact .missing fun name bytes hfile => hnone name bytes ((hmarkup _ _).2 hfile)
    | first hfile hfirst =>
      exact .first ((hmarkup _ _).1 hfile) fun name bytes hother =>
        hfirst name bytes ((hmarkup _ _).2 hother)

end Library
end AudioWalk
