import AudioWalk.Proofs.Markup.Documents
import AudioWalk.Proofs.Script.Reached
import AudioWalk.Proofs.Story.Lowering

/-!
# Sound stories

What a session relies on and does not check again: that an `init` block only
assigns, that branches do not nest, that volumes are within bounds, and that
every spot has circles, which know the number of their spot.  Every story that is
read out of markup is sound, since each of these is a rule of the grammar or is
seen to when the story is put together.
-/

namespace AudioWalk

/-! ## Statements -/

/-- A statement that may stand in a branch, with a volume within bounds. -/
def Statement.Plain : Statement → Prop
  | .play _ _ volume => 0.0 ≤ volume ∧ volume ≤ 1.0
  | .branch _ _ _ => False
  | _ => True

/-- Plain, or a branch with plain statements in it. -/
def Statement.Sound (s : Statement) : Prop := ∀ x ∈ s.parts, x.Plain

theorem Statement.Plain.isBranch {s : Statement} (h : s.Plain) : s.isBranch = false := by
  cases s with
  | branch conditions whenTrue whenFalse => cases h
  | assign name value => rfl
  | increment name delta => rfl
  | play clip text volume => rfl
  | ending => rfl

theorem Statement.Plain.parts_eq {s : Statement} (h : s.Plain) : s.parts = [s] := by
  cases s with
  | branch conditions whenTrue whenFalse => cases h
  | assign name value => rfl
  | increment name delta => rfl
  | play clip text volume => rfl
  | ending => rfl

theorem Statement.Plain.sound {s : Statement} (h : s.Plain) : s.Sound := by
  rw [Sound, h.parts_eq]
  exact List.forall_mem_singleton.2 h

/-! ## Stories -/

/-- Every circle has the number of the spot in which it lies. -/
def Linked (spots : List Spot) : Prop :=
  ∀ (i : Nat) s, spots[i]? = some s → ∀ c ∈ s.circles, c.spot? = some i

theorem linked_of (title folder : String) (introClip? : Option String) (introText : String)
    (init : List Statement) (spots : List Spot) :
    Linked (Story.of title folder introClip? introText init spots).spots := by
  intro i s hs c hc
  have hat : (spots.mapIdx fun index s => s.numbered index)[i]? = some s := hs
  rw [List.getElem?_mapIdx, Option.map_eq_some_iff] at hat
  obtain ⟨s₀, _, hs₀⟩ := hat
  rw [← hs₀, Spot.circles_numbered, List.mem_map] at hc
  obtain ⟨c₀, _, hc₀⟩ := hc
  rw [← hc₀]

structure Story.Sound (story : Story) : Prop where
  init : ∀ s ∈ story.init, ∃ name value, s = .assign name value
  circles : ∀ spot ∈ story.spots, spot.circles ≠ []
  statements : ∀ spot ∈ story.spots, ∀ c ∈ spot.circles, ∀ s ∈ c.statements, s.Sound
  linked : Linked story.spots

namespace Story

open Markup (Element)

/-! ## Markup -/

theorem PlainMeans.plain {e : Element} {s : Statement} (h : PlainMeans e s) : s.Plain := by
  cases h with
  | assign htag hname hvalue => trivial
  | increment htag hname hdelta => trivial
  | play htag hclip hvolume => exact hvolume.2
  | ending htag => trivial

theorem PlainMeans.exists_assign {e : Element} {s : Statement} (h : PlainMeans e s)
    (he : e.name = "assign") : ∃ name value, s = .assign name value := by
  cases h with
  | assign htag hname hvalue => exact ⟨_, _, rfl⟩
  | increment htag hname hdelta => exact absurd (he.symm.trans htag) (by decide)
  | play htag hclip hvolume => exact absurd (he.symm.trans htag) (by decide)
  | ending htag => exact absurd (he.symm.trans htag) (by decide)

theorem Means.sound {e : Element} {s : Statement} (h : Means e s) : s.Sound := by
  cases h with
  | plain hplain => exact hplain.plain.sound
  | branch htag hconditions hwhenTrue hwhenFalse =>
    intro x hx
    rcases List.mem_append.1 hx with hx | hx
    · obtain ⟨e', _, hmeans⟩ := exists_of_forall₂ hwhenTrue x hx
      exact hmeans.plain
    · obtain ⟨e', _, hmeans⟩ := exists_of_forall₂ hwhenFalse x hx
      exact hmeans.plain

/-- Each statement of a spot is told by an element. -/
theorem SpotMeans.exists_means {number? : Option Nat} {e : Element} {spot : Spot}
    (h : SpotMeans number? e spot) {c : Circle} (hc : c ∈ spot.circles) {s : Statement}
    (hs : s ∈ c.statements) : ∃ e', Means e' s := by
  obtain ⟨circles, hcircles, hsorted⟩ := h.circles
  obtain ⟨_, _, hcircle⟩ := exists_of_forall₂ hcircles c (hsorted.perm.mem_iff.1 hc)
  obtain ⟨e', _, hstatement⟩ := exists_of_forall₂ hcircle.statements s hs
  exact ⟨e', hstatement⟩

/-- The children of an `init` block are assignments. -/
theorem IsStory.assign_of_mem_below {root e : Element} (h : IsStory root)
    (he : e ∈ below root.children "init") : e.name = "assign" := by
  obtain ⟨block, hblock, htag, hmem⟩ := mem_below.1 he
  rcases h.children block hblock with hinit | hspot
  · exact (hinit.statements e hmem).tag
  · exact absurd (htag.symm.trans hspot.tag) (by decide)

theorem IsStory.spot_of_mem_tagged {root e : Element} (h : IsStory root)
    (he : e ∈ tagged root.children "spot") : IsSpot e := by
  obtain ⟨hmem, htag⟩ := List.mem_filter.1 he
  rcases h.children e hmem with hinit | hspot
  · exact absurd (hinit.tag.symm.trans (of_decide_eq_true htag)) (by decide)
  · exact hspot

theorem sound_of_ofElement {folder : String} {root : Element} {story : Story}
    (h : ofElement folder root = .ok story) : story.Sound := by
  have hstory : IsStory root := (exists_story folder root).1 ⟨story, h⟩
  have hmirrors : Mirrors folder root story := story_mirrors h
  have hspots : ∀ spot ∈ story.spots, ∃ e number?, IsSpot e ∧ SpotMeans number? e spot := by
    intro spot hspot
    obtain ⟨⟨e, number⟩, hmem, hmeans⟩ := exists_of_forall₂ hmirrors.spots spot hspot
    have he := List.mem_of_getElem? (List.mem_zipIdx_iff_getElem?.1 hmem)
    exact ⟨e, some number, hstory.spot_of_mem_tagged he, hmeans⟩
  constructor
  · intro s hs
    obtain ⟨e, he, hmeans⟩ := exists_of_forall₂ hmirrors.init s hs
    exact hmeans.exists_assign (hstory.assign_of_mem_below he)
  · intro spot hspot hnil
    obtain ⟨e, number?, he, hmeans⟩ := hspots spot hspot
    obtain ⟨circles, hcircles, hsorted⟩ := hmeans.circles
    have hperm := hsorted.perm
    rw [hnil] at hperm
    rw [← hperm.nil_eq] at hcircles
    exact he.nonempty (List.forall₂_nil_right_iff.1 hcircles)
  · intro spot hspot c hc s hs
    obtain ⟨e, number?, _, hmeans⟩ := hspots spot hspot
    obtain ⟨e', hstatement⟩ := hmeans.exists_means hc hs
    exact hstatement.sound
  · obtain ⟨_, title, contents, _, _, _, hof⟩ := ofElement_eq_ok.1 h
    rw [hof]
    exact linked_of _ _ _ _ _ _

theorem read_of_lexemes {source folder : String} {lexemes : List Markup.Lexeme}
    {written root : Element} {story : Story}
    (hlexemes : Markup.Lexeme.readAll? source.toList = some lexemes)
    (htree : Markup.treeOf? lexemes = some written) (hresolve : written.resolve = .ok root)
    (hstory : ofElement folder root = .ok story) : read source folder = .ok story := by
  simp only [read, Markup.read_of_lexemes hlexemes htree hresolve, hstory]

/-- A story with an intro, and with a circle that does nothing. -/
theorem read_bare :
    let source := "<story title='Bare' introfile='a'>" ++
      "<spot latitude='0' longitude='0'><circle radius='5'/></spot></story>"
    read source "walk" =
      .ok (Story.of "Bare" "walk" (some "a") "" [] [Spot.of ⟨0, 0⟩ [⟨5, none, [], none⟩]]) := by
  intro source
  let quoted (name value : String) : Markup.Attribute :=
    ⟨[' '], name.toList, [], [], .single, value.toList⟩
  let lexemes : List Markup.Lexeme :=
    [.opening "story".toList [quoted "title" "Bare", quoted "introfile" "a"] [] false,
      .opening "spot".toList [quoted "latitude" "0", quoted "longitude" "0"] [] false,
      .opening "circle".toList [quoted "radius" "5"] [] true,
      .closing "spot".toList [], .closing "story".toList []]
  let root : Element := ⟨"story", [("title", "Bare"), ("introfile", "a")],
    [⟨"spot", [("latitude", "0"), ("longitude", "0")],
      [⟨"circle", [("radius", "5")], [], 1⟩], 1⟩], 1⟩
  have hlexemes : Markup.Lexeme.readAll? source.toList = some lexemes := by decide +kernel
  have htree : Markup.treeOf? lexemes = some root := by cbv
  exact read_of_lexemes hlexemes htree rfl rfl

/-- Every story that is read out of markup is sound. -/
theorem sound_of_read {source folder : String} {story : Story}
    (h : read source folder = .ok story) : story.Sound := by
  unfold read at h
  split at h
  · cases h
  · split at h
    · cases h
    · next hread =>
      cases h
      exact sound_of_ofElement hread

end Story

end AudioWalk
