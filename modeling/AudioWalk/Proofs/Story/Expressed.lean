import AudioWalk.Proofs.Story.Writing

/-!
# Stories that markup expresses

Main statement, `expressed_iff_wellFormed`: a story is what some markup text is read
as exactly where it is well formed.

That it must be is a matter of the readers, which check all of it.  For the converse
the story is written as a tree, and lowering undoes the writing: from the statements
up, each reader makes of an element like the one that was written what was written
there.  Circles that are in their order stay in it when they are sorted, and those
that know their spot get back the number that a tree does not hold.
-/

namespace AudioWalk

/-- A volume that some attribute may give. -/
def Statement.VolumeSpelled : Statement → Prop
  | .play _ _ volume => Story.Spelled Decimal.float32? volume
  | _ => True

namespace Story

open Markup (Element)
open Markup.Element (Alike)

/-- A finite number of degrees within a limit, one that some attribute may give. -/
structure InDegrees (limit : Nat) (x : Float) : Prop where
  spelled : Spelled Decimal.float? x
  finite : x.isFinite
  limit : x.abs ≤ Float.ofNat limit

structure WellFormed (story : Story) : Prop extends story.Sound where
  spots : story.spots ≠ []
  latitudes : ∀ spot ∈ story.spots, InDegrees 90 spot.center.latitude
  longitudes : ∀ spot ∈ story.spots, InDegrees 180 spot.center.longitude
  volumes : ∀ spot ∈ story.spots, ∀ c ∈ spot.circles, ∀ s ∈ c.statements, ∀ x ∈ s.parts,
    x.VolumeSpelled

/-! ## Reading trees that were written -/

theorem reads_of_alike {α : Type} {read? : List Char → Option α} {w e : Element} {key text : String}
    {a : α} (h : Alike w e) (hkey : w.attribute? key = some text)
    (hread : read? (Text.trim text.toList) = some a) : Reads read? e key a :=
  ⟨text, (h.attribute? key).trans hkey, hread⟩

theorem lookup_given (key : String) (value? : Option String) :
    (given key value?).lookup key = value? := by
  cases value? with
  | none => rfl
  | some value => exact List.lookup_cons_self

theorem int64?_integerText (i : Int64) :
    Text.int64? (Text.trim (integerText i).toList) = some i := by
  rw [integerText, String.toList_ofList, Text.int64?_ofInt]

theorem uint32?_radiusText (r : UInt32) :
    Text.uint32? (Text.trim (radiusText r).toList) = some r := by
  rw [radiusText, String.toList_ofList, Text.uint32?_ofNat]

/-- What holds of each element like a written one holds of all elements like those
that are written. -/
theorem forall₂_of_alike {β : Type} {write : β → Element} {Tells : Element → β → Prop}
    {bs : List β} {es : List Element}
    (htells : ∀ b ∈ bs, ∀ e, Alike (write b) e → Tells e b)
    (h : List.Forall₂ Alike (bs.map write) es) : List.Forall₂ Tells es bs := by
  rw [List.forall₂_map_left_iff] at h
  have hboth := (List.forall₂_and_left bs es).2 ⟨htells, h⟩
  exact List.Forall₂.flip (hboth.imp fun _ e hb => hb.1 e hb.2)

theorem mapM_of_alike {β : Type} {read : Element → Except Fault β} {write : β → Element}
    {bs : List β} {es : List Element}
    (hread : ∀ b ∈ bs, ∀ e, Alike (write b) e → read e = .ok b)
    (h : List.Forall₂ Alike (bs.map write) es) : es.mapM read = .ok bs :=
  mapM_eq_ok.2 (forall₂_of_alike hread h)

theorem conditions_of_alike {cs : List Condition} {e : Element}
    (h : List.Forall₂ Alike (cs.map equals) e.children) : conditions e = .ok cs := by
  refine mapM_of_alike (fun c _ child hchild => ?_) h
  have htag : child.name = "equals" := hchild.name
  rw [if_pos htag]
  exact condition_eq_ok.2 ⟨hchild.childless rfl, hchild.attribute? _, hchild.attribute? _⟩

variable {sp : Spelling}

theorem exists_leaf_of_alike (hsp : sp.Faithful) {s : Statement} (hplain : s.Plain)
    (hvolume : s.VolumeSpelled) {e : Element} (h : Alike (sp.statement s) e) :
    ∃ kind : Leaf, e.name = kind.tag ∧ kind.statement e = .ok s := by
  cases s with
  | assign name value =>
    exact ⟨.assign, h.name, assignment_eq_ok.2 ⟨h.childless rfl, name, value, h.attribute? _,
      reads_of_alike h rfl (int64?_integerText value), rfl⟩⟩
  | increment name delta =>
    exact ⟨.increment, h.name, incrementation_eq_ok.2 ⟨h.childless rfl, name, delta,
      h.attribute? _, Or.inl (reads_of_alike h rfl (int64?_integerText delta)), rfl⟩⟩
  | play clip text volume =>
    have hread : ReadsOr Decimal.float32? e "volume" 1.0 volume :=
      Or.inl (reads_of_alike h rfl (hsp.volume volume hvolume))
    have htext : e.attribute? "text" = some text := h.attribute? _
    refine ⟨.play, h.name, playing_eq_ok.2 ⟨h.childless rfl, clip, volume, h.attribute? _,
      ⟨hread, hplain⟩, ?_⟩⟩
    rw [htext, Option.getD_some]
  | branch conditions whenTrue whenFalse => cases hplain
  | ending => exact ⟨.ending, h.name, endMark_eq_ok.2 ⟨h.childless rfl, rfl⟩⟩

theorem branchBlock_of_alike (hsp : sp.Faithful) {ss : List Statement}
    (hplain : ∀ s ∈ ss, s.Plain) (hvolumes : ∀ s ∈ ss, s.VolumeSpelled) {e : Element}
    (h : List.Forall₂ Alike (sp.statements ss) e.children) : branchBlock e = .ok ss := by
  rw [sp.statements_eq_map] at h
  refine mapM_of_alike (fun s hs child hchild => ?_) h
  exact plain_eq_ok.2 (exists_leaf_of_alike hsp (hplain s hs) (hvolumes s hs) hchild)

theorem conditional_of_alike (hsp : sp.Faithful) {cs : List Condition} {ts fs : List Statement}
    (hsound : (Statement.branch cs ts fs).Sound)
    (hvolumes : ∀ x ∈ (Statement.branch cs ts fs).parts, x.VolumeSpelled) {e : Element}
    (h : Alike (sp.statement (.branch cs ts fs)) e) :
    conditional e = .ok (.branch cs ts fs) := by
  obtain ⟨hts, hfs⟩ := List.forall_mem_append.1 hsound
  obtain ⟨hvts, hvfs⟩ := List.forall_mem_append.1 hvolumes
  refine conditional_eq_ok.2 ⟨⟨3, cs, ts, fs⟩, ?_, rfl⟩
  -- All three parts are written, in their order, so each is read behind the one before it.
  have hchildren := h.children
  generalize e.children = children at hchildren
  cases hchildren with
  | cons hcondition hrest =>
  cases hrest with
  | cons hthen hrest =>
  cases hrest with
  | cons helse hrest =>
  cases hrest
  simp only [foldlM_cons_eq_ok, Parts.add_eq_ok]
  have hcs := conditions_of_alike hcondition.children
  have hts := branchBlock_of_alike hsp hts hvts hthen.children
  have hfs := branchBlock_of_alike hsp hfs hvfs helse.children
  exact ⟨⟨1, cs, [], []⟩, ⟨.condition, hcondition.name, Nat.lt_succ_self 0, cs, hcs, rfl⟩,
    ⟨2, cs, ts, []⟩, ⟨.whenTrue, hthen.name, Nat.lt_succ_self 1, ts, hts, rfl⟩,
    ⟨3, cs, ts, fs⟩, ⟨.whenFalse, helse.name, Nat.lt_succ_self 2, fs, hfs, rfl⟩, rfl⟩

theorem circleBlock_of_alike (hsp : sp.Faithful) {ss : List Statement}
    (hsound : ∀ s ∈ ss, s.Sound) (hvolumes : ∀ s ∈ ss, ∀ x ∈ s.parts, x.VolumeSpelled)
    {e : Element} (h : List.Forall₂ Alike (sp.statements ss) e.children) :
    circleBlock e = .ok ss := by
  rw [sp.statements_eq_map] at h
  refine mapM_of_alike (fun s hs child hchild => ?_) h
  have hsound := hsound s hs
  have hvolumes := hvolumes s hs
  -- Only a branch has parts other than itself, and what is its own part is plain.
  by_cases hone : s.parts = [s]
  · rw [Statement.Sound, hone] at hsound
    rw [hone] at hvolumes
    obtain ⟨kind, htag, hstatement⟩ := exists_leaf_of_alike hsp
      (List.forall_mem_singleton.1 hsound) (List.forall_mem_singleton.1 hvolumes) hchild
    have hif : child.name ≠ "if" := ne_of_eq_of_ne htag kind.tag_ne_if
    rw [if_neg hif]
    exact plain_eq_ok.2 ⟨kind, htag, hstatement⟩
  · cases s with
    | branch cs ts fs =>
      have hif : child.name = "if" := hchild.name
      rw [if_pos hif]
      exact conditional_of_alike hsp hsound hvolumes hchild
    | assign name value => exact absurd rfl hone
    | increment name delta => exact absurd rfl hone
    | play clip text volume => exact absurd rfl hone
    | ending => exact absurd rfl hone

theorem initBlock_of_alike {ss : List Statement}
    (hinit : ∀ s ∈ ss, ∃ name value, s = .assign name value) {e : Element}
    (h : List.Forall₂ Alike (sp.statements ss) e.children) : initBlock e = .ok ss := by
  rw [sp.statements_eq_map] at h
  refine mapM_of_alike (fun s hs child hchild => ?_) h
  obtain ⟨name, value, rfl⟩ := hinit s hs
  have htag : child.name = "assign" := hchild.name
  rw [if_pos htag]
  exact assignment_eq_ok.2 ⟨hchild.childless rfl, name, value, hchild.attribute? _,
    reads_of_alike hchild rfl (int64?_integerText value), rfl⟩

/-! ## The numbers of spots -/

/-- The circle as a tree holds it, which does not know its spot. -/
def unnumberedCircle (c : Circle) : Circle := { c with spot? := none }

def unnumbered (s : Spot) : Spot where
  center := s.center
  circles := s.circles.map unnumberedCircle
  ordered := List.pairwise_map.2 s.ordered

theorem numbered_unnumbered {s : Spot} {index : Nat}
    (h : ∀ c ∈ s.circles, c.spot? = some index) : (unnumbered s).numbered index = s := by
  obtain ⟨center, circles, ordered⟩ := s
  have hsame : (circles.map unnumberedCircle).map (fun c => { c with spot? := some index }) =
      circles := by
    rw [List.map_map]
    refine (List.map_congr_left fun c hc => ?_).trans (List.map_id circles)
    rw [Function.comp_apply, unnumberedCircle, ← h c hc]
    rfl
  simp only [Spot.numbered, unnumbered, hsame]

theorem numbered_of_linked {spots : List Spot} (h : Linked spots) :
    ((spots.map unnumbered).mapIdx fun index s => s.numbered index) = spots := by
  refine List.ext_getElem? fun i => ?_
  rw [List.getElem?_mapIdx, List.getElem?_map]
  cases hs : spots[i]? with
  | none => rfl
  | some s => exact congrArg some (numbered_unnumbered (h i s hs))

theorem circle_of_alike (hsp : sp.Faithful) {c : Circle} (hsound : ∀ s ∈ c.statements, s.Sound)
    (hvolumes : ∀ s ∈ c.statements, ∀ x ∈ s.parts, x.VolumeSpelled) {e : Element}
    (h : Alike (sp.circle c) e) : circle e = .ok (unnumberedCircle c) := by
  have htitle : e.attribute? "title" = c.title? :=
    (h.attribute? "title").trans (lookup_given "title" c.title?)
  refine circle_eq_ok.2 ⟨c.radius, c.statements,
    reads_of_alike h rfl (uint32?_radiusText c.radius),
    circleBlock_of_alike hsp hsound hvolumes h.children, ?_⟩
  rw [htitle]
  rfl

theorem spot_of_alike (hsp : sp.Faithful) {s : Spot} (hne : s.circles ≠ [])
    (hlatitude : InDegrees 90 s.center.latitude) (hlongitude : InDegrees 180 s.center.longitude)
    (hsound : ∀ c ∈ s.circles, ∀ x ∈ c.statements, x.Sound)
    (hvolumes : ∀ c ∈ s.circles, ∀ x ∈ c.statements, ∀ y ∈ x.parts, y.VolumeSpelled)
    {e : Element} (h : Alike (sp.spot s) e) : spot e = .ok (unnumbered s) := by
  have hwritten :
      List.Forall₂ Alike ((s.circles.map unnumberedCircle).map sp.circle) e.children := by
    rw [List.map_map]
    exact h.children
  have hcircles : circlesOf e = .ok (s.circles.map unnumberedCircle) := by
    refine mapM_of_alike (fun b hb child hchild => ?_) hwritten
    obtain ⟨c, hc, rfl⟩ := List.mem_map.1 hb
    have htag : child.name = "circle" := hchild.name
    rw [if_pos htag]
    exact circle_of_alike hsp (hsound c hc) (hvolumes c hc) hchild
  have hsorted : (s.circles.map unnumberedCircle).mergeSort Circle.precedes =
      s.circles.map unnumberedCircle :=
    List.mergeSort_of_pairwise (unnumbered s).ordered
  refine spot_eq_ok.2 ⟨s.center.latitude, s.center.longitude, _,
    ⟨reads_of_alike h rfl (hsp.degrees _ hlatitude.spelled), hlatitude.finite, hlatitude.limit⟩,
    ⟨reads_of_alike h rfl (hsp.degrees _ hlongitude.spelled), hlongitude.finite,
      hlongitude.limit⟩, hcircles, ?_, ?_⟩
  · rwa [Ne, List.map_eq_nil_iff]
  · simp only [Spot.of, unnumbered, hsorted]

/-! ## The story -/

theorem foldlM_spots {parent : Element} {es : List Element} {spots : List Spot}
    (h : List.Forall₂ (fun e s => e.name = "spot" ∧ spot e = .ok s) es spots)
    (contents : Contents) :
    es.foldlM (Contents.add parent) contents =
      .ok { contents with spots := contents.spots ++ spots } := by
  induction h generalizing contents with
  | nil =>
    rw [List.append_nil]
    rfl
  | @cons e s es spots hspot _ ih =>
    obtain ⟨htag, hs⟩ := hspot
    refine foldlM_cons_eq_ok.2 ⟨_, Contents.add_eq_ok.2 (Or.inr ⟨htag, s, hs, rfl⟩), ?_⟩
    rw [ih, List.append_assoc]
    rfl

theorem ofElement_of_alike (hsp : sp.Faithful) {s : Story} (hs : s.WellFormed) {e : Element}
    (h : Alike (sp.story s) e) : ofElement s.folder e = .ok s := by
  have hchildren := h.children
  obtain ⟨init, spots, hinit, hspots, hes⟩ := List.forall₂_cons_left_iff.1 hchildren
  have hblock : initBlock init = .ok s.init := initBlock_of_alike hs.init hinit.children
  have hread : List.Forall₂ (fun e spot' => e.name = "spot" ∧ spot e = .ok spot') spots
      (s.spots.map unnumbered) := by
    rw [List.forall₂_map_right_iff]
    refine forall₂_of_alike (fun t ht e he => ⟨he.name, ?_⟩) hspots
    exact spot_of_alike hsp (hs.circles t ht) (hs.latitudes t ht) (hs.longitudes t ht)
      (hs.statements t ht) (hs.volumes t ht) he
  have hcontents : e.children.foldlM (Contents.add e) Contents.none =
      .ok ⟨some s.init, s.spots.map unnumbered⟩ := by
    rw [hes]
    exact foldlM_cons_eq_ok.2 ⟨⟨some s.init, []⟩,
      Contents.add_eq_ok.2 (Or.inl ⟨hinit.name, rfl, s.init, hblock, rfl⟩), foldlM_spots hread _⟩
  have hclip : e.attribute? "introfile" = s.introClip? :=
    (h.attribute? "introfile").trans (lookup_given "introfile" s.introClip?)
  have htext : e.attribute? "introtext" = some s.introText := h.attribute? _
  refine ofElement_eq_ok.2 ⟨h.name, s.title, _, h.attribute? _, hcontents, ?_, ?_⟩
  · rw [Ne, List.map_eq_nil_iff]
    exact hs.spots
  · rw [hclip, htext]
    simp only [Story.of, numbered_of_linked hs.linked, Option.getD_some]

theorem read_written (hsp : sp.Faithful) {s : Story} (hs : s.WellFormed) :
    read (String.ofList (sp.story s).chars) s.folder = .ok s := by
  obtain ⟨root, hroot, halike⟩ := (sp.writable_story s).read
  simp only [read, hroot, ofElement_of_alike hsp hs halike]

/-! ## Only such stories -/

theorem Reads.spelled {α : Type} {read? : List Char → Option α} {e : Element} {key : String}
    {a : α} (h : Reads read? e key a) : Spelled read? a := by
  obtain ⟨text, _, hread⟩ := h
  exact ⟨text, hread⟩

theorem ReadsDegrees.inDegrees {e : Element} {key : String} {limit : Nat} {x : Float}
    (h : ReadsDegrees e key limit x) : InDegrees limit x :=
  ⟨h.1.spelled, h.2.1, h.2.2⟩

/-- The volume that a statement has by default is one that it may also give. -/
theorem spelled_default : Spelled Decimal.float32? 1.0 :=
  ⟨"1.0", rfl⟩

theorem PlainMeans.volumeSpelled {e : Element} {s : Statement} (h : PlainMeans e s) :
    s.VolumeSpelled := by
  cases h with
  | assign htag hname hvalue => trivial
  | increment htag hname hdelta => trivial
  | play htag hclip hvolume =>
    rcases hvolume.1 with hread | ⟨_, hdefault⟩
    · exact hread.spelled
    · rw [Statement.VolumeSpelled, hdefault]
      exact spelled_default
  | ending htag => trivial

theorem Means.volumeSpelled {e : Element} {s : Statement} (h : Means e s) :
    ∀ x ∈ s.parts, x.VolumeSpelled := by
  cases h with
  | plain hplain =>
    rw [hplain.plain.parts_eq]
    exact List.forall_mem_singleton.2 hplain.volumeSpelled
  | branch htag hconditions hwhenTrue hwhenFalse =>
    refine List.forall_mem_append.2 ⟨fun x hx => ?_, fun x hx => ?_⟩
    · obtain ⟨e', _, hmeans⟩ := exists_of_forall₂ hwhenTrue x hx
      exact hmeans.volumeSpelled
    · obtain ⟨e', _, hmeans⟩ := exists_of_forall₂ hwhenFalse x hx
      exact hmeans.volumeSpelled

theorem wellFormed_of_ofElement {folder : String} {root : Element} {s : Story}
    (h : ofElement folder root = .ok s) : s.WellFormed := by
  have hmeans : ∀ spot ∈ s.spots, ∃ e number, SpotMeans (some number) e spot := by
    intro spot hspot
    obtain ⟨⟨e, number⟩, _, hmeans⟩ := exists_of_forall₂ (story_mirrors h).spots spot hspot
    exact ⟨e, number, hmeans⟩
  refine ⟨sound_of_ofElement h, ?_, ?_, ?_, ?_⟩
  · obtain ⟨_, title, contents, _, _, hne, hof⟩ := ofElement_eq_ok.1 h
    rw [hof]
    intro hnil
    exact hne (List.mapIdx_eq_nil_iff.1 hnil)
  · intro spot hspot
    obtain ⟨_, _, hspot⟩ := hmeans spot hspot
    exact hspot.latitude.inDegrees
  · intro spot hspot
    obtain ⟨_, _, hspot⟩ := hmeans spot hspot
    exact hspot.longitude.inDegrees
  · intro spot hspot c hc t ht
    obtain ⟨_, _, hspot⟩ := hmeans spot hspot
    obtain ⟨e, hstatement⟩ := hspot.exists_means hc ht
    exact hstatement.volumeSpelled

/-- Markup expresses every well-formed story, and no other. -/
theorem expressed_iff_wellFormed (folder : String) (story : Story) :
    (∃ source, read source folder = .ok story) ↔ story.folder = folder ∧ story.WellFormed := by
  constructor
  · intro ⟨source, hread⟩
    unfold read at hread
    split at hread
    · cases hread
    · split at hread
      · cases hread
      · next root _ _ story' hstory =>
        cases hread
        exact ⟨(story_mirrors hstory).folder, wellFormed_of_ofElement hstory⟩
  · rintro ⟨rfl, hwell⟩
    obtain ⟨sp, hsp⟩ := Spelling.exists_faithful
    exact ⟨_, read_written hsp hwell⟩

end Story
end AudioWalk
