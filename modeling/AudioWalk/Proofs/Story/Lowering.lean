import AudioWalk.Proofs.Story.Statements

/-!
# Lowering reads the story grammar

Main statement, `ofElement_iff_isStory`: a tree becomes a story exactly where the
grammar has it, and the story then mirrors the tree.

Circles come out of their spot in the order of a stable sort, and get the number
of the spot when the story is put together.  Both change nothing else of them.
-/

namespace AudioWalk
namespace Story

open Markup (Element)

/-! ## Circles in their order -/

theorem stablySorted_mergeSort (cs : List Circle) :
    StablySorted cs (cs.mergeSort Circle.precedes) := by
  have htrans : ∀ a b c : Circle, a.precedes b = true → b.precedes c = true →
      a.precedes c = true := by
    intro a b c hab hbc
    simp only [Circle.precedes, decide_eq_true_eq] at *
    exact UInt32.le_trans hab hbc
  have htotal : ∀ a b : Circle, (a.precedes b || b.precedes a) = true := by
    intro a b
    simp only [Circle.precedes, Bool.or_eq_true, decide_eq_true_eq]
    exact UInt32.le_total a.radius b.radius
  have hperm := List.mergeSort_perm cs Circle.precedes
  refine ⟨hperm, ?_, fun r => ?_⟩
  · refine (List.pairwise_mergeSort htrans htotal cs).imp fun hab => ?_
    simpa [Circle.precedes] using hab
  · -- Those of one radius are sorted as they are given, so they stay a sublist.
    have hsorted : (cs.filter fun c => c.radius = r).Pairwise fun a b => a.precedes b := by
      refine List.pairwise_of_forall_mem_list fun a ha b hb => ?_
      have har := of_decide_eq_true (List.mem_filter.1 ha).2
      have hbr := of_decide_eq_true (List.mem_filter.1 hb).2
      rw [Circle.precedes, har, hbr]
      exact decide_eq_true UInt32.le_rfl
    have hsub := (List.sublist_mergeSort htrans htotal hsorted List.filter_sublist).filter
      fun c => c.radius = r
    rw [List.filter_filter, List.filter_congr fun c _ => Bool.and_self _] at hsub
    exact (hsub.eq_of_length (hperm.filter _).length_eq.symm).symm

theorem StablySorted.map {given sorted : List Circle} (h : StablySorted given sorted)
    {f : Circle → Circle} (hf : ∀ c, (f c).radius = c.radius) :
    StablySorted (given.map f) (sorted.map f) where
  perm := h.perm.map f
  ordered := List.pairwise_map.2 (h.ordered.imp fun hab => by rwa [hf, hf])
  stable r := by
    have hradius : ((fun c : Circle => decide (c.radius = r)) ∘ f) =
        fun c : Circle => decide (c.radius = r) := by
      funext c
      rw [Function.comp_apply, hf]
    rw [List.filter_map, List.filter_map, hradius, h.stable r]

/-! ## Circles and spots -/

theorem circle_eq_ok {e : Element} {c : Circle} :
    circle e = .ok c ↔ ∃ radius statements, Reads Text.uint32? e "radius" radius ∧
      circleBlock e = .ok statements ∧
        c = { radius, title? := e.attribute? "title", statements, spot? := none } := by
  simp only [circle, bind_eq_ok, requiredNumber_eq_ok, pure_eq_ok, exists_and_left]

theorem circle_lowers (parent : Element) :
    Lowers (fun e => if e.name = "circle" then circle e else unknownTag e parent)
      IsCircle (CircleMeans none) := by
  refine .tagged (fun e => ?_) (fun {e c} _ h => ?_) parent
  · simp only [circle_eq_ok]
    constructor
    · intro ⟨_, htag, radius, statements, hradius, hstatements, _⟩
      exact ⟨htag, ⟨radius, hradius⟩, (circleBlock_lowers.accepts e).1 ⟨statements, hstatements⟩⟩
    · intro ⟨htag, ⟨radius, hradius⟩, hall⟩
      obtain ⟨statements, hstatements⟩ := (circleBlock_lowers.accepts e).2 hall
      exact ⟨_, htag, radius, statements, hradius, hstatements, rfl⟩
  · obtain ⟨radius, statements, hradius, hstatements, hc⟩ := circle_eq_ok.1 h
    rw [hc]
    exact ⟨hradius, rfl, circleBlock_lowers.tells hstatements, rfl⟩

/-- The circles of a spot, in the order of the tree. -/
def circlesOf (e : Element) : Except Fault (List Circle) :=
  e.children.mapM fun child =>
    if child.name = "circle" then circle child else unknownTag child e

theorem circlesOf_lowers :
    Lowers circlesOf (fun e => ∀ c ∈ e.children, IsCircle c)
      (fun e cs => List.Forall₂ (CircleMeans none) e.children cs) :=
  .block circle_lowers

theorem spot_eq_ok {e : Element} {s : Spot} :
    spot e = .ok s ↔ ∃ latitude longitude circles, ReadsDegrees e "latitude" 90 latitude ∧
      ReadsDegrees e "longitude" 180 longitude ∧ circlesOf e = .ok circles ∧ circles ≠ [] ∧
        s = Spot.of ⟨latitude, longitude⟩ circles := by
  simp only [spot, bind_eq_ok, degrees_eq_ok, refused_eq_ok, pure_eq_ok, exists_and_left,
    List.isEmpty_iff]
  rfl

theorem exists_spot (e : Element) : (∃ s, e.name = "spot" ∧ spot e = .ok s) ↔ IsSpot e := by
  simp only [spot_eq_ok]
  constructor
  · intro ⟨_, htag, latitude, longitude, circles, hlatitude, hlongitude, hcircles, hne, _⟩
    have hnil := eq_nil_iff_of_forall₂ (circlesOf_lowers.tells hcircles)
    exact ⟨htag, ⟨latitude, hlatitude⟩, ⟨longitude, hlongitude⟩, fun h => hne (hnil.1 h),
      (circlesOf_lowers.accepts e).1 ⟨circles, hcircles⟩⟩
  · intro ⟨htag, ⟨latitude, hlatitude⟩, ⟨longitude, hlongitude⟩, hnonempty, hall⟩
    obtain ⟨circles, hcircles⟩ := (circlesOf_lowers.accepts e).2 hall
    have hnil := eq_nil_iff_of_forall₂ (circlesOf_lowers.tells hcircles)
    exact ⟨_, htag, latitude, longitude, circles, hlatitude, hlongitude, hcircles,
      fun h => hnonempty (hnil.2 h), rfl⟩

theorem spot_tells {e : Element} {s : Spot} (h : spot e = .ok s) : SpotMeans none e s := by
  obtain ⟨latitude, longitude, circles, hlatitude, hlongitude, hcircles, _, hs⟩ := spot_eq_ok.1 h
  rw [hs]
  exact ⟨hlatitude, hlongitude, circles, circlesOf_lowers.tells hcircles,
    stablySorted_mergeSort circles⟩

theorem SpotMeans.numbered {e : Element} {s : Spot} (h : SpotMeans none e s) (index : Nat) :
    SpotMeans (some index) e (s.numbered index) := by
  obtain ⟨hlatitude, hlongitude, cs, hcs, hsorted⟩ := h
  refine ⟨hlatitude, hlongitude, _, ?_, hsorted.map fun _ => rfl⟩
  rw [List.forall₂_map_right_iff]
  exact hcs.imp fun c d hd => ⟨hd.radius, hd.title, hd.statements, rfl⟩

theorem forall₂_numbered {es : List Element} {spots : List Spot}
    (h : List.Forall₂ (SpotMeans none) es spots) :
    List.Forall₂ (fun numbered spot => SpotMeans (some numbered.2) numbered.1 spot) es.zipIdx
      (spots.mapIdx fun index s => s.numbered index) := by
  rw [List.mapIdx_eq_zipIdx_map, List.forall₂_map_right_iff]
  generalize 0 = start
  induction h generalizing start with
  | nil => exact .nil
  | cons he hes ih => exact .cons (he.numbered start) (ih (start + 1))

/-! ## The story -/

theorem Contents.add_eq_ok {parent e : Element} {contents next : Contents} :
    Contents.add parent contents e = .ok next ↔
      (e.name = "init" ∧ contents.init? = Option.none ∧
        ∃ ss, initBlock e = .ok ss ∧ next = { contents with init? := some ss }) ∨
      (e.name = "spot" ∧
        ∃ s, spot e = .ok s ∧ next = { contents with spots := contents.spots ++ [s] }) := by
  rw [Contents.add]
  by_cases hinit : e.name = "init"
  · rw [if_pos hinit, refused_eq_ok, bind_eq_ok]
    constructor
    · intro h
      obtain ⟨hnone, ss, hss, hnext⟩ := h
      exact Or.inl ⟨hinit, by simpa using hnone, ss, hss, pure_eq_ok.1 hnext⟩
    · intro h
      rcases h with ⟨_, hnone, ss, hss, hnext⟩ | ⟨hspot, _⟩
      · exact ⟨by simp [hnone], ss, hss, pure_eq_ok.2 hnext⟩
      · exact absurd (hinit.symm.trans hspot) (by decide)
  · rw [if_neg hinit, unknownTag, guarded_eq_ok, bind_eq_ok]
    constructor
    · intro h
      obtain ⟨hspot, s, hs, hnext⟩ := h
      exact Or.inr ⟨hspot, s, hs, pure_eq_ok.1 hnext⟩
    · intro h
      rcases h with ⟨htag, _⟩ | ⟨hspot, s, hs, hnext⟩
      · exact absurd htag hinit
      · exact ⟨hspot, s, hs, pure_eq_ok.2 hnext⟩

theorem length_tagged_cons (e : Element) (es : List Element) (tag : String) :
    (tagged (e :: es) tag).length = (if e.name = tag then 1 else 0) + (tagged es tag).length := by
  by_cases h : e.name = tag
  · rw [tagged, List.filter_cons_of_pos (by simpa using h), if_pos h, List.length_cons,
      Nat.add_comm]
    rfl
  · rw [tagged, List.filter_cons_of_neg (by simpa using h), if_neg h, Nat.zero_add]
    rfl

/-- An `init` block may come where none has been read. -/
theorem exists_contents {parent : Element} {es : List Element} {contents : Contents} :
    (∃ last, es.foldlM (Contents.add parent) contents = .ok last) ↔
      (∀ e ∈ es, IsInit e ∨ IsSpot e) ∧
        contents.init?.toList.length + (tagged es "init").length ≤ 1 := by
  induction es generalizing contents with
  | nil =>
    refine ⟨fun _ => ⟨nofun, ?_⟩, fun _ => ⟨contents, rfl⟩⟩
    cases contents.init? with
    | none => exact Nat.zero_le 1
    | some ss => exact Nat.le_refl 1
  | cons e es ih =>
    simp only [foldlM_cons_eq_ok, Contents.add_eq_ok]
    rw [List.forall_mem_cons, length_tagged_cons]
    constructor
    · intro ⟨last, next, hnext, hlast⟩
      obtain ⟨hall, hcount⟩ := ih.1 ⟨last, hlast⟩
      rcases hnext with ⟨htag, hnone, ss, hss, hnext⟩ | ⟨htag, s, hs, hnext⟩
      · have hinit : IsInit e := ⟨htag, (initBlock_lowers.accepts e).1 ⟨ss, hss⟩⟩
        rw [hnext] at hcount
        rw [hnone, if_pos htag, Option.toList_none, List.length_nil, Nat.zero_add]
        exact ⟨⟨Or.inl hinit, hall⟩, hcount⟩
      · have hspot : IsSpot e := (exists_spot e).1 ⟨s, htag, hs⟩
        have hne : e.name ≠ "init" := ne_of_eq_of_ne htag (by decide)
        rw [hnext] at hcount
        rw [if_neg hne, Nat.zero_add]
        exact ⟨⟨Or.inr hspot, hall⟩, hcount⟩
    · intro ⟨⟨he, hall⟩, hcount⟩
      rcases he with hinit | hspot
      · obtain ⟨ss, hss⟩ := (initBlock_lowers.accepts e).2 hinit.statements
        rw [if_pos hinit.tag] at hcount
        have hnone : contents.init? = none := by
          rw [← Option.toList_eq_nil_iff, ← List.length_eq_zero_iff]
          omega
        rw [hnone, Option.toList_none, List.length_nil, Nat.zero_add] at hcount
        let next : Contents := { contents with init? := some ss }
        have hnext : next.init?.toList.length + (tagged es "init").length ≤ 1 := hcount
        obtain ⟨last, hlast⟩ := ih.2 ⟨hall, hnext⟩
        exact ⟨last, _, Or.inl ⟨hinit.tag, hnone, ss, hss, rfl⟩, hlast⟩
      · obtain ⟨s, htag, hs⟩ := (exists_spot e).2 hspot
        have hne : e.name ≠ "init" := ne_of_eq_of_ne htag (by decide)
        rw [if_neg hne, Nat.zero_add] at hcount
        let next : Contents := { contents with spots := contents.spots ++ [s] }
        have hnext : next.init?.toList.length + (tagged es "init").length ≤ 1 := hcount
        obtain ⟨last, hlast⟩ := ih.2 ⟨hall, hnext⟩
        exact ⟨last, _, Or.inr ⟨htag, s, hs, rfl⟩, hlast⟩

theorem exists_contents_none {parent : Element} {es : List Element} :
    (∃ contents, es.foldlM (Contents.add parent) Contents.none = .ok contents) ↔
      (∀ e ∈ es, IsInit e ∨ IsSpot e) ∧ (tagged es "init").length ≤ 1 := by
  rw [exists_contents, Contents.none, Option.toList_none, List.length_nil, Nat.zero_add]

/-- What has been read of a story is what stands in the children that are done. -/
structure Contents.Tells (done : List Element) (contents : Contents) : Prop where
  init : List.Forall₂ (fun e ss => List.Forall₂ PlainMeans e.children ss) (tagged done "init")
    contents.init?.toList
  spots : List.Forall₂ (SpotMeans Option.none) (tagged done "spot") contents.spots

theorem Contents.Tells.add {parent e : Element} {done : List Element} {contents next : Contents}
    (h : contents.Tells done) (hnext : Contents.add parent contents e = .ok next) :
    next.Tells (done ++ [e]) := by
  rcases Contents.add_eq_ok.1 hnext with ⟨htag, hnone, ss, hss, hnext⟩ | ⟨htag, s, hs, hnext⟩
  · have hne : e.name ≠ "spot" := by
      rw [htag]
      decide
    have hinit := h.init
    rw [hnone] at hinit
    rw [hnext]
    constructor
    · rw [tagged_append_of_eq htag]
      exact List.rel_append hinit (.cons (initBlock_lowers.tells hss) .nil)
    · rw [tagged_append_of_ne hne]
      exact h.spots
  · have hne : e.name ≠ "init" := by
      rw [htag]
      decide
    rw [hnext]
    constructor
    · rw [tagged_append_of_ne hne]
      exact h.init
    · rw [tagged_append_of_eq htag]
      exact List.rel_append h.spots (.cons (spot_tells hs) .nil)

theorem ofElement_eq_ok {folder : String} {root : Element} {s : Story} :
    ofElement folder root = .ok s ↔ root.name = "story" ∧ ∃ title contents,
      root.attribute? "title" = some title ∧
        root.children.foldlM (Contents.add root) Contents.none = .ok contents ∧
        contents.spots ≠ [] ∧
        s = Story.of title folder (root.attribute? "introfile")
          ((root.attribute? "introtext").getD "") (contents.init?.getD []) contents.spots := by
  simp only [ofElement, guarded_eq_ok, refused_eq_ok, bind_eq_ok, required_eq_ok, pure_eq_ok,
    exists_and_left, List.isEmpty_iff]

theorem contents_tells {parent : Element} {es : List Element} {contents : Contents}
    (h : es.foldlM (Contents.add parent) Contents.none = .ok contents) : contents.Tells es := by
  have hnone : Contents.none.Tells [] := ⟨.nil, .nil⟩
  exact foldlM_invariant (fun h hnext => h.add hnext) hnone h

theorem exists_story (folder : String) (root : Element) :
    (∃ s, ofElement folder root = .ok s) ↔ IsStory root := by
  simp only [ofElement_eq_ok]
  constructor
  · intro ⟨_, htag, title, contents, htitle, hcontents, hne, _⟩
    obtain ⟨hall, hinit⟩ := exists_contents_none.1 ⟨contents, hcontents⟩
    have hnil := eq_nil_iff_of_forall₂ (contents_tells hcontents).spots
    exact ⟨htag, ⟨title, htitle⟩, hall, hinit, fun h => hne (hnil.1 h)⟩
  · intro ⟨htag, ⟨title, htitle⟩, hall, hinit, hspots⟩
    obtain ⟨contents, hcontents⟩ := exists_contents_none.2 ⟨hall, hinit⟩
    have hnil := eq_nil_iff_of_forall₂ (contents_tells hcontents).spots
    exact ⟨_, htag, title, contents, htitle, hcontents, fun h => hspots (hnil.2 h), rfl⟩

theorem story_mirrors {folder : String} {root : Element} {s : Story}
    (h : ofElement folder root = .ok s) : Mirrors folder root s := by
  obtain ⟨_, title, contents, htitle, hcontents, _, hs⟩ := ofElement_eq_ok.1 h
  have htells := contents_tells hcontents
  rw [hs]
  refine ⟨htitle, rfl, rfl, rfl, ?_, forall₂_numbered htells.spots⟩
  have hflat : contents.init?.getD [] = contents.init?.toList.flatMap id := by
    cases contents.init? with
    | none => rfl
    | some ss => exact (List.flatMap_singleton id ss).symm
  have hinit : List.Forall₂ PlainMeans (below root.children "init") (contents.init?.getD []) := by
    rw [hflat]
    exact List.rel_flatMap htells.init fun _ _ h => h
  exact hinit

/-- Lowering succeeds on the trees of the grammar and on no others, and the story
mirrors its tree. -/
theorem ofElement_iff_isStory (folder : String) (root : Element) :
    ((∃ s, ofElement folder root = .ok s) ↔ IsStory root) ∧
      ∀ s, ofElement folder root = .ok s → Mirrors folder root s :=
  ⟨exists_story folder root, fun _ h => story_mirrors h⟩

end Story
end AudioWalk
