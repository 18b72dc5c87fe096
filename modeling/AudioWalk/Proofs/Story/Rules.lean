import AudioWalk.Proofs.Markup.Lines
import AudioWalk.Proofs.Story.Lowering

/-!
# Breaking the rules of a story

What an element of a tree can do wrong, told without a reader.  Three tables say what
its tag asks of an element: the tags that may stand in it, the attributes that it must
have, and the attributes that hold numbers.  An element breaks a rule by itself
(`Breaks`) or by standing where it stands among the children of another (`BreaksIn`),
and the cause says which rule.

A tree in which no element breaks a rule is a story, and the other way round.  This
module has the second half, `IsStory.not_guilty`: a story has no guilty element.
-/

namespace AudioWalk
namespace Story

open Markup (Element)

/-! ## What a tag asks of an element -/

/-- The tags that may stand in an element of a tag. -/
def allowedIn : String → List String
  | "story" => ["init", "spot"]
  | "init" => ["assign"]
  | "spot" => ["circle"]
  | "circle" => ["assign", "increment", "play", "end", "if"]
  | "if" => ["condition", "then", "else"]
  | "condition" => ["equals"]
  | "then" => ["assign", "increment", "play", "end"]
  | "else" => ["assign", "increment", "play", "end"]
  | _ => []

/-- The elements in which nothing may stand. -/
def leafTags : List String := ["assign", "increment", "play", "end", "equals"]

/-- The attributes that an element of a tag must have. -/
def mandatory : String → List String
  | "story" => ["title"]
  | "spot" => ["latitude", "longitude"]
  | "circle" => ["radius"]
  | "assign" => ["variable", "value"]
  | "increment" => ["variable"]
  | "play" => ["file"]
  | "equals" => ["element1", "element2"]
  | _ => []

/-- The kinds of number that an attribute may hold. -/
inductive Quantity where
  | integer
  | metres
  | degrees (limit : Nat)
  | volume
deriving DecidableEq

/-- The texts of numbers of a kind, in whatever range. -/
def Quantity.Spells : Quantity → List Char → Prop
  | integer, cs => ∃ i, Text.int64? cs = some i
  | metres, cs => ∃ r, Text.uint32? cs = some r
  | degrees _, cs => ∃ x, Decimal.float? cs = some x
  | volume, cs => ∃ v, Decimal.float32? cs = some v

/-- The attributes of an element that hold numbers, if they are there. -/
def quantities : String → List (String × Quantity)
  | "spot" => [("latitude", .degrees 90), ("longitude", .degrees 180)]
  | "circle" => [("radius", .metres)]
  | "assign" => [("value", .integer)]
  | "increment" => [("value", .integer)]
  | "play" => [("volume", .volume)]
  | _ => []

/-! ## What an element can do wrong -/

/-- The rules that an element breaks by itself. -/
inductive Breaks (e : Element) : Cause → Prop
  | missing {key : String} (hkey : key ∈ mandatory e.name) (h : ¬ Has e key) :
    Breaks e (.missingAttribute key)
  | unreadable {key raw : String} {kind : Quantity} (hkey : (key, kind) ∈ quantities e.name)
    (hraw : e.attribute? key = some raw) (h : ¬ kind.Spells (Text.trim raw.toList)) :
    Breaks e (.notNumber key raw)
  | degrees {key : String} {limit : Nat} {x : Float}
    (hkey : (key, .degrees limit) ∈ quantities e.name) (hx : Reads Decimal.float? e key x)
    (h : ¬ (x.isFinite ∧ x.abs ≤ Float.ofNat limit)) : Breaks e (.outsideDegrees key limit)
  | volume {key : String} {v : Float32} (hkey : (key, .volume) ∈ quantities e.name)
    (hv : Reads Decimal.float32? e key v) (h : ¬ (0.0 ≤ v ∧ v ≤ 1.0)) : Breaks e .volumeRange
  | noSpots (htag : e.name = "story") (h : ∀ c ∈ e.children, c.name ≠ "spot") : Breaks e .noSpots
  | noCircles (htag : e.name = "spot") (h : ∀ c ∈ e.children, c.name ≠ "circle") :
    Breaks e .noCircles

/-- The rules that an element breaks as a child of another. -/
inductive BreaksIn (parent e : Element) : Cause → Prop
  | unknownTag (he : e ∈ parent.children) (h : e.name ∉ allowedIn parent.name) :
    BreaksIn parent e (.unknownTag parent.name)
  | childOfLeaf (he : e ∈ parent.children) (hleaf : parent.name ∈ leafTags) :
    BreaksIn parent e (.childOfLeaf parent.name)
  | secondInit {first : Element} {before after : List Element} (htag : parent.name = "story")
    (hsplit : parent.children = before ++ e :: after) (he : e.name = "init")
    (hfirst : first ∈ before) (h : first.name = "init") : BreaksIn parent e .secondInit
  | partOrder {earlier : Element} {before after : List Element} {part last : Part}
    (htag : parent.name = "if") (hsplit : parent.children = before ++ e :: after)
    (he : e.name = part.tag) (hearlier : earlier ∈ before) (hlast : earlier.name = last.tag)
    (h : part.rank ≤ last.rank) : BreaksIn parent e .partOrder

/-- Somewhere in the tree `e`, the element `d` breaks a rule. -/
inductive Wrong (e d : Element) : Cause → Prop
  | own {cause : Cause} (hd : e.Contains d) (h : Breaks d cause) : Wrong e d cause
  | placed {parent : Element} {cause : Cause} (hparent : e.Contains parent)
    (h : BreaksIn parent d cause) : Wrong e d cause

theorem Wrong.inside {e c d : Element} {cause : Cause} (hc : c ∈ e.children)
    (h : Wrong c d cause) : Wrong e d cause := by
  cases h with
  | own hd h => exact .own (.inside hc hd) h
  | placed hparent h => exact .placed (.inside hc hparent) h

/-- What keeps a tree from being a story: its root has the wrong tag, or an element
breaks a rule. -/
inductive Guilty (root : Element) : Element → Cause → Prop
  | wrongRoot (h : root.name ≠ "story") : Guilty root root .wrongRoot
  | wrong {e : Element} {cause : Cause} (h : Wrong root e cause) : Guilty root e cause

theorem BreaksIn.mem {parent e : Element} {cause : Cause} (h : BreaksIn parent e cause) :
    e ∈ parent.children := by
  cases h with
  | unknownTag he _ => exact he
  | childOfLeaf he _ => exact he
  | secondInit _ hsplit _ _ _ =>
    rw [hsplit]
    exact List.mem_append_right _ List.mem_cons_self
  | partOrder _ hsplit _ _ _ _ =>
    rw [hsplit]
    exact List.mem_append_right _ List.mem_cons_self

theorem Guilty.contains {root e : Element} {cause : Cause} (h : Guilty root e cause) :
    root.Contains e := by
  cases h with
  | wrongRoot _ => exact .self
  | wrong h =>
    cases h with
    | own he _ => exact he
    | placed hparent h => exact hparent.child h.mem

/-! ## Elements that keep the rules -/

/-- The texts of numbers of a kind that are in its range. -/
def Quantity.Allows : Quantity → List Char → Prop
  | integer, cs => ∃ i, Text.int64? cs = some i
  | metres, cs => ∃ r, Text.uint32? cs = some r
  | degrees limit, cs =>
    ∃ x, Decimal.float? cs = some x ∧ x.isFinite ∧ x.abs ≤ Float.ofNat limit
  | volume, cs => ∃ v, Decimal.float32? cs = some v ∧ 0.0 ≤ v ∧ v ≤ 1.0

theorem Quantity.Allows.spells {kind : Quantity} {cs : List Char} (h : kind.Allows cs) :
    kind.Spells cs := by
  cases kind with
  | integer => exact h
  | metres => exact h
  | degrees limit => exact h.imp fun _ hx => hx.1
  | volume => exact h.imp fun _ hv => hv.1

/-- What a tag asks of the children as a whole. -/
def Fits : String → List Element → Prop
  | "story", es => tagged es "spot" ≠ [] ∧ (tagged es "init").length ≤ 1
  | "spot", es => es ≠ []
  | "if", es => (es.map Element.name).Sublist Part.tags
  | _, _ => True

/-- An element that keeps the rules of its tag, its children apart. -/
structure Keeps (tag : String) (e : Element) : Prop where
  named : e.name = tag
  mandatory : ∀ key ∈ mandatory tag, Has e key
  numbers : ∀ q ∈ quantities tag, ∀ raw, e.attribute? q.1 = some raw →
    q.2.Allows (Text.trim raw.toList)
  allowed : ∀ c ∈ e.children, c.name ∈ allowedIn tag
  fits : Fits tag e.children

theorem tagged_append (xs ys : List Element) (tag : String) :
    tagged (xs ++ ys) tag = tagged xs tag ++ tagged ys tag :=
  List.filter_append _ _

namespace Keeps

variable {tag : String} {e c : Element} {cause : Cause}

theorem not_breaks (h : Keeps tag e) : ¬ Breaks e cause := by
  intro hbreaks
  obtain ⟨rfl, hmandatory, hnumbers, hallowed, hfits⟩ := h
  cases hbreaks with
  | missing hkey h => exact h (hmandatory _ hkey)
  | unreadable hkey hraw h => exact h (hnumbers _ hkey _ hraw).spells
  | degrees hkey hx h =>
    obtain ⟨raw, hraw, hread⟩ := hx
    obtain ⟨y, hy, hrange⟩ := hnumbers _ hkey _ hraw
    rw [Option.some.inj (hread.symm.trans hy)] at h
    exact h hrange
  | volume hkey hv h =>
    obtain ⟨raw, hraw, hread⟩ := hv
    obtain ⟨w, hw, hrange⟩ := hnumbers _ hkey _ hraw
    rw [Option.some.inj (hread.symm.trans hw)] at h
    exact h hrange
  | noSpots htag h =>
    rw [htag] at hfits
    refine hfits.1 (List.filter_eq_nil_iff.2 fun c hc => ?_)
    simpa using h c hc
  | noCircles htag h =>
    rw [htag] at hfits hallowed
    obtain ⟨c, hc⟩ := List.exists_mem_of_ne_nil _ hfits
    exact h c hc (List.mem_singleton.1 (hallowed c hc))

theorem not_breaksIn (h : Keeps tag e) : ¬ BreaksIn e c cause := by
  intro hbreaks
  obtain ⟨rfl, hmandatory, hnumbers, hallowed, hfits⟩ := h
  cases hbreaks with
  | unknownTag hc h => exact h (hallowed c hc)
  | childOfLeaf hc hleaf =>
    have hname := hallowed c hc
    simp only [leafTags, List.mem_cons, List.not_mem_nil, or_false] at hleaf
    rcases hleaf with h | h | h | h | h
    all_goals
      rw [h] at hname
      exact List.not_mem_nil hname
  | @secondInit first before after htag hsplit hc hfirst h =>
    rw [htag] at hfits
    have hcount := hfits.2
    have hearlier : first ∈ tagged before "init" := List.mem_filter.2 ⟨hfirst, decide_eq_true h⟩
    have hpos := List.length_pos_of_mem hearlier
    rw [hsplit, tagged_append, List.length_append, length_tagged_cons, if_pos hc] at hcount
    omega
  | @partOrder earlier before after part last htag hsplit hc hearlier hlast h =>
    rw [htag] at hfits
    have horder : [last.tag, part.tag].Sublist (Part.tags.drop 0) := by
      have hpair : [earlier, c].Sublist e.children := by
        rw [hsplit]
        exact (List.singleton_sublist.2 hearlier).append
          (List.singleton_sublist.2 List.mem_cons_self)
      rw [← hlast, ← hc]
      exact (hpair.map Element.name).trans hfits
    obtain ⟨p, hp, _, hrest⟩ := cons_sublist_tags.1 horder
    obtain ⟨q, hq, hrank, _⟩ := cons_sublist_tags.1 hrest
    rw [← Part.eq_of_tag hp, ← Part.eq_of_tag hq] at hrank
    exact Nat.not_le.2 hrank h

end Keeps

/-- Nothing in the tree breaks a rule. -/
def Flawless (e : Element) : Prop := ∀ d cause, ¬ Wrong e d cause

theorem Keeps.flawless {tag : String} {e : Element} (h : Keeps tag e)
    (hchildren : ∀ c ∈ e.children, Flawless c) : Flawless e := by
  intro d cause hwrong
  cases hwrong with
  | own hd hbreaks =>
    cases hd with
    | self => exact h.not_breaks hbreaks
    | inside hc hd => exact hchildren _ hc d cause (.own hd hbreaks)
  | placed hparent hbreaks =>
    cases hparent with
    | self => exact h.not_breaksIn hbreaks
    | inside hc hparent => exact hchildren _ hc d cause (.placed hparent hbreaks)

theorem Keeps.flawless_leaf {tag : String} {e : Element} (h : Keeps tag e)
    (hleaf : e.children = []) : Flawless e := by
  apply h.flawless
  rw [hleaf]
  exact List.forall_mem_nil _

/-! ## Nothing is wrong with a story -/

section

variable {α : Type} {read? : List Char → Option α} {e : Element} {key : String} {a default : α}

theorem Reads.has (h : Reads read? e key a) : Has e key := h.imp fun _ ht => ht.1

theorem Reads.of_text {raw : String} (h : Reads read? e key a)
    (hraw : e.attribute? key = some raw) : read? (Text.trim raw.toList) = some a := by
  obtain ⟨text, htext, hread⟩ := h
  rwa [Option.some.inj (hraw.symm.trans htext)]

theorem ReadsOr.reads {raw : String} (h : ReadsOr read? e key default a)
    (hraw : e.attribute? key = some raw) : Reads read? e key a := by
  rcases h with hreads | ⟨hnone, _⟩
  · exact hreads
  · exact absurd (hraw.symm.trans hnone) nofun

theorem ReadsDegrees.allows {limit : Nat} {x : Float} {raw : String}
    (h : ReadsDegrees e key limit x) (hraw : e.attribute? key = some raw) :
    (Quantity.degrees limit).Allows (Text.trim raw.toList) :=
  ⟨x, h.1.of_text hraw, h.2⟩

end

theorem IsAssign.flawless {e : Element} (h : IsAssign e) : Flawless e := by
  obtain ⟨i, hi⟩ := h.value
  have hkeeps : Keeps "assign" e := by
    refine ⟨h.tag, ?_, ?_, ?_, trivial⟩
    · exact List.forall_mem_cons.2 ⟨h.target, List.forall_mem_singleton.2 hi.has⟩
    · exact List.forall_mem_singleton.2 fun raw hraw => ⟨i, hi.of_text hraw⟩
    · rw [h.leaf]
      exact List.forall_mem_nil _
  exact hkeeps.flawless_leaf h.leaf

theorem IsIncrement.flawless {e : Element} (h : IsIncrement e) : Flawless e := by
  obtain ⟨i, hi⟩ := h.value
  have hkeeps : Keeps "increment" e := by
    refine ⟨h.tag, ?_, ?_, ?_, trivial⟩
    · exact List.forall_mem_singleton.2 h.target
    · exact List.forall_mem_singleton.2 fun raw hraw => ⟨i, (hi.reads hraw).of_text hraw⟩
    · rw [h.leaf]
      exact List.forall_mem_nil _
  exact hkeeps.flawless_leaf h.leaf

theorem IsPlay.flawless {e : Element} (h : IsPlay e) : Flawless e := by
  obtain ⟨v, hv, hrange⟩ := h.volume
  have hkeeps : Keeps "play" e := by
    refine ⟨h.tag, ?_, ?_, ?_, trivial⟩
    · exact List.forall_mem_singleton.2 h.clip
    · exact List.forall_mem_singleton.2 fun raw hraw => ⟨v, (hv.reads hraw).of_text hraw, hrange⟩
    · rw [h.leaf]
      exact List.forall_mem_nil _
  exact hkeeps.flawless_leaf h.leaf

theorem IsEnd.flawless {e : Element} (h : IsEnd e) : Flawless e := by
  have hkeeps : Keeps "end" e := by
    refine ⟨h.tag, List.forall_mem_nil _, List.forall_mem_nil _, ?_, trivial⟩
    rw [h.leaf]
    exact List.forall_mem_nil _
  exact hkeeps.flawless_leaf h.leaf

theorem IsEquals.flawless {e : Element} (h : IsEquals e) : Flawless e := by
  have hkeeps : Keeps "equals" e := by
    refine ⟨h.tag, ?_, List.forall_mem_nil _, ?_, trivial⟩
    · exact List.forall_mem_cons.2 ⟨h.left, List.forall_mem_singleton.2 h.right⟩
    · rw [h.leaf]
      exact List.forall_mem_nil _
  exact hkeeps.flawless_leaf h.leaf

theorem IsPlain.flawless {e : Element} (h : IsPlain e) : Flawless e := by
  rcases h with h | h | h | h
  · exact h.flawless
  · exact h.flawless
  · exact h.flawless
  · exact h.flawless

theorem Leaf.mem_tags {tag : String} :
    tag ∈ ["assign", "increment", "play", "end"] ↔ ∃ kind : Leaf, tag = kind.tag := by
  simp only [List.mem_cons, List.not_mem_nil, or_false]
  constructor
  · rintro (h | h | h | h)
    · exact ⟨.assign, h⟩
    · exact ⟨.increment, h⟩
    · exact ⟨.play, h⟩
    · exact ⟨.ending, h⟩
  · rintro ⟨kind, h⟩
    rw [h]
    cases kind <;> decide

theorem IsPlain.name_mem {e : Element} (h : IsPlain e) :
    e.name ∈ ["assign", "increment", "play", "end"] := by
  obtain ⟨kind, hkind⟩ := isPlain_iff.1 h
  exact Leaf.mem_tags.2 ⟨kind, hkind.tag⟩

/-- A part of an `if` whose children are what belongs there. -/
theorem Part.flawless (part : Part) {e : Element} (htag : e.name = part.tag) (h : part.Is e) :
    Flawless e := by
  cases part with
  | condition =>
    have hkeeps : Keeps "condition" e :=
      ⟨htag, List.forall_mem_nil _, List.forall_mem_nil _,
        fun c hc => List.mem_singleton.2 (h c hc).tag, trivial⟩
    exact hkeeps.flawless fun c hc => (h c hc).flawless
  | whenTrue =>
    have hkeeps : Keeps "then" e :=
      ⟨htag, List.forall_mem_nil _, List.forall_mem_nil _, fun c hc => (h c hc).name_mem, trivial⟩
    exact hkeeps.flawless fun c hc => (h c hc).flawless
  | whenFalse =>
    have hkeeps : Keeps "else" e :=
      ⟨htag, List.forall_mem_nil _, List.forall_mem_nil _, fun c hc => (h c hc).name_mem, trivial⟩
    exact hkeeps.flawless fun c hc => (h c hc).flawless

theorem IsIf.flawless {e : Element} (h : IsIf e) : Flawless e := by
  have hallowed : ∀ c ∈ e.children, c.name ∈ Part.tags := fun c hc =>
    h.parts.subset (List.mem_map_of_mem hc)
  have hkeeps : Keeps "if" e :=
    ⟨h.tag, List.forall_mem_nil _, List.forall_mem_nil _, hallowed, h.parts⟩
  refine hkeeps.flawless fun c hc => ?_
  obtain ⟨part, hpart⟩ := Part.mem_tags.1 (hallowed c hc)
  exact part.flawless hpart (h.part_is hc part hpart)

theorem IsCircle.flawless {e : Element} (h : IsCircle e) : Flawless e := by
  obtain ⟨r, hr⟩ := h.radius
  have hkeeps : Keeps "circle" e := by
    refine ⟨h.tag, List.forall_mem_singleton.2 hr.has, ?_, fun c hc => ?_, trivial⟩
    · exact List.forall_mem_singleton.2 fun raw hraw => ⟨r, hr.of_text hraw⟩
    · rcases h.statements c hc with hplain | hif
      · exact List.mem_append_left ["if"] hplain.name_mem
      · exact List.mem_append_right ["assign", "increment", "play", "end"]
          (List.mem_singleton.2 hif.tag)
  refine hkeeps.flawless fun c hc => ?_
  rcases h.statements c hc with hplain | hif
  · exact hplain.flawless
  · exact hif.flawless

theorem IsSpot.flawless {e : Element} (h : IsSpot e) : Flawless e := by
  obtain ⟨x, hx⟩ := h.latitude
  obtain ⟨y, hy⟩ := h.longitude
  have hkeeps : Keeps "spot" e := by
    refine ⟨h.tag, ?_, ?_, ?_, h.nonempty⟩
    · exact List.forall_mem_cons.2 ⟨hx.1.has, List.forall_mem_singleton.2 hy.1.has⟩
    · refine List.forall_mem_cons.2 ⟨fun raw hraw => hx.allows hraw, ?_⟩
      exact List.forall_mem_singleton.2 fun raw hraw => hy.allows hraw
    · exact fun c hc => List.mem_singleton.2 (h.circles c hc).tag
  exact hkeeps.flawless fun c hc => (h.circles c hc).flawless

theorem IsInit.flawless {e : Element} (h : IsInit e) : Flawless e := by
  have hkeeps : Keeps "init" e :=
    ⟨h.tag, List.forall_mem_nil _, List.forall_mem_nil _,
      fun c hc => List.mem_singleton.2 (h.statements c hc).tag, trivial⟩
  exact hkeeps.flawless fun c hc => (h.statements c hc).flawless

theorem IsStory.flawless {root : Element} (h : IsStory root) : Flawless root := by
  have hkeeps : Keeps "story" root := by
    refine ⟨h.tag, List.forall_mem_singleton.2 h.title, List.forall_mem_nil _, fun c hc => ?_,
      h.spots, h.init⟩
    rcases h.children c hc with hinit | hspot
    · exact List.mem_cons.2 (Or.inl hinit.tag)
    · exact List.mem_cons_of_mem _ (List.mem_singleton.2 hspot.tag)
  refine hkeeps.flawless fun c hc => ?_
  rcases h.children c hc with hinit | hspot
  · exact hinit.flawless
  · exact hspot.flawless

theorem IsStory.not_guilty {root e : Element} {cause : Cause} (h : IsStory root) :
    ¬ Guilty root e cause := by
  intro hguilty
  cases hguilty with
  | wrongRoot hname => exact hname h.tag
  | wrong hwrong => exact h.flawless e cause hwrong

end Story
end AudioWalk
