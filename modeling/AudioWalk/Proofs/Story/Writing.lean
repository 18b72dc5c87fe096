import AudioWalk.Proofs.Markup.Writing
import AudioWalk.Proofs.Story.Sound
import AudioWalk.Proofs.Text.Whole

/-!
# Writing a story as a tree

The tree of a story has an element for each of its parts.  Everything that has a
default is written all the same, so that no default takes its place; only a clip or
a title that a story does not have is left out.

Degrees and volumes are written by a `Spelling`, which a story cannot tell: several
texts stand for one number.
-/

namespace AudioWalk
namespace Story

open Markup (Element IsName)

variable {α : Type}

/-! ## Numbers -/

/-- A number that the text of some attribute stands for. -/
def Spelled (read? : List Char → Option α) (a : α) : Prop :=
  ∃ text : String, read? (Text.trim text.toList) = some a

/-- Texts for the numbers that are not whole. -/
structure Spelling where
  degrees : Float → String
  volume : Float32 → String

/-- What has a text is spelled by such a text. -/
structure Spelling.Faithful (sp : Spelling) : Prop where
  degrees : ∀ x, Spelled Decimal.float? x →
    Decimal.float? (Text.trim (sp.degrees x).toList) = some x
  volume : ∀ v, Spelled Decimal.float32? v →
    Decimal.float32? (Text.trim (sp.volume v).toList) = some v

theorem exists_texts (read? : List Char → Option α) :
    ∃ text : α → String, ∀ a, Spelled read? a →
      read? (Text.trim (text a).toList) = some a := by
  have hone : ∀ a, ∃ text : String, Spelled read? a →
      read? (Text.trim text.toList) = some a := by
    intro a
    by_cases h : Spelled read? a
    · obtain ⟨text, htext⟩ := h
      exact ⟨text, fun _ => htext⟩
    · exact ⟨"", fun hspelled => absurd hspelled h⟩
  exact Classical.skolem.1 hone

theorem Spelling.exists_faithful : ∃ sp : Spelling, sp.Faithful := by
  obtain ⟨degrees, hdegrees⟩ := exists_texts Decimal.float?
  obtain ⟨volume, hvolume⟩ := exists_texts Decimal.float32?
  exact ⟨⟨degrees, volume⟩, hdegrees, hvolume⟩

def integerText (i : Int64) : String := String.ofList (Decimal.Numeral.ofInt i.toInt).chars

def radiusText (r : UInt32) : String := String.ofList (Decimal.Numeral.ofNat r.toNat).chars

/-! ## Elements -/

/-- An element that stands nowhere yet. -/
def node (name : String) (attributes : List (String × String)) (children : List Element) :
    Element :=
  ⟨name, attributes, children, 0⟩

/-- An attribute that may be missing. -/
def given (key : String) (value? : Option String) : List (String × String) :=
  value?.toList.map fun value => (key, value)

def equals (c : Condition) : Element :=
  node "equals" [("element1", c.left), ("element2", c.right)] []

namespace Spelling

variable (sp : Spelling)

mutual

def statement : Statement → Element
  | .assign name value => node "assign" [("variable", name), ("value", integerText value)] []
  | .increment name delta =>
    node "increment" [("variable", name), ("value", integerText delta)] []
  | .play clip text volume =>
    node "play" [("file", clip), ("text", text), ("volume", sp.volume volume)] []
  | .branch conditions whenTrue whenFalse =>
    node "if" [] [node "condition" [] (conditions.map equals),
      node "then" [] (statements whenTrue), node "else" [] (statements whenFalse)]
  | .ending => node "end" [] []

def statements : List Statement → List Element
  | [] => []
  | s :: ss => statement s :: statements ss

end

def circle (c : Circle) : Element :=
  node "circle" (("radius", radiusText c.radius) :: given "title" c.title?)
    (sp.statements c.statements)

def spot (s : Spot) : Element :=
  node "spot" [("latitude", sp.degrees s.center.latitude),
    ("longitude", sp.degrees s.center.longitude)] (s.circles.map sp.circle)

def story (s : Story) : Element :=
  node "story" (("title", s.title) :: ("introtext", s.introText) :: given "introfile" s.introClip?)
    (node "init" [] (sp.statements s.init) :: s.spots.map sp.spot)

theorem statements_eq_map (ss : List Statement) : sp.statements ss = ss.map sp.statement := by
  induction ss with
  | nil => rfl
  | cons s ss ih => rw [statements, ih, List.map_cons]

end Spelling

/-! ## Such trees can be written -/

theorem writable_node {name : String} {attributes : List (String × String)}
    {children : List Element} (keys : List String)
    (hkeys : (attributes.map Prod.fst).Sublist keys) (hnames : ∀ key ∈ keys, IsName key.toList)
    (hdistinct : keys.Nodup) (hname : IsName name.toList) (hchildren : ∀ c ∈ children, c.Writable) :
    (node name attributes children).Writable :=
  .mk ⟨hname, fun key hkey => hnames key (hkeys.mem hkey), hdistinct.sublist hkeys⟩ hchildren

theorem writable_bare {name : String} {children : List Element} (hname : IsName name.toList)
    (hchildren : ∀ c ∈ children, c.Writable) : (node name [] children).Writable :=
  writable_node [] (.refl _) (List.forall_mem_nil _) List.nodup_nil hname hchildren

theorem given_sublist (key : String) (value? : Option String) :
    ((given key value?).map Prod.fst).Sublist [key] := by
  cases value? with
  | none => exact List.nil_sublist _
  | some value => exact List.Sublist.refl _

theorem writable_equals (c : Condition) : (equals c).Writable :=
  writable_node ["element1", "element2"] (.refl _) (by decide) (by decide) (by decide)
    (List.forall_mem_nil _)

namespace Spelling

variable (sp : Spelling)

mutual

theorem writable_statement (s : Statement) : (sp.statement s).Writable := by
  cases s with
  | assign name value =>
    exact writable_node ["variable", "value"] (.refl _) (by decide) (by decide) (by decide)
      (List.forall_mem_nil _)
  | increment name delta =>
    exact writable_node ["variable", "value"] (.refl _) (by decide) (by decide) (by decide)
      (List.forall_mem_nil _)
  | play clip text volume =>
    exact writable_node ["file", "text", "volume"] (.refl _) (by decide) (by decide) (by decide)
      (List.forall_mem_nil _)
  | branch conditions whenTrue whenFalse =>
    have hconditions : ∀ e ∈ conditions.map equals, e.Writable := by
      rw [List.forall_mem_map]
      exact fun c _ => writable_equals c
    refine writable_bare (by decide) ?_
    simp only [List.forall_mem_cons]
    exact ⟨writable_bare (by decide) hconditions,
      writable_bare (by decide) (writable_statements whenTrue),
      writable_bare (by decide) (writable_statements whenFalse), List.forall_mem_nil _⟩
  | ending => exact writable_bare (by decide) (List.forall_mem_nil _)

theorem writable_statements (ss : List Statement) : ∀ e ∈ sp.statements ss, e.Writable := by
  cases ss with
  | nil => exact List.forall_mem_nil _
  | cons s ss => exact List.forall_mem_cons.2 ⟨writable_statement s, writable_statements ss⟩

end

theorem writable_circle (c : Circle) : (sp.circle c).Writable :=
  writable_node ["radius", "title"] ((given_sublist "title" c.title?).cons_cons _) (by decide)
    (by decide) (by decide) (sp.writable_statements c.statements)

theorem writable_spot (s : Spot) : (sp.spot s).Writable := by
  refine writable_node ["latitude", "longitude"] (.refl _) (by decide) (by decide) (by decide) ?_
  rw [List.forall_mem_map]
  exact fun c _ => sp.writable_circle c

theorem writable_story (s : Story) : (sp.story s).Writable := by
  refine writable_node ["title", "introtext", "introfile"]
    (((given_sublist "introfile" s.introClip?).cons_cons _).cons_cons _) (by decide) (by decide)
    (by decide) ?_
  rw [List.forall_mem_cons, List.forall_mem_map]
  exact ⟨writable_bare (by decide) (sp.writable_statements s.init),
    fun spot _ => sp.writable_spot spot⟩

end Spelling
end Story
end AudioWalk
