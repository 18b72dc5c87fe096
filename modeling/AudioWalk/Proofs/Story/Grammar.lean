import Mathlib.Data.List.Forall2
import AudioWalk.Story.OfMarkup

/-!
# The grammar of stories

Two readings of an element tree, neither of which builds anything.  The first,
from `IsAssign` to `IsStory`, says which trees are stories at all.  The second,
from `PlainMeans` to `Mirrors`, relates a tree to a story piece by piece.  Nothing
but the attributes and the children of an element take part in either, so the
line on which it stands makes no difference.
-/

namespace AudioWalk
namespace Story

open Markup (Element)

/-! ## Attributes and children -/

def Has (e : Element) (key : String) : Prop := ∃ text, e.attribute? key = some text

/-- Blanks around a number do not count. -/
def Reads {α : Type} (read? : List Char → Option α) (e : Element) (key : String) (a : α) : Prop :=
  ∃ text, e.attribute? key = some text ∧ read? (Text.trim text.toList) = some a

def ReadsOr {α : Type} (read? : List Char → Option α) (e : Element) (key : String)
    (default a : α) : Prop :=
  Reads read? e key a ∨ e.attribute? key = none ∧ a = default

def ReadsDegrees (e : Element) (key : String) (limit : Nat) (x : Float) : Prop :=
  Reads Decimal.float? e key x ∧ x.isFinite ∧ x.abs ≤ Float.ofNat limit

def ReadsVolume (e : Element) (v : Float32) : Prop :=
  ReadsOr Decimal.float32? e "volume" 1.0 v ∧ 0.0 ≤ v ∧ v ≤ 1.0

def tagged (es : List Element) (tag : String) : List Element := es.filter fun e => e.name = tag

/-- What stands in the elements that carry a tag, in order. -/
def below (es : List Element) (tag : String) : List Element :=
  (tagged es tag).flatMap Element.children

/-! ## Which trees are stories -/

structure IsAssign (e : Element) : Prop where
  tag : e.name = "assign"
  leaf : e.children = []
  target : Has e "variable"
  value : ∃ i, Reads Text.int64? e "value" i

structure IsIncrement (e : Element) : Prop where
  tag : e.name = "increment"
  leaf : e.children = []
  target : Has e "variable"
  value : ∃ i, ReadsOr Text.int64? e "value" 1 i

structure IsPlay (e : Element) : Prop where
  tag : e.name = "play"
  leaf : e.children = []
  clip : Has e "file"
  volume : ∃ v, ReadsVolume e v

structure IsEnd (e : Element) : Prop where
  tag : e.name = "end"
  leaf : e.children = []

/-- A statement that may stand in a branch. -/
def IsPlain (e : Element) : Prop := IsAssign e ∨ IsIncrement e ∨ IsPlay e ∨ IsEnd e

structure IsEquals (e : Element) : Prop where
  tag : e.name = "equals"
  leaf : e.children = []
  left : Has e "element1"
  right : Has e "element2"

structure IsIf (e : Element) : Prop where
  tag : e.name = "if"
  parts : (e.children.map Element.name).Sublist ["condition", "then", "else"]
  conditions : ∀ c ∈ below e.children "condition", IsEquals c
  whenTrue : ∀ c ∈ below e.children "then", IsPlain c
  whenFalse : ∀ c ∈ below e.children "else", IsPlain c

structure IsCircle (e : Element) : Prop where
  tag : e.name = "circle"
  radius : ∃ r, Reads Text.uint32? e "radius" r
  statements : ∀ c ∈ e.children, IsPlain c ∨ IsIf c

structure IsSpot (e : Element) : Prop where
  tag : e.name = "spot"
  latitude : ∃ x, ReadsDegrees e "latitude" 90 x
  longitude : ∃ x, ReadsDegrees e "longitude" 180 x
  nonempty : e.children ≠ []
  circles : ∀ c ∈ e.children, IsCircle c

structure IsInit (e : Element) : Prop where
  tag : e.name = "init"
  statements : ∀ c ∈ e.children, IsAssign c

structure IsStory (root : Element) : Prop where
  tag : root.name = "story"
  title : Has root "title"
  children : ∀ c ∈ root.children, IsInit c ∨ IsSpot c
  init : (tagged root.children "init").length ≤ 1
  spots : tagged root.children "spot" ≠ []

/-! ## What a story tells -/

inductive PlainMeans : Element → Statement → Prop
  | assign {e : Element} {name : String} {value : Int64} (htag : e.name = "assign")
    (hname : e.attribute? "variable" = some name) (hvalue : Reads Text.int64? e "value" value) :
    PlainMeans e (.assign name value)
  | increment {e : Element} {name : String} {delta : Int64} (htag : e.name = "increment")
    (hname : e.attribute? "variable" = some name)
    (hdelta : ReadsOr Text.int64? e "value" 1 delta) :
    PlainMeans e (.increment name delta)
  | play {e : Element} {clip : String} {volume : Float32} (htag : e.name = "play")
    (hclip : e.attribute? "file" = some clip) (hvolume : ReadsVolume e volume) :
    PlainMeans e (.play clip ((e.attribute? "text").getD "") volume)
  | ending {e : Element} (htag : e.name = "end") : PlainMeans e .ending

structure EqualsMeans (e : Element) (c : Condition) : Prop where
  left : e.attribute? "element1" = some c.left
  right : e.attribute? "element2" = some c.right

inductive Means : Element → Statement → Prop
  | plain {e : Element} {s : Statement} (hplain : PlainMeans e s) : Means e s
  | branch {e : Element} {cs : List Condition} {ts fs : List Statement} (htag : e.name = "if")
    (hconditions : List.Forall₂ EqualsMeans (below e.children "condition") cs)
    (hwhenTrue : List.Forall₂ PlainMeans (below e.children "then") ts)
    (hwhenFalse : List.Forall₂ PlainMeans (below e.children "else") fs) :
    Means e (.branch cs ts fs)

/-- The number of the spot is not in the tree. -/
structure CircleMeans (spot? : Option Nat) (e : Element) (c : Circle) : Prop where
  radius : Reads Text.uint32? e "radius" c.radius
  title : c.title? = e.attribute? "title"
  statements : List.Forall₂ Means e.children c.statements
  spot : c.spot? = spot?

/-- The same circles with the smaller ones first, those of one radius in the order
in which they are given. -/
structure StablySorted (given sorted : List Circle) : Prop where
  perm : sorted.Perm given
  ordered : sorted.Pairwise fun a b => a.radius ≤ b.radius
  stable : ∀ r, (sorted.filter fun c => c.radius = r) = given.filter fun c => c.radius = r

structure SpotMeans (number? : Option Nat) (e : Element) (s : Spot) : Prop where
  latitude : ReadsDegrees e "latitude" 90 s.center.latitude
  longitude : ReadsDegrees e "longitude" 180 s.center.longitude
  circles : ∃ cs, List.Forall₂ (CircleMeans number?) e.children cs ∧ StablySorted cs s.circles

/-- The story tells what stands in the tree: all of it, once, and in its order. -/
structure Mirrors (folder : String) (root : Element) (s : Story) : Prop where
  title : root.attribute? "title" = some s.title
  folder : s.folder = folder
  introClip : s.introClip? = root.attribute? "introfile"
  introText : s.introText = (root.attribute? "introtext").getD ""
  init : List.Forall₂ PlainMeans (below root.children "init") s.init
  spots : List.Forall₂ (fun numbered spot => SpotMeans (some numbered.2) numbered.1 spot)
    (tagged root.children "spot").zipIdx s.spots

end Story
end AudioWalk
