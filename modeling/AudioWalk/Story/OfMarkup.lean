import AudioWalk.Decimal.Numeral
import AudioWalk.Markup.Element
import AudioWalk.Story.Basic
import AudioWalk.Story.Fault
import AudioWalk.Text.Blank

/-!
# From an element tree to a story

Which tags may stand where:

    story(title, introfile?, introtext?)     one init at most, one spot at least
      init                                   assign
      spot(latitude, longitude)              one circle at least
        circle(radius, title?)               assign, increment, play, end, if
    if                                       condition, then, else, each once at most
      condition                              equals(element1, element2)
      then, else                             assign, increment, play, end

Everything else is a fault, and the first fault in reading order is the one that
is reported.  An element is read before its later siblings; its own attributes
are read before its children, except that a childless kind of element is checked
for children first.
-/

namespace AudioWalk
namespace Story

open Markup (Element)

def fault {α : Type} (e : Element) (cause : Cause) : Except Fault α :=
  .error { tag := e.name, line := e.line, cause }

/-- A child that may not stand in its parent. -/
def unknownTag {α : Type} (child parent : Element) : Except Fault α :=
  fault child (.unknownTag parent.name)

/-! ## Attributes -/

def required (e : Element) (key : String) : Except Fault String :=
  match e.attribute? key with
  | some value => .ok value
  | none => fault e (.missingAttribute key)

/-- Reads a number out of the text of an attribute, blanks around it aside. -/
def number {α : Type} (read? : List Char → Option α) (e : Element) (key raw : String) :
    Except Fault α :=
  match read? (Text.trim raw.toList) with
  | some a => .ok a
  | none => fault e (.notNumber key raw)

def requiredNumber {α : Type} (read? : List Char → Option α) (e : Element) (key : String) :
    Except Fault α := do
  let raw ← required e key
  number read? e key raw

def optionalNumber {α : Type} (read? : List Char → Option α) (e : Element) (key : String)
    (default : α) : Except Fault α :=
  match e.attribute? key with
  | some raw => number read? e key raw
  | none => .ok default

/-- A finite number of degrees, at most `limit` in either direction. -/
def degrees (e : Element) (key : String) (limit : Nat) : Except Fault Float := do
  let x ← requiredNumber Decimal.float? e key
  if x.isFinite && x.abs ≤ Float.ofNat limit then return x
  else fault e (.outsideDegrees key limit)

/-! ## Statements -/

/-- Refuses children, in the name of the first of them. -/
def leaf (e : Element) : Except Fault Unit :=
  match e.children with
  | [] => .ok ()
  | child :: _ => fault child (.childOfLeaf e.name)

/-- The kinds of statement that have no children. -/
inductive Leaf where
  | assign
  | increment
  | play
  | ending
deriving DecidableEq, Repr

def Leaf.ofTag? : String → Option Leaf
  | "assign" => some assign
  | "increment" => some increment
  | "play" => some play
  | "end" => some ending
  | _ => none

def assignment (e : Element) : Except Fault Statement := do
  leaf e
  let name ← required e "variable"
  let value ← requiredNumber Text.int64? e "value"
  return .assign name value

def incrementation (e : Element) : Except Fault Statement := do
  leaf e
  let name ← required e "variable"
  let delta ← optionalNumber Text.int64? e "value" 1
  return .increment name delta

/-- The volume is read first, the clip next. -/
def playing (e : Element) : Except Fault Statement := do
  leaf e
  let volume ← optionalNumber Decimal.float32? e "volume" 1.0
  if 0.0 ≤ volume && volume ≤ 1.0 then
    let clip ← required e "file"
    return .play clip ((e.attribute? "text").getD "") volume
  else fault e .volumeRange

def endMark (e : Element) : Except Fault Statement := do
  leaf e
  return .ending

def Leaf.statement : Leaf → Element → Except Fault Statement
  | assign => assignment
  | increment => incrementation
  | play => playing
  | ending => endMark

/-- The statements of an `init` block. -/
def initBlock (e : Element) : Except Fault (List Statement) :=
  e.children.mapM fun child =>
    if child.name = "assign" then assignment child else unknownTag child e

/-- The statements of a branch; branches do not nest. -/
def branchBlock (e : Element) : Except Fault (List Statement) :=
  e.children.mapM fun child =>
    match Leaf.ofTag? child.name with
    | some kind => kind.statement child
    | none => unknownTag child e

def condition (e : Element) : Except Fault Condition := do
  leaf e
  let left ← required e "element1"
  let right ← required e "element2"
  return ⟨left, right⟩

def conditions (e : Element) : Except Fault (List Condition) :=
  e.children.mapM fun child =>
    if child.name = "equals" then condition child else unknownTag child e

/-- The parts of an `if`. -/
inductive Part where
  | condition
  | whenTrue
  | whenFalse
deriving DecidableEq, Repr

def Part.ofTag? : String → Option Part
  | "condition" => some condition
  | "then" => some whenTrue
  | "else" => some whenFalse
  | _ => none

/-- The place of a part among its siblings. -/
def Part.rank : Part → Nat
  | condition => 1
  | whenTrue => 2
  | whenFalse => 3

/-- What has been read of an `if`.  `rank` is that of the last part, zero before
the first. -/
structure Parts where
  rank : Nat
  conditions : List Condition
  whenTrue : List Statement
  whenFalse : List Statement

def Parts.none : Parts := ⟨0, [], [], []⟩

/-- Reads one more part, which must come behind all earlier ones. -/
def Parts.add (parent : Element) (parts : Parts) (child : Element) : Except Fault Parts :=
  match Part.ofTag? child.name with
  | Option.none => unknownTag child parent
  | some part =>
    if part.rank ≤ parts.rank then fault child .partOrder
    else
      match part with
      | .condition => do
        let cs ← Story.conditions child
        return { parts with rank := part.rank, conditions := cs }
      | .whenTrue => do
        let ss ← branchBlock child
        return { parts with rank := part.rank, whenTrue := ss }
      | .whenFalse => do
        let ss ← branchBlock child
        return { parts with rank := part.rank, whenFalse := ss }

def conditional (e : Element) : Except Fault Statement := do
  let parts ← e.children.foldlM (Parts.add e) Parts.none
  return .branch parts.conditions parts.whenTrue parts.whenFalse

/-- The statements of a circle: all kinds. -/
def circleBlock (e : Element) : Except Fault (List Statement) :=
  e.children.mapM fun child =>
    if child.name = "if" then conditional child
    else
      match Leaf.ofTag? child.name with
      | some kind => kind.statement child
      | none => unknownTag child e

/-! ## Spots and the story -/

def circle (e : Element) : Except Fault Circle := do
  let radius ← requiredNumber Text.uint32? e "radius"
  let statements ← circleBlock e
  return { radius, title? := e.attribute? "title", statements, spot? := none }

def spot (e : Element) : Except Fault Spot := do
  let latitude ← degrees e "latitude" 90
  let longitude ← degrees e "longitude" 180
  let circles ← e.children.mapM fun child =>
    if child.name = "circle" then circle child else unknownTag child e
  if circles.isEmpty then fault e .noCircles
  else return Spot.of ⟨latitude, longitude⟩ circles

/-- What has been read of the children of the root. -/
structure Contents where
  init? : Option (List Statement)
  spots : List Spot

def Contents.none : Contents := ⟨Option.none, []⟩

def Contents.add (parent : Element) (contents : Contents) (child : Element) :
    Except Fault Contents :=
  if child.name = "init" then
    if contents.init?.isSome then fault child .secondInit
    else do
      let ss ← initBlock child
      return { contents with init? := some ss }
  else if child.name = "spot" then do
    let s ← spot child
    return { contents with spots := contents.spots ++ [s] }
  else unknownTag child parent

/-- The story that a tree describes. -/
def ofElement (folder : String) (root : Element) : Except Fault Story := do
  if root.name = "story" then
    let title ← required root "title"
    let contents ← root.children.foldlM (Contents.add root) Contents.none
    if contents.spots.isEmpty then fault root .noSpots
    else
      return Story.of title folder (root.attribute? "introfile")
        ((root.attribute? "introtext").getD "") (contents.init?.getD []) contents.spots
  else fault root .wrongRoot

end Story
end AudioWalk
