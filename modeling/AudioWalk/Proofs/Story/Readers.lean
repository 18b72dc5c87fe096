import AudioWalk.Proofs.Results
import AudioWalk.Proofs.Story.Grammar

/-!
# When the readers of elements give a result

For each reader of an attribute or of a childless element, the attributes with
which it has a result, and the result.
-/

namespace AudioWalk
namespace Story

open Markup (Element)

variable {α : Type} {read? : List Char → Option α} {e : Element} {key : String}

@[simp]
theorem fault_ne_ok (e : Element) (cause : Cause) (a : α) : fault e cause ≠ .ok a := nofun

@[simp]
theorem unknownTag_ne_ok (child parent : Element) (a : α) : unknownTag child parent ≠ .ok a :=
  nofun

theorem guarded_eq_ok {p : Prop} [Decidable p] {x : Except Fault α} {cause : Cause} {a : α} :
    (if p then x else fault e cause) = .ok a ↔ p ∧ x = .ok a := by
  by_cases hp : p
  · simp [hp]
  · simp [hp]

theorem refused_eq_ok {p : Prop} [Decidable p] {x : Except Fault α} {cause : Cause} {a : α} :
    (if p then fault e cause else x) = .ok a ↔ ¬ p ∧ x = .ok a := by
  by_cases hp : p
  · simp [hp]
  · simp [hp]

/-! ## Attributes -/

theorem required_eq_ok {value : String} :
    required e key = .ok value ↔ e.attribute? key = some value := by
  rw [required]
  cases e.attribute? key with
  | none => simp
  | some text => rw [Except.ok.injEq, Option.some.injEq]

theorem number_eq_ok {text : String} {a : α} :
    number read? e key text = .ok a ↔ read? (Text.trim text.toList) = some a := by
  rw [number]
  cases read? (Text.trim text.toList) with
  | none => simp
  | some b => rw [Except.ok.injEq, Option.some.injEq]

theorem requiredNumber_eq_ok {a : α} :
    requiredNumber read? e key = .ok a ↔ Reads read? e key a := by
  rw [requiredNumber, bind_eq_ok, Reads]
  simp only [required_eq_ok, number_eq_ok]

theorem optionalNumber_eq_ok {default a : α} :
    optionalNumber read? e key default = .ok a ↔ ReadsOr read? e key default a := by
  rw [optionalNumber, ReadsOr, Reads]
  cases e.attribute? key with
  | none => simp [eq_comm]
  | some text => simp [number_eq_ok]

theorem degrees_eq_ok {limit : Nat} {x : Float} :
    degrees e key limit = .ok x ↔ ReadsDegrees e key limit x := by
  simp only [degrees, bind_eq_ok, requiredNumber_eq_ok, guarded_eq_ok, pure_eq_ok,
    Bool.and_eq_true, decide_eq_true_eq]
  constructor
  · intro ⟨y, hy, hlimit, hxy⟩
    rw [hxy]
    exact ⟨hy, hlimit⟩
  · intro ⟨hx, hlimit⟩
    exact ⟨x, hx, hlimit, rfl⟩

/-! ## Statements without children -/

theorem leaf_eq_ok {u : Unit} : leaf e = .ok u ↔ e.children = [] := by
  rw [leaf]
  cases e.children with
  | nil => simp
  | cons child rest => simp

theorem assignment_eq_ok {s : Statement} :
    assignment e = .ok s ↔ e.children = [] ∧ ∃ name value,
      e.attribute? "variable" = some name ∧ Reads Text.int64? e "value" value ∧
        s = .assign name value := by
  simp only [assignment, bind_eq_ok, leaf_eq_ok, required_eq_ok, requiredNumber_eq_ok,
    pure_eq_ok, exists_const, exists_and_left]

theorem incrementation_eq_ok {s : Statement} :
    incrementation e = .ok s ↔ e.children = [] ∧ ∃ name delta,
      e.attribute? "variable" = some name ∧ ReadsOr Text.int64? e "value" 1 delta ∧
        s = .increment name delta := by
  simp only [incrementation, bind_eq_ok, leaf_eq_ok, required_eq_ok, optionalNumber_eq_ok,
    pure_eq_ok, exists_const, exists_and_left]

/-- The volume is read in front of the clip, which makes no difference here. -/
theorem playing_eq_ok {s : Statement} :
    playing e = .ok s ↔ e.children = [] ∧ ∃ clip volume,
      e.attribute? "file" = some clip ∧ ReadsVolume e volume ∧
        s = .play clip ((e.attribute? "text").getD "") volume := by
  simp only [playing, bind_eq_ok, leaf_eq_ok, required_eq_ok, optionalNumber_eq_ok,
    guarded_eq_ok, pure_eq_ok, exists_const, Bool.and_eq_true, decide_eq_true_eq]
  refine and_congr_right fun hleaf => ?_
  constructor
  · intro ⟨volume, hvolume, hrange, clip, hclip, hs⟩
    exact ⟨clip, volume, hclip, ⟨hvolume, hrange⟩, hs⟩
  · intro ⟨clip, volume, hclip, ⟨hvolume, hrange⟩, hs⟩
    exact ⟨volume, hvolume, hrange, clip, hclip, hs⟩

theorem endMark_eq_ok {s : Statement} : endMark e = .ok s ↔ e.children = [] ∧ s = .ending := by
  simp only [endMark, bind_eq_ok, leaf_eq_ok, pure_eq_ok, exists_const]

theorem condition_eq_ok {c : Condition} :
    condition e = .ok c ↔ e.children = [] ∧ EqualsMeans e c := by
  simp only [condition, bind_eq_ok, leaf_eq_ok, required_eq_ok, pure_eq_ok, exists_const]
  refine and_congr_right fun hleaf => ?_
  constructor
  · intro ⟨left, hleft, right, hright, hc⟩
    rw [hc]
    exact ⟨hleft, hright⟩
  · intro h
    exact ⟨c.left, h.left, c.right, h.right, rfl⟩

end Story
end AudioWalk
