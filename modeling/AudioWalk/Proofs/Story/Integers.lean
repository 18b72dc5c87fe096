import AudioWalk.Proofs.Script.Conditions
import AudioWalk.Proofs.Story.Refusing

/-!
# Integers in values and in operands

An integer is read in two places: out of the value of an assignment when the story is
read, and out of an operand when a condition is tested.  Blanks around the value do not
count.  An operand is the name of a variable before it is a number, so it is taken as it
stands, blanks included.  On a text without blanks at its ends the two agree, and of the
other texts the value may be a number and the operand never is.
-/

namespace AudioWalk
namespace Story

open Markup (Element)

/-! ## Operands -/

section

variable {vs : Variables} {text : String}

/-- A text that is a number without its blanks is an operand only if it has none. -/
theorem operand_of_value {n : Int64} (hundefined : vs.get? text = none)
    (hn : Text.int64? (Text.trim text.toList) = some n) :
    operand vs text =
      if Text.trim text.toList = text.toList then .ok n else .error (.malformedLiteral text) := by
  rw [operand_of_undefined hundefined]
  by_cases htrim : Text.trim text.toList = text.toList
  · rw [Text.int64?_eq_some_iff_trim.2 ⟨hn, htrim⟩, if_pos htrim]
  · have hnone : Text.int64? text.toList = none :=
      Option.eq_none_iff_forall_ne_some.2 fun v hv =>
        htrim (Text.int64?_eq_some_iff_trim.1 hv).2
    rw [hnone, if_neg htrim]

/-- A text that is no number without its blanks is none with them. -/
theorem operand_of_no_value (hundefined : vs.get? text = none)
    (hnone : Text.int64? (Text.trim text.toList) = none) :
    operand vs text = .error (.malformedLiteral text) := by
  have hread : Text.int64? text.toList = none :=
    Option.eq_none_iff_forall_ne_some.2 fun v hv =>
      nomatch (Text.int64?_eq_some_iff_trim.1 hv).1.symm.trans hnone
  rw [operand_of_undefined hundefined, hread]

theorem holds_of_defined {name : String} {n : Int64} (hdefined : vs.get? name = some n) :
    Condition.holds vs ⟨name, text⟩ = (operand vs text).map fun v => decide (n = v) := by
  rw [Condition.holds, operand_of_defined hdefined]
  cases operand vs text with
  | error cause => rfl
  | ok v => rfl

end

/-! ## Assignments -/

theorem store_execute_assign {σ : Type} [Player σ] (title? : Option String) (name : String)
    (n : Int64) (vs : Variables) (p : σ) :
    (execute title? [.assign name n] vs p).store = vs.set name n := rfl

/-- Of what may be wrong with an assignment, only its value is a matter of numbers. -/
theorem assignment_eq_notNumber {e : Element} {tag key raw : String} {line : Nat}
    (h : assignment e = .error ⟨tag, line, .notNumber key raw⟩) :
    e.attribute? "value" = some raw ∧ Text.int64? (Text.trim raw.toList) = none := by
  rcases bind_eq_error.1 h with h | ⟨_, _, h⟩
  · rw [leaf] at h
    split at h
    · cases h
    · cases fault_eq_error.1 h
  · rcases bind_eq_error.1 h with h | ⟨_, _, h⟩
    · cases (required_eq_error.1 h).2
    · rcases bind_eq_error.1 (bind_pure_eq_error.1 h) with h | ⟨text, htext, h⟩
      · cases (required_eq_error.1 h).2
      · obtain ⟨hnone, hfault⟩ := number_eq_error.1 h
        cases hfault
        exact ⟨required_eq_ok.1 htext, hnone⟩

/-- After an assignment of a text to a variable, the variable is equal to the text as an
operand, unless blanks stand at the ends of the text, which only the value may have.  A
text that is refused as a value is none of an operand either. -/
theorem value_and_operand_agree {e : Element} {name text : String}
    (hname : e.attribute? "variable" = some name) (htext : e.attribute? "value" = some text)
    (hne : name ≠ text) :
    (∀ s, assignment e = .ok s → ∃ n, s = .assign name n ∧
      ∀ {σ : Type} [Player σ] (title? : Option String) (vs : Variables) (p : σ),
        vs.contains text = false →
        Condition.holds (execute title? [s] vs p).store ⟨name, text⟩ =
          if Text.trim text.toList = text.toList then .ok true
          else .error (.malformedLiteral text)) ∧
    ∀ tag line key raw, assignment e = .error ⟨tag, line, .notNumber key raw⟩ →
      ∀ vs : Variables, vs.contains text = false →
        operand vs text = .error (.malformedLiteral text) := by
  constructor
  · intro s hs
    obtain ⟨_, name', n, hname', ⟨text', htext', hn⟩, rfl⟩ := assignment_eq_ok.1 hs
    obtain rfl := Option.some.inj (hname.symm.trans hname')
    obtain rfl := Option.some.inj (htext.symm.trans htext')
    refine ⟨n, rfl, fun title? vs p hundefined => ?_⟩
    have habsent : (vs.set name n).get? text = none := by
      rw [Variables.get?_set_ne vs hne.symm]
      exact Variables.contains_eq_false.1 hundefined
    rw [store_execute_assign, holds_of_defined (Variables.get?_set_self vs name n),
      operand_of_value habsent hn]
    by_cases htrim : Text.trim text.toList = text.toList
    · rw [if_pos htrim, if_pos htrim, Except.map, decide_eq_true rfl]
    · rw [if_neg htrim, if_neg htrim, Except.map]
  · intro tag line key raw hrefused vs hundefined
    obtain ⟨hraw, hnone⟩ := assignment_eq_notNumber hrefused
    obtain rfl := Option.some.inj (htext.symm.trans hraw)
    exact operand_of_no_value (Variables.contains_eq_false.1 hundefined) hnone

theorem value_and_operand_agree_on_five :
    let e : Element := ⟨"assign", [("variable", "x"), ("value", "+05")], [], 1⟩
    "x" ≠ "+05" ∧ assignment e = .ok (.assign "x" 5) ∧
      ∀ p : Constant,
        Condition.holds (execute none [.assign "x" 5] (Variables.empty.set "y" 1) p).store
          ⟨"x", "+05"⟩ = .ok true := by
  intro e
  have hread : assignment e = .ok (.assign "x" 5) := rfl
  refine ⟨by decide, hread, fun p => ?_⟩
  obtain ⟨_, _, hagree⟩ :=
    (value_and_operand_agree (e := e) rfl rfl (by decide)).1 (.assign "x" 5) hread
  exact hagree none (Variables.empty.set "y" 1) p rfl

/-- The blanks that a value may have make no number of an operand. -/
theorem spaced_value_is_no_operand :
    "x" ≠ " 5 " ∧ Variables.empty.contains " 5 " = false ∧
      assignment ⟨"assign", [("variable", "x"), ("value", " 5 ")], [], 1⟩ =
        .ok (.assign "x" 5) ∧
      Condition.holds (execute none [.assign "x" 5] .empty silent).store ⟨"x", " 5 "⟩ =
        .error (.malformedLiteral " 5 ") :=
  ⟨by decide, rfl, rfl, rfl⟩

end Story
end AudioWalk
