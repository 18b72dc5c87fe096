import AudioWalk.Proofs.Results
import AudioWalk.Proofs.Text.Literal
import AudioWalk.Script.Run

/-!
# Conditions

What the conditions of a branch come to, told without running them.  An operand
stands for a number or for none (`Resolves`), so a condition holds, differs, or
blames one of its operands.  Conditions are tested from the left as long as they
hold: the first that does not hold decides what becomes of all.

An answer does not depend on the order.  Where all hold, they hold in any order;
and no order makes an answer out of conditions that hold in another.  What an order
does decide is whether a condition that differs stands in front of one that cannot
be tested.
-/

namespace AudioWalk

/-- The number an operand stands for.  A variable hides the literal of its name. -/
inductive Resolves (vs : Variables) (token : String) : Int64 → Prop
  | byName {v : Int64} (hdefined : vs.get? token = some v) : Resolves vs token v
  | byDigits {v : Int64} (hundefined : vs.get? token = none)
    (hspells : Text.Spells token.toList v.toInt) : Resolves vs token v

/-- Neither a variable nor an integer of 64 bits. -/
structure Unresolvable (vs : Variables) (token : String) : Prop where
  undefined : vs.contains token = false
  unreadable : ¬ ∃ v : Int64, Text.Spells token.toList v.toInt

section

variable {vs : Variables} {token : String}

theorem operand_of_defined {v : Int64} (h : vs.get? token = some v) :
    operand vs token = .ok v := by
  have hdefined : vs.contains token = true := by
    rw [Variables.contains, h]
    rfl
  rw [operand, if_pos hdefined, Variables.value_of_contains hdefined, h, Option.getD_some]

theorem operand_of_undefined (h : vs.get? token = none) :
    operand vs token =
      match Text.int64? token.toList with
      | some v => .ok v
      | none => .error (.malformedLiteral token) := by
  have hundefined : ¬ vs.contains token = true := by
    rw [Variables.contains_eq_false.2 h]
    exact Bool.false_ne_true
  exact if_neg hundefined

theorem operand_eq_ok {v : Int64} : operand vs token = .ok v ↔ Resolves vs token v := by
  cases h : vs.get? token with
  | some w =>
    rw [operand_of_defined h]
    constructor
    · intro hv
      cases hv
      exact .byName h
    · intro hv
      cases hv with
      | byName hdefined => rw [Option.some.inj (h.symm.trans hdefined)]
      | byDigits hundefined hspells => exact absurd (h.symm.trans hundefined) nofun
  | none =>
    rw [operand_of_undefined h]
    constructor
    · intro hv
      split at hv
      · next w hread =>
        cases hv
        exact .byDigits h (Text.int64?_eq_some.1 hread)
      · cases hv
    · intro hv
      cases hv with
      | byName hdefined => exact absurd (h.symm.trans hdefined) nofun
      | byDigits hundefined hspells => rw [Text.int64?_eq_some.2 hspells]

/-- An operand fails in one way only: the look-up of a variable never does. -/
theorem operand_eq_error {cause : Failure} :
    operand vs token = .error cause ↔ Unresolvable vs token ∧ cause = .malformedLiteral token := by
  cases h : vs.get? token with
  | some w =>
    rw [operand_of_defined h]
    refine ⟨nofun, fun ⟨hunresolvable, _⟩ => ?_⟩
    exact absurd (h.symm.trans (Variables.contains_eq_false.1 hunresolvable.undefined)) nofun
  | none =>
    rw [operand_of_undefined h]
    constructor
    · intro hfailed
      split at hfailed
      · cases hfailed
      · next hread =>
        cases hfailed
        exact ⟨⟨Variables.contains_eq_false.2 h, Text.int64?_eq_none.1 hread⟩, rfl⟩
    · rintro ⟨hunresolvable, rfl⟩
      rw [Text.int64?_eq_none.2 hunresolvable.unreadable]

end

namespace Condition

def Holds (vs : Variables) (c : Condition) : Prop :=
  ∃ v, Resolves vs c.left v ∧ Resolves vs c.right v

def Differs (vs : Variables) (c : Condition) : Prop :=
  ∃ v w, Resolves vs c.left v ∧ Resolves vs c.right w ∧ v ≠ w

/-- The operand that keeps a condition from being tested: the left one, if it is to
blame. -/
inductive Blames (vs : Variables) (c : Condition) : String → Prop
  | left (h : Unresolvable vs c.left) : Blames vs c c.left
  | right (hleft : ∃ v, Resolves vs c.left v) (h : Unresolvable vs c.right) : Blames vs c c.right

variable {vs : Variables} {c : Condition}

theorem Blames.unresolvable {token : String} (h : c.Blames vs token) : Unresolvable vs token := by
  cases h with
  | left h => exact h
  | right hleft h => exact h

theorem Blames.eq_operand {token : String} (h : c.Blames vs token) :
    token = c.left ∨ token = c.right := by
  cases h with
  | left h => exact Or.inl rfl
  | right hleft h => exact Or.inr rfl

theorem holds_eq_ok {holds : Bool} : c.holds vs = .ok holds ↔
    ∃ v w, Resolves vs c.left v ∧ Resolves vs c.right w ∧ holds = decide (v = w) := by
  simp only [Condition.holds, bind_eq_ok, pure_eq_ok, operand_eq_ok]
  exact exists_congr fun v => ⟨fun ⟨hv, w, hw, h⟩ => ⟨w, hv, hw, h⟩,
    fun ⟨w, hv, hw, h⟩ => ⟨hv, w, hw, h⟩⟩

theorem holds_eq_ok_true : c.holds vs = .ok true ↔ c.Holds vs := by
  rw [holds_eq_ok]
  constructor
  · intro ⟨v, w, hv, hw, h⟩
    have hsame : v = w := of_decide_eq_true h.symm
    exact ⟨v, hv, hsame ▸ hw⟩
  · intro ⟨v, hv, hw⟩
    exact ⟨v, v, hv, hw, (decide_eq_true rfl).symm⟩

theorem holds_eq_ok_false : c.holds vs = .ok false ↔ c.Differs vs := by
  rw [holds_eq_ok]
  refine exists_congr fun v => exists_congr fun w => ?_
  rw [eq_comm, decide_eq_false_iff_not]

theorem holds_eq_error {cause : Failure} : c.holds vs = .error cause ↔
    ∃ token, c.Blames vs token ∧ cause = .malformedLiteral token := by
  have hpure (v w : Int64) : ¬ (pure (decide (v = w)) : Except Failure Bool) = .error cause := nofun
  simp only [Condition.holds, bind_eq_error, operand_eq_error, operand_eq_ok, hpure, and_false,
    exists_false, or_false]
  constructor
  · rintro (⟨hleft, rfl⟩ | ⟨v, hv, hright, rfl⟩)
    · exact ⟨c.left, .left hleft, rfl⟩
    · exact ⟨c.right, .right ⟨v, hv⟩ hright, rfl⟩
  · rintro ⟨token, hblames, rfl⟩
    cases hblames with
    | left hleft => exact Or.inl ⟨hleft, rfl⟩
    | right hleft hright =>
      obtain ⟨v, hv⟩ := hleft
      exact Or.inr ⟨v, hv, hright, rfl⟩

end Condition

/-! ## From conditions to their list -/

/-- All conditions in front of this one hold. -/
def Tested (vs : Variables) (cs : List Condition) (c : Condition) : Prop :=
  ∃ before after, cs = before ++ c :: after ∧ ∀ b ∈ before, b.Holds vs

variable {vs : Variables} {cs : List Condition} {c x : Condition}

theorem Tested.mem (h : Tested vs cs c) : c ∈ cs := by
  obtain ⟨before, after, rfl, _⟩ := h
  exact List.mem_append_right _ List.mem_cons_self

theorem not_tested_nil : ¬ Tested vs [] c := fun h => List.not_mem_nil h.mem

theorem tested_cons : Tested vs (x :: cs) c ↔ c = x ∨ x.Holds vs ∧ Tested vs cs c := by
  constructor
  · rintro ⟨before, after, hsplit, hbefore⟩
    cases before with
    | nil => exact Or.inl (List.cons.inj hsplit).1.symm
    | cons b before =>
      obtain ⟨rfl, rfl⟩ := List.cons.inj hsplit
      obtain ⟨hb, hbefore⟩ := List.forall_mem_cons.1 hbefore
      exact Or.inr ⟨hb, before, after, rfl, hbefore⟩
  · rintro (rfl | ⟨hx, before, after, rfl, hbefore⟩)
    · exact ⟨[], cs, rfl, List.forall_mem_nil _⟩
    · exact ⟨x :: before, after, rfl, List.forall_mem_cons.2 ⟨hx, hbefore⟩⟩

/-- What holds of a condition exactly if testing it gives a result other than `true`
holds of a tested one exactly if testing them all gives that result. -/
theorem conditionsHold_eq_iff {result : Except Failure Bool} {P : Condition → Prop}
    (hresult : result ≠ .ok true) (hP : ∀ c : Condition, c.holds vs = result ↔ P c) :
    conditionsHold vs cs = result ↔ ∃ c, Tested vs cs c ∧ P c := by
  induction cs with
  | nil =>
    refine ⟨fun h => absurd h.symm hresult, fun ⟨c, hc, _⟩ => absurd hc not_tested_nil⟩
  | cons x rest ih =>
    have hsplit : (∃ c, Tested vs (x :: rest) c ∧ P c) ↔
        P x ∨ x.Holds vs ∧ ∃ c, Tested vs rest c ∧ P c := by
      simp only [tested_cons, or_and_right, exists_or, exists_eq_left, and_assoc,
        exists_and_left]
    rw [hsplit, ← ih, ← hP x, ← Condition.holds_eq_ok_true]
    cases hx : x.holds vs with
    | error cause =>
      have hall : conditionsHold vs (x :: rest) = .error cause := by
        rw [conditionsHold, hx]
        rfl
      simp only [hall, reduceCtorEq, false_and, or_false]
    | ok holds =>
      cases holds with
      | true =>
        have hall : conditionsHold vs (x :: rest) = conditionsHold vs rest := by
          rw [conditionsHold, hx]
          rfl
        simp only [hall, Ne.symm hresult, true_and, false_or]
      | false =>
        have hall : conditionsHold vs (x :: rest) = .ok false := by
          rw [conditionsHold, hx]
          rfl
        simp only [hall, Except.ok.injEq, Bool.false_eq_true, false_and, or_false]

theorem conditionsHold_eq_ok_false :
    conditionsHold vs cs = .ok false ↔ ∃ c, Tested vs cs c ∧ c.Differs vs :=
  conditionsHold_eq_iff nofun fun _ => Condition.holds_eq_ok_false

theorem conditionsHold_eq_error {cause : Failure} : conditionsHold vs cs = .error cause ↔
    ∃ c, Tested vs cs c ∧ ∃ token, c.Blames vs token ∧ cause = .malformedLiteral token :=
  conditionsHold_eq_iff nofun fun _ => Condition.holds_eq_error

/-- A condition that cannot be tested is not taken for a busy player. -/
theorem ne_alreadyPlaying_of_conditionsHold {cause : Failure}
    (h : conditionsHold vs cs = .error cause) : cause ≠ .alreadyPlaying := by
  obtain ⟨_, _, _, _, rfl⟩ := conditionsHold_eq_error.1 h
  nofun

theorem conditionsHold_eq_ok_true :
    conditionsHold vs cs = .ok true ↔ ∀ c ∈ cs, c.Holds vs := by
  induction cs with
  | nil => exact iff_of_true rfl (List.forall_mem_nil _)
  | cons x rest ih =>
    rw [conditionsHold, bind_eq_ok, List.forall_mem_cons, ← ih, ← Condition.holds_eq_ok_true]
    constructor
    · intro ⟨holds, hx, hrest⟩
      cases holds with
      | true => exact ⟨hx, hrest⟩
      | false => cases hrest
    · intro ⟨hx, hrest⟩
      exact ⟨true, hx, hrest⟩

/-- All conditions hold, or the first that does not hold differs, or it cannot be
tested, and then its left operand is to blame before its right one.  Of two orders
of the conditions, none has all of them hold unless the other does, and where both
have an answer it is the same. -/
theorem conditions_conjoin (vs : Variables) (cs : List Condition) :
    (conditionsHold vs cs = .ok true ↔ ∀ c ∈ cs, c.Holds vs) ∧
    (conditionsHold vs cs = .ok false ↔
      ∃ before c after, cs = before ++ c :: after ∧ (∀ b ∈ before, b.Holds vs) ∧ c.Differs vs) ∧
    (∀ cause, conditionsHold vs cs = .error cause ↔
      ∃ before c after token, cs = before ++ c :: after ∧ (∀ b ∈ before, b.Holds vs) ∧
        c.Blames vs token ∧ cause = .malformedLiteral token) ∧
    ∀ cs' : List Condition, cs.Perm cs' →
      (conditionsHold vs cs = .ok true ↔ conditionsHold vs cs' = .ok true) ∧
      ∀ holds holds', conditionsHold vs cs = .ok holds → conditionsHold vs cs' = .ok holds' →
        holds = holds' := by
  refine ⟨conditionsHold_eq_ok_true, ?_, fun cause => ?_, fun cs' hperm => ?_⟩
  · rw [conditionsHold_eq_ok_false]
    constructor
    · rintro ⟨c, ⟨before, after, hsplit, hbefore⟩, hdiffers⟩
      exact ⟨before, c, after, hsplit, hbefore, hdiffers⟩
    · rintro ⟨before, c, after, hsplit, hbefore, hdiffers⟩
      exact ⟨c, ⟨before, after, hsplit, hbefore⟩, hdiffers⟩
  · rw [conditionsHold_eq_error]
    constructor
    · rintro ⟨c, ⟨before, after, hsplit, hbefore⟩, token, hblames, hcause⟩
      exact ⟨before, c, after, token, hsplit, hbefore, hblames, hcause⟩
    · rintro ⟨before, c, after, token, hsplit, hbefore, hblames, hcause⟩
      exact ⟨c, ⟨before, after, hsplit, hbefore⟩, token, hblames, hcause⟩
  · have hsame : conditionsHold vs cs = .ok true ↔ conditionsHold vs cs' = .ok true := by
      simp only [conditionsHold_eq_ok_true, hperm.mem_iff]
    refine ⟨hsame, fun holds holds' h h' => ?_⟩
    rw [h, h'] at hsame
    cases holds with
    | true => exact (Except.ok.inj (hsame.1 rfl)).symm
    | false =>
      cases holds' with
      | true => exact Except.ok.inj (hsame.2 rfl)
      | false => rfl

/-- A condition that differs keeps those behind it from being tested. -/
example : conditionsHold .empty [⟨"1", "2"⟩, ⟨"ghost", "1"⟩] = .ok false ∧
    conditionsHold .empty [⟨"ghost", "1"⟩, ⟨"1", "2"⟩] = .error (.malformedLiteral "ghost") :=
  ⟨rfl, rfl⟩

end AudioWalk
