import AudioWalk.Proofs.Script.Composing
import AudioWalk.Proofs.Session.Turns

/-!
# How runs are stopped

A run is stopped in two ways.  It comes to a clip and finds the player busy, in the
circle or in the part of a branch that it takes.  Or it comes to a branch in the
circle with an operand that is no variable, in the store as it is by then, and no
integer; and then that operand is named.  No other failure comes out of a script: each
look-up of a variable, by an operand and by an increment, stands behind a guard.  So the
one result of a run, in which both come up as failures, is sorted rightly at the end.

A session wraps such a failure once, so what a start or a reading fails with is an
interruption by an operand.
-/

namespace AudioWalk
namespace Statement

variable {σ : Type} [Player σ] {title? : Option String} {ss : List Statement}
  {vs : Variables} {p : σ}

/-! ## Busy players -/

theorem alreadyPlaying_execute :
    (execute title? ss vs p).completion = .alreadyPlaying ↔
      ∃ clip text volume vs' p', GetsTo title? ss vs p (.play clip text volume) vs' p' ∧
        isPlaying (Player.elapse p') = true := by
  refine Completion.ofResult_eq_alreadyPlaying.trans ⟨fun h => ?_, ?_⟩
  · obtain ⟨s, vs', p', hreaches, hs⟩ := stopped_runAll.1 h
    cases hbranch : s.isBranch with
    | false =>
      rw [run_of_not_branch hbranch] at hs
      obtain ⟨_, clip, text, volume, rfl, hbusy⟩ := stopped_runInBranch.1 hs
      exact ⟨clip, text, volume, vs', p', .inCircle hreaches, hbusy⟩
    | true =>
      obtain ⟨conditions, whenTrue, whenFalse, rfl⟩ := exists_of_isBranch hbranch
      cases hholds : conditionsHold vs' conditions with
      | error cause =>
        rw [run_branch_of_error hholds] at hs
        exact absurd (Except.error.inj hs) (ne_alreadyPlaying_of_conditionsHold hholds)
      | ok holds =>
        rw [run_branch hholds] at hs
        obtain ⟨s, vs'', p'', hinner, hs⟩ := stopped_runAll.1 hs
        obtain ⟨_, clip, text, volume, rfl, hbusy⟩ := stopped_runInBranch.1 hs
        exact ⟨clip, text, volume, vs'', p'', .inPart hreaches hholds hinner, hbusy⟩
  · rintro ⟨clip, text, volume, vs', p', hgets, hbusy⟩
    have hplay {vs : Variables} {p : σ} (hbusy : isPlaying (Player.elapse p) = true) :
        ((play clip text volume).runInBranch title? vs p).result = .error .alreadyPlaying :=
      stopped_runInBranch.2 ⟨rfl, clip, text, volume, rfl, hbusy⟩
    cases hgets with
    | inCircle hreaches => exact stopped_runAll.2 ⟨_, _, _, hreaches, hplay hbusy⟩
    | inPart hreaches hholds hinner =>
      refine stopped_runAll.2 ⟨_, _, _, hreaches, ?_⟩
      rw [run_branch hholds]
      exact stopped_runAll.2 ⟨_, _, _, hinner, hplay hbusy⟩

/-! ## Operands without a value -/

/-- The statements in front of number `n` run to their end.  That is a branch, and in
the store they leave one of its operands has no value.  Nothing happens any more. -/
structure StuckAt (title? : Option String) (ss : List Statement) (vs : Variables) (p : σ) (n : Nat)
    (token : String) : Prop where
  completed : (execute title? (ss.take n) vs p).completion = .completed
  operand : ∃ conditions whenTrue whenFalse, ss[n]? = some (.branch conditions whenTrue whenFalse) ∧
    ∃ c ∈ conditions, token = c.left ∨ token = c.right
  undefined : (execute title? (ss.take n) vs p).store.contains token = false
  unreadable : ¬ ∃ v : Int64, Text.Spells token.toList v.toInt
  outcome : execute title? ss vs p =
    { execute title? (ss.take n) vs p with completion := .failed (.malformedLiteral token) }

theorem exists_stuckAt {cause : Failure}
    (h : (execute title? ss vs p).completion = .failed cause) :
    ∃ n token, cause = .malformedLiteral token ∧ StuckAt title? ss vs p n token := by
  obtain ⟨n, hcompleted, ⟨conditions, whenTrue, whenFalse, hn, hcause⟩, houtcome⟩ :=
    exists_failsAt h
  obtain ⟨c, htested, token, hblames, rfl⟩ := conditionsHold_eq_error.1 hcause
  have hunresolvable := hblames.unresolvable
  exact ⟨n, token, rfl, hcompleted,
    ⟨conditions, whenTrue, whenFalse, hn, c, htested.mem, hblames.eq_operand⟩,
    hunresolvable.undefined, hunresolvable.unreadable, houtcome⟩

end Statement

/-! ## Sessions -/

variable {σ : Type} [Player σ]

theorem answer_eq_error {effects : List Effect} {completion : Completion} {cause : Failure} :
    answer effects completion = .error cause ↔
      ∃ source, completion = .failed source ∧ cause = .interrupted effects source := by
  cases completion with
  | completed => exact ⟨nofun, nofun⟩
  | alreadyPlaying => exact ⟨nofun, nofun⟩
  | failed source =>
    constructor
    · intro h
      cases h
      exact ⟨source, rfl, rfl⟩
    · rintro ⟨_, hsource, rfl⟩
      cases hsource
      rfl

/-- Interrupted by an operand without a value. -/
def Failure.IsInterruption (cause : Failure) : Prop :=
  ∃ effects token, cause = .interrupted effects (.malformedLiteral token)

theorem isInterruption_of_answer {earlier : List Effect} {title? : Option String}
    {ss : List Statement} {vs : Variables} {p : σ} {cause : Failure}
    (h : answer earlier (execute title? ss vs p).completion = .error cause) :
    cause.IsInterruption := by
  obtain ⟨source, hfailed, hcause⟩ := answer_eq_error.1 h
  obtain ⟨_, token, hsource, _⟩ := Statement.exists_stuckAt hfailed
  exact ⟨earlier, token, hcause.trans (congrArg (Failure.interrupted earlier) hsource)⟩

/-- A run meets a busy player exactly where it says so, and it fails only at a branch
of its script, of which it names an operand without a value.  It never looks up a
variable that is not there.  All that a start or a reading can fail with is an
interruption by such an operand. -/
theorem failures_name_operands (p : σ) :
    (∀ title? ss vs,
      ((execute title? ss vs p).completion = .alreadyPlaying ↔
        ∃ clip text volume vs' p', Statement.GetsTo title? ss vs p (.play clip text volume) vs' p' ∧
          isPlaying (Player.elapse p') = true) ∧
      (∀ cause, (execute title? ss vs p).completion = .failed cause →
        ∃ n token, cause = .malformedLiteral token ∧ Statement.StuckAt title? ss vs p n token) ∧
      ∀ name, (execute title? ss vs p).completion ≠ .failed (.undefinedVariable name)) ∧
    ∀ s : Session,
      (∀ cause, (s.start p).result = .error cause → cause.IsInterruption) ∧
      ∀ r cause, (s.receive r p).result = .error cause → cause.IsInterruption := by
  refine ⟨fun title? ss vs => ⟨Statement.alreadyPlaying_execute, fun cause h => ?_,
    fun name h => ?_⟩, fun s => ⟨fun cause h => ?_, fun r cause h => ?_⟩⟩
  · exact Statement.exists_stuckAt h
  · obtain ⟨_, token, hcause, _⟩ := Statement.exists_stuckAt h
    cases hcause
  · rw [Session.result_start] at h
    exact isInterruption_of_answer h
  · cases hc : s.entered? r p with
    | none =>
      rw [Session.result_of_not_entered hc] at h
      cases h
    | some c =>
      rw [Session.receive_of_entered hc, Session.result_run] at h
      exact isInterruption_of_answer h

end AudioWalk
