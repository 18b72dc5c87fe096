import AudioWalk.Proofs.Script.Inlining

/-!
# Scripts put together

A script is put together in two ways: one script behind another, and scripts as the
parts of a branch.  A run goes through both as through one script, and where it
stops, at whichever level, it stops for good: neither the rest of a part nor what
stands behind the branch has any effect.

So a piece of a script may be replaced by one that runs alike, wherever it stands.
-/

namespace AudioWalk
namespace Statement

variable {σ : Type} [Player σ] {title? : Option String}

/-- A branch goes on as the part that it takes, and stops as that part does. -/
theorem run_branch {conditions : List Condition} {vs : Variables} {holds : Bool}
    (h : conditionsHold vs conditions = .ok holds) (whenTrue whenFalse : List Statement) (p : σ) :
    (branch conditions whenTrue whenFalse).run title? vs p =
      runAll (runInBranch title?) (if holds then whenTrue else whenFalse) vs p := by
  rw [run_branch_of_ok h, runAll_runInBranch]

/-- Two scripts run one behind the other as the first, and then the second from the
store and the player that the first has left.  Where the first is stopped, all is
as if nothing stood behind it.  It may be stopped inside of a branch: then what has
run of the part is the last that has run of the script. -/
theorem runs_compose (xs ys : List Statement) (vs : Variables) (p : σ) :
    let first := execute title? xs vs p
    let second := execute title? ys first.store first.player
    (first.completion = .completed → execute title? (xs ++ ys) vs p =
      ⟨first.effects ++ second.effects, second.completion, second.store, second.player⟩) ∧
    (first.completion ≠ .completed → execute title? (xs ++ ys) vs p = first) ∧
    ∀ (conditions : List Condition) (holds : Bool) (whenTrue whenFalse front back : List Statement),
      first.completion = .completed → conditionsHold first.store conditions = .ok holds →
      (if holds then whenTrue else whenFalse) = front ++ back →
      let inner := (runAll (runInBranch title?) front first.store first.player).outcome
      inner.completion ≠ .completed →
      execute title? (xs ++ branch conditions whenTrue whenFalse :: ys) vs p =
        { inner with effects := first.effects ++ inner.effects } := by
  intro first second
  let reached := runAll (run title?) xs vs p
  have hok (h : first.completion = .completed) : reached.result = .ok () :=
    Completion.ofResult_eq_completed.1 h
  refine ⟨fun hdone => ?_, fun hstopped => ?_, ?_⟩
  · rw [execute, runAll_append, Run.andThen_of_ok (hok hdone)]
    rfl
  · have hcut : reached.result ≠ .ok () := fun h =>
      hstopped (Completion.ofResult_eq_completed.2 h)
    rw [execute, runAll_append, Run.andThen_of_not_ok hcut]
    rfl
  · intro conditions holds whenTrue whenFalse front back hdone
      (hholds : conditionsHold reached.store conditions = .ok holds) hpart inner hstopped
    let part := runAll (runInBranch title?) front reached.store reached.player
    have hcut : part.result ≠ .ok () := fun h => hstopped (Completion.ofResult_eq_completed.2 h)
    have hbranch : (branch conditions whenTrue whenFalse).run title? reached.store reached.player =
        part := by
      rw [run_branch hholds, hpart, runAll_append, Run.andThen_of_not_ok hcut]
    rw [execute, runAll_append, Run.andThen_of_ok (hok hdone), runAll, hbranch,
      Run.andThen_of_not_ok hcut]
    rfl

/-! ## Replacing a piece of a script -/

/-- One script has `new` where another has `old`, among its statements or in a part
of a branch. -/
inductive Replaced (old new : List Statement) : List Statement → List Statement → Prop
  | here (before after : List Statement) :
    Replaced old new (before ++ old ++ after) (before ++ new ++ after)
  | whenTrue (before after : List Statement) (conditions : List Condition)
    {part part' : List Statement} (whenFalse : List Statement) (h : Replaced old new part part') :
    Replaced old new (before ++ branch conditions part whenFalse :: after)
      (before ++ branch conditions part' whenFalse :: after)
  | whenFalse (before after : List Statement) (conditions : List Condition)
    (whenTrue : List Statement) {part part' : List Statement} (h : Replaced old new part part') :
    Replaced old new (before ++ branch conditions whenTrue part :: after)
      (before ++ branch conditions whenTrue part' :: after)

variable {old new ss ss' : List Statement}

omit [Player σ] in
theorem runAll_replace {step : Statement → Variables → σ → Run σ}
    (h : runAll step new = runAll step old) (before after : List Statement) :
    runAll step (before ++ new ++ after) = runAll step (before ++ old ++ after) := by
  funext vs p
  rw [runAll_append, runAll_append, runAll_append, runAll_append, h]

omit [Player σ] in
theorem runAll_replace_one {step : Statement → Variables → σ → Run σ} {s s' : Statement}
    (h : step s' = step s) (before after : List Statement) :
    runAll step (before ++ s' :: after) = runAll step (before ++ s :: after) := by
  have hone : runAll step [s'] = runAll step [s] := by
    funext vs p
    rw [runAll, runAll, h]
  rw [List.append_cons, List.append_cons before s]
  exact runAll_replace hone before after

/-- Inside of a part, what is replaced in a branch is not run at all. -/
theorem Replaced.runAll_inBranch (h : Replaced old new ss ss')
    (hpiece : runAll (runInBranch title?) new = runAll (σ := σ) (runInBranch title?) old) :
    runAll (runInBranch title?) ss' = runAll (σ := σ) (runInBranch title?) ss := by
  cases h with
  | here before after => exact runAll_replace hpiece before after
  | whenTrue before after conditions whenFalse h =>
    refine runAll_replace_one ?_ before after
    rfl
  | whenFalse before after conditions whenTrue h =>
    refine runAll_replace_one ?_ before after
    rfl

/-- A piece that runs like another, in a circle and in a branch, may stand in its
place. -/
theorem Replaced.runAll_inCircle (h : Replaced old new ss ss')
    (hpiece : runAll (run title?) new = runAll (σ := σ) (run title?) old)
    (hinBranch : runAll (runInBranch title?) new = runAll (σ := σ) (runInBranch title?) old) :
    runAll (run title?) ss' = runAll (σ := σ) (run title?) ss := by
  cases h with
  | here before after => exact runAll_replace hpiece before after
  | @whenTrue before after conditions part part' whenFalse h =>
    refine runAll_replace_one ?_ before after
    funext vs p
    simp only [run, h.runAll_inBranch hinBranch]
  | @whenFalse before after conditions whenTrue part part' h =>
    refine runAll_replace_one ?_ before after
    funext vs p
    simp only [run, h.runAll_inBranch hinBranch]

end Statement
end AudioWalk
