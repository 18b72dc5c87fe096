import AudioWalk.Proofs.Script.Conditions
import AudioWalk.Proofs.Script.Reached

/-!
# Branches are inlined

A branch whose conditions have an answer runs as the part that it takes would run
in its place, once the branches directly in that part are left out.  So of two
scripts that differ in branches inside of branches only, one runs as the other:
the conditions of a nested branch cannot even fail.
-/

namespace AudioWalk
namespace Statement

/-- What a branch runs of one of its parts. -/
def withoutBranches (ss : List Statement) : List Statement := ss.filter fun s => !s.isBranch

/-- A statement with nothing nested in its parts. -/
def outline : Statement → Statement
  | branch conditions whenTrue whenFalse =>
    branch conditions (withoutBranches whenTrue) (withoutBranches whenFalse)
  | s => s

@[simp]
theorem withoutBranches_cons_branch (conditions : List Condition)
    (whenTrue whenFalse ss : List Statement) :
    withoutBranches (branch conditions whenTrue whenFalse :: ss) = withoutBranches ss := rfl

theorem withoutBranches_cons {s : Statement} (hs : s.isBranch = false) (ss : List Statement) :
    withoutBranches (s :: ss) = s :: withoutBranches ss :=
  List.filter_cons_of_pos (by rw [hs]; rfl)

theorem isBranch_of_mem_withoutBranches {ss : List Statement} {s : Statement}
    (h : s ∈ withoutBranches ss) : s.isBranch = false := by
  simpa using (List.mem_filter.1 h).2

theorem withoutBranches_idem (ss : List Statement) :
    withoutBranches (withoutBranches ss) = withoutBranches ss :=
  List.filter_eq_self.2 fun s hs => by rw [isBranch_of_mem_withoutBranches hs]; rfl

variable {σ : Type} [Player σ] {title? : Option String}

theorem runAll_runInBranch (ss : List Statement) (vs : Variables) (p : σ) :
    runAll (runInBranch title?) ss vs p = runAll (run title?) (withoutBranches ss) vs p := by
  induction ss generalizing vs p with
  | nil => rfl
  | cons s rest ih =>
    have hrest : runAll (runInBranch title?) rest =
        runAll (σ := σ) (run title?) (withoutBranches rest) :=
      funext fun vs => funext fun p => ih vs p
    cases hs : s.isBranch with
    | true =>
      obtain ⟨conditions, whenTrue, whenFalse, rfl⟩ := exists_of_isBranch hs
      have hpassed : runInBranch title? (branch conditions whenTrue whenFalse) vs p =
          .nothing vs p := rfl
      rw [withoutBranches_cons_branch, runAll, hpassed, Run.nothing_andThen, ih]
    | false => rw [withoutBranches_cons hs, runAll, runAll, hrest, run_of_not_branch hs]

theorem run_branch_of_ok {conditions : List Condition} {vs : Variables} {holds : Bool}
    (h : conditionsHold vs conditions = .ok holds) (whenTrue whenFalse : List Statement) (p : σ) :
    (branch conditions whenTrue whenFalse).run title? vs p =
      runAll (run title?) (withoutBranches (if holds then whenTrue else whenFalse)) vs p := by
  cases holds with
  | true => simp only [run, h, runAll_runInBranch, if_true]
  | false => simp only [run, h, runAll_runInBranch, Bool.false_eq_true, if_false]

theorem run_branch_of_error {conditions : List Condition} {vs : Variables} {cause : Failure}
    (h : conditionsHold vs conditions = .error cause) (whenTrue whenFalse : List Statement)
    (p : σ) : (branch conditions whenTrue whenFalse).run title? vs p = .stopped cause vs p := by
  simp only [run, h]

theorem run_outline (s : Statement) (vs : Variables) (p : σ) :
    s.outline.run title? vs p = s.run title? vs p := by
  cases s with
  | branch conditions whenTrue whenFalse =>
    rw [outline]
    cases h : conditionsHold vs conditions with
    | error cause => rw [run_branch_of_error h, run_branch_of_error h]
    | ok holds =>
      rw [run_branch_of_ok h, run_branch_of_ok h, ← apply_ite withoutBranches,
        withoutBranches_idem]
  | assign name value => rfl
  | increment name delta => rfl
  | play clip text volume => rfl
  | ending => rfl

theorem runAll_outline (ss : List Statement) (vs : Variables) (p : σ) :
    runAll (run title?) (ss.map outline) vs p = runAll (run title?) ss vs p := by
  induction ss generalizing vs p with
  | nil => rfl
  | cons s rest ih =>
    have hrest : runAll (σ := σ) (run title?) (rest.map outline) = runAll (run title?) rest :=
      funext fun vs => funext fun p => ih vs p
    rw [List.map_cons, runAll, runAll, run_outline, hrest]

/-- Where a run gets to a branch whose conditions have an answer, it goes on as if
the part that answers to them stood there, without the branches directly in it;
where they have none, it fails with what it has done.  No run sees the difference
between scripts that differ inside of nested branches. -/
theorem branch_is_inlined (before after whenTrue whenFalse : List Statement)
    (conditions : List Condition) (vs : Variables) (p : σ)
    (hbefore : (execute title? before vs p).completion = .completed) :
    let reached := execute title? before vs p
    let script := before ++ .branch conditions whenTrue whenFalse :: after
    (∀ holds, conditionsHold reached.store conditions = .ok holds →
      execute title? script vs p = execute title?
        (before ++ withoutBranches (if holds then whenTrue else whenFalse) ++ after) vs p) ∧
    (∀ cause, conditionsHold reached.store conditions = .error cause →
      execute title? script vs p = { reached with completion := .failed cause }) ∧
    ∀ other : List Statement, other.map outline = script.map outline →
      execute title? other vs p = execute title? script vs p := by
  intro reached script
  let front := runAll (run title?) before vs p
  have hdone : front.result = .ok () := Completion.ofResult_eq_completed.1 hbefore
  have hscript : runAll (run title?) script vs p = front.andThen fun vs p =>
      ((branch conditions whenTrue whenFalse).run title? vs p).andThen
        (runAll (run title?) after) := runAll_append (run title?) before _ vs p
  refine ⟨fun holds (h : conditionsHold front.store conditions = .ok holds) => ?_,
    fun cause (h : conditionsHold front.store conditions = .error cause) => ?_,
    fun other hother => ?_⟩
  · have hflat : runAll (run title?)
        (before ++ withoutBranches (if holds then whenTrue else whenFalse) ++ after) vs p =
        front.andThen fun vs p =>
          (runAll (run title?) (withoutBranches (if holds then whenTrue else whenFalse)) vs
            p).andThen (runAll (run title?) after) := by
      rw [runAll_append, runAll_append, Run.andThen_assoc]
    rw [execute, execute, hscript, hflat, Run.andThen_of_ok hdone, Run.andThen_of_ok hdone,
      run_branch_of_ok h]
  · have hstopped : (Run.stopped cause front.store front.player).result ≠ .ok () := by
      intro hok
      cases hok
    have hcompletion : Completion.ofResult (.error cause) = .failed cause :=
      Completion.ofResult_of_ne (ne_alreadyPlaying_of_conditionsHold h)
    rw [execute, hscript, Run.andThen_of_ok hdone, run_branch_of_error h,
      Run.andThen_of_not_ok hstopped]
    show Outcome.mk (front.effects ++ []) (.ofResult (.error cause)) front.store front.player = _
    rw [List.append_nil, hcompletion]
    rfl
  · rw [execute, ← runAll_outline, hother, runAll_outline]
    rfl

/-- A condition that cannot be tested, inside of a branch that is taken. -/
theorem nested_branch_is_inert :
    let before : List Statement := [.assign "n" 1]
    let nested : Statement := .branch [⟨"bad", "1"⟩] [] []
    let part : List Statement := [nested, .play "a.ogg" "" 1.0, .ending]
    let script := before ++ .branch [⟨"n", "1"⟩] part [] :: [.increment "n" 2]
    (execute none before .empty silent).completion = .completed ∧
      conditionsHold (execute none before .empty silent).store [⟨"n", "1"⟩] = .ok true ∧
      (∃ cause, conditionsHold (execute none before .empty silent).store [⟨"bad", "1"⟩] =
        .error cause) ∧
      execute none script .empty silent = execute none
        [.assign "n" 1, .play "a.ogg" "" 1.0, .ending, .increment "n" 2] .empty silent := by
  intro before nested part script
  have hbefore : (execute none before .empty silent).completion = .completed := rfl
  have hholds : conditionsHold (execute none before .empty silent).store [⟨"n", "1"⟩] =
      .ok true := rfl
  have hinlined : execute none script .empty silent = execute none
      (before ++ withoutBranches part ++ [.increment "n" 2]) .empty silent :=
    (branch_is_inlined before [.increment "n" 2] part [] [⟨"n", "1"⟩] .empty silent
      hbefore).1 true hholds
  exact ⟨hbefore, hholds, ⟨.malformedLiteral "bad", rfl⟩, hinlined⟩

end Statement
end AudioWalk
