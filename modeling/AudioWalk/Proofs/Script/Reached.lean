import AudioWalk.Proofs.Script.Runs

/-!
# What a run gets to

A run stops at a busy player or at a bad condition, so it need not get to all of
its statements.  `Reaches` says which ones it gets to, and which store and player
it finds there.  The effects of a run are those of the statements it reaches, and
a run that is stopped has reached one that is; so what no statement of a script does
comes about in no run of it.

A run through a script goes through the parts of its branches too.  `GetsTo` is the
same question for the statements of both levels.
-/

namespace AudioWalk
namespace Statement

section

variable {σ : Type}

/-- A run gets to one of its statements, with this store and this player. -/
inductive Reaches (step : Statement → Variables → σ → Run σ) :
    List Statement → Variables → σ → Statement → Variables → σ → Prop
  | here {s : Statement} {rest : List Statement} {vs : Variables} {p : σ} :
    Reaches step (s :: rest) vs p s vs p
  | later {s s' : Statement} {rest : List Statement} {vs vs' : Variables} {p p' : σ}
    (hdone : (step s vs p).result = .ok ())
    (hrest : Reaches step rest (step s vs p).store (step s vs p).player s' vs' p') :
    Reaches step (s :: rest) vs p s' vs' p'

variable {step : Statement → Variables → σ → Run σ} {ss : List Statement} {s : Statement}
  {vs vs' : Variables} {p p' : σ}

theorem Reaches.mem (h : Reaches step ss vs p s vs' p') : s ∈ ss := by
  induction h with
  | here => exact List.mem_cons_self
  | later hdone hrest ih => exact List.mem_cons_of_mem _ ih

theorem not_reaches_nil : ¬ Reaches step [] vs p s vs' p' := nofun

theorem reaches_cons {x : Statement} :
    Reaches step (x :: ss) vs p s vs' p' ↔
      (s = x ∧ vs' = vs ∧ p' = p) ∨ (step x vs p).result = .ok () ∧
        Reaches step ss (step x vs p).store (step x vs p).player s vs' p' := by
  constructor
  · intro h
    cases h with
    | here => exact Or.inl ⟨rfl, rfl, rfl⟩
    | later hdone hrest => exact Or.inr ⟨hdone, hrest⟩
  · intro h
    rcases h with ⟨hs, hvs, hp⟩ | ⟨hdone, hrest⟩
    · rw [hs, hvs, hp]
      exact .here
    · exact .later hdone hrest

/-- A run gets to its first statement at once, and to another where it gets to it
behind that one. -/
theorem exists_reaches_cons {x : Statement} {P : Statement → Variables → σ → Prop} :
    (∃ s vs' p', Reaches step (x :: ss) vs p s vs' p' ∧ P s vs' p') ↔
      P x vs p ∨ (step x vs p).result = .ok () ∧
        ∃ s vs' p', Reaches step ss (step x vs p).store (step x vs p).player s vs' p' ∧
          P s vs' p' := by
  constructor
  · rintro ⟨s, vs', p', hreaches, hs⟩
    rcases reaches_cons.1 hreaches with ⟨rfl, rfl, rfl⟩ | ⟨hdone, hrest⟩
    · exact Or.inl hs
    · exact Or.inr ⟨hdone, s, vs', p', hrest, hs⟩
  · rintro (hx | ⟨hdone, s, vs', p', hrest, hs⟩)
    · exact ⟨x, vs, p, .here, hx⟩
    · exact ⟨s, vs', p', .later hdone hrest, hs⟩

/-- Where something is the case for a run exactly if it is for the first statement,
or for the rest and the first statement lets it begin, it is the case for a run
exactly if it is for a statement that the run reaches. -/
theorem iff_exists_reaches {P : Run σ → Prop} (hnothing : ∀ vs p, ¬ P (.nothing vs p))
    (handThen : ∀ r (next : Variables → σ → Run σ), P (r.andThen next) ↔
      P r ∨ r.result = .ok () ∧ P (next r.store r.player)) :
    P (runAll step ss vs p) ↔ ∃ s vs' p', Reaches step ss vs p s vs' p' ∧ P (step s vs' p') := by
  induction ss generalizing vs p with
  | nil =>
    constructor
    · intro h
      exact absurd h (hnothing vs p)
    · rintro ⟨s, vs', p', hreaches, _⟩
      exact absurd hreaches not_reaches_nil
  | cons x rest ih =>
    rw [runAll, handThen, ih, exists_reaches_cons]

/-- The effects of a run are those of the statements that it reaches. -/
theorem mem_effects_runAll {e : Effect} :
    e ∈ (runAll step ss vs p).effects ↔
      ∃ s vs' p', Reaches step ss vs p s vs' p' ∧ e ∈ (step s vs' p').effects := by
  refine iff_exists_reaches (P := fun r => e ∈ r.effects) (fun _ _ => List.not_mem_nil)
    fun r next => ?_
  by_cases hdone : r.result = .ok ()
  · rw [Run.andThen_of_ok hdone, List.mem_append]
    simp only [hdone, true_and]
  · rw [Run.andThen_of_not_ok hdone]
    simp only [hdone, false_and, or_false]

/-- A run is stopped where it reaches a statement that is, and by the same cause. -/
theorem stopped_runAll {cause : Failure} :
    (runAll step ss vs p).result = .error cause ↔
      ∃ s vs' p', Reaches step ss vs p s vs' p' ∧ (step s vs' p').result = .error cause := by
  refine iff_exists_reaches (P := fun r => r.result = .error cause) (fun _ _ => nofun)
    fun r next => ?_
  by_cases hdone : r.result = .ok ()
  · rw [Run.andThen_of_ok hdone]
    simp only [hdone, reduceCtorEq, true_and, false_or]
  · rw [Run.andThen_of_not_ok hdone]
    simp only [hdone, false_and, or_false]

end

/-! ## What statements tell -/

/-- What a statement has to tell the host, branches aside. -/
inductive Tells : Statement → Effect → Prop
  | text (clip text : String) (volume : Float32) (shown : String) :
    Tells (play clip text volume) (.displayText shown)
  | request (clip text : String) (volume : Float32) :
    Tells (play clip text volume) (.playRequest clip volume)
  | ending : Tells ending .endOfStory

/-- The statements that may run in the place of a statement. -/
def parts : Statement → List Statement
  | branch _ whenTrue whenFalse => whenTrue ++ whenFalse
  | s => [s]

theorem mem_parts_self {s : Statement} (hs : s.isBranch = false) : s ∈ s.parts := by
  cases s with
  | branch conditions whenTrue whenFalse => cases hs
  | assign name value => exact List.mem_singleton_self _
  | increment name delta => exact List.mem_singleton_self _
  | play clip text volume => exact List.mem_singleton_self _
  | ending => exact List.mem_singleton_self _

variable {σ : Type} [Player σ] {title? : Option String} {ss : List Statement} {s : Statement}
  {vs : Variables} {p : σ} {e : Effect}

theorem eq_displayText_of_mem_display {text : String} (he : e ∈ display text) :
    e = .displayText text := by
  rw [display] at he
  split at he
  · cases he
  · exact List.mem_singleton.1 he

theorem mem_effects_runInBranch (he : e ∈ (s.runInBranch title? vs p).effects) : s.Tells e := by
  cases s with
  | play clip text volume =>
    simp only [runInBranch, runPlay] at he
    split at he
    · cases he
    · rw [List.mem_append, List.mem_append, List.mem_singleton] at he
      rcases he with (he | he) | he
      · rw [eq_displayText_of_mem_display he]
        exact .text clip text volume _
      · rw [eq_displayText_of_mem_display he]
        exact .text clip text volume _
      · rw [he]
        exact .request clip text volume
  | ending =>
    rw [List.mem_singleton.1 he]
    exact .ending
  | assign name value => cases he
  | increment name delta =>
    rw [runInBranch_increment] at he
    cases he
  | branch conditions whenTrue whenFalse => cases he

theorem mem_effects_run (he : e ∈ (s.run title? vs p).effects) : ∃ x ∈ s.parts, x.Tells e := by
  cases hbranch : s.isBranch with
  | false =>
    rw [run_of_not_branch hbranch] at he
    exact ⟨s, mem_parts_self hbranch, mem_effects_runInBranch he⟩
  | true =>
    obtain ⟨conditions, whenTrue, whenFalse, rfl⟩ := exists_of_isBranch hbranch
    simp only [run] at he
    split at he
    · obtain ⟨x, _, _, hreaches, hx⟩ := mem_effects_runAll.1 he
      exact ⟨x, List.mem_append_left _ hreaches.mem, mem_effects_runInBranch hx⟩
    · obtain ⟨x, _, _, hreaches, hx⟩ := mem_effects_runAll.1 he
      exact ⟨x, List.mem_append_right _ hreaches.mem, mem_effects_runInBranch hx⟩
    · cases he

/-- Every effect of a run is told by a statement of the script, or by one in a
branch of it. -/
theorem mem_effects_execute (he : e ∈ (execute title? ss vs p).effects) :
    ∃ s ∈ ss, ∃ x ∈ s.parts, x.Tells e := by
  obtain ⟨s, _, _, hreaches, hs⟩ := mem_effects_runAll.1 he
  exact ⟨s, hreaches.mem, mem_effects_run hs⟩

/-! ## Where runs are stopped -/

theorem stopped_runPlay {clip text : String} {volume : Float32} {cause : Failure} :
    (runPlay title? clip text volume vs p).result = .error cause ↔
      cause = .alreadyPlaying ∧ isPlaying (Player.elapse p) = true := by
  unfold runPlay
  dsimp only
  split
  · next hbusy =>
    constructor
    · intro h
      cases h
      exact ⟨rfl, hbusy⟩
    · rintro ⟨rfl, _⟩
      rfl
  · next hidle => exact ⟨nofun, fun ⟨_, hbusy⟩ => absurd hbusy hidle⟩

/-- Branches aside, a statement is stopped by a busy player only.  What an increment
reads is never missing. -/
theorem stopped_runInBranch {cause : Failure} :
    (s.runInBranch title? vs p).result = .error cause ↔ cause = .alreadyPlaying ∧
      ∃ clip text volume, s = play clip text volume ∧ isPlaying (Player.elapse p) = true := by
  cases s with
  | play clip text volume =>
    refine stopped_runPlay.trans (and_congr_right fun _ => ?_)
    constructor
    · intro hbusy
      exact ⟨clip, text, volume, rfl, hbusy⟩
    · rintro ⟨_, _, _, _, hbusy⟩
      exact hbusy
  | increment name delta =>
    rw [runInBranch_increment]
    exact ⟨nofun, nofun⟩
  | assign name value => exact ⟨nofun, nofun⟩
  | branch conditions whenTrue whenFalse => exact ⟨nofun, nofun⟩
  | ending => exact ⟨nofun, nofun⟩

theorem execute_not_failed (hss : ∀ s ∈ ss, s.isBranch = false) (cause : Failure) :
    (execute title? ss vs p).completion ≠ .failed cause := by
  intro hfailed
  obtain ⟨hstopped, hbusy⟩ := Completion.ofResult_eq_failed.1 hfailed
  obtain ⟨s, vs', p', hreaches, hs⟩ := stopped_runAll.1 hstopped
  rw [run_of_not_branch (hss s hreaches.mem)] at hs
  exact hbusy (stopped_runInBranch.1 hs).1

/-- A statement fails by its own conditions only, and then it has done nothing. -/
theorem run_failed {cause : Failure} (h : (s.run title? vs p).result = .error cause)
    (hbusy : cause ≠ .alreadyPlaying) :
    ∃ conditions whenTrue whenFalse, s = branch conditions whenTrue whenFalse ∧
      conditionsHold vs conditions = .error cause ∧ s.run title? vs p = .stopped cause vs p := by
  cases hbranch : s.isBranch with
  | false =>
    rw [run_of_not_branch hbranch] at h
    exact absurd (stopped_runInBranch.1 h).1 hbusy
  | true =>
    obtain ⟨conditions, whenTrue, whenFalse, rfl⟩ := exists_of_isBranch hbranch
    have hpart (part : List Statement) :
        (runAll (runInBranch title?) part vs p).result ≠ .error cause := by
      intro hstopped
      obtain ⟨_, _, _, _, hs⟩ := stopped_runAll.1 hstopped
      exact hbusy (stopped_runInBranch.1 hs).1
    refine ⟨conditions, whenTrue, whenFalse, rfl, ?_⟩
    simp only [run] at h ⊢
    split at h
    · exact absurd h (hpart whenTrue)
    · exact absurd h (hpart whenFalse)
    · next hcause =>
      cases h
      exact ⟨hcause, rfl⟩

/-- The statements in front of number `n` run to their end, and then its conditions
fail. -/
structure FailsAt (title? : Option String) (ss : List Statement) (vs : Variables) (p : σ) (n : Nat)
    (cause : Failure) : Prop where
  completed : (execute title? (ss.take n) vs p).completion = .completed
  branch : ∃ conditions whenTrue whenFalse, ss[n]? = some (.branch conditions whenTrue whenFalse) ∧
    conditionsHold (execute title? (ss.take n) vs p).store conditions = .error cause
  outcome : execute title? ss vs p =
    { execute title? (ss.take n) vs p with completion := .failed cause }

/-- A run that fails has run what stands in front of a branch, and nothing more. -/
theorem exists_failing_branch {cause : Failure}
    (h : (runAll (run title?) ss vs p).result = .error cause) (hbusy : cause ≠ .alreadyPlaying) :
    ∃ n conditions whenTrue whenFalse, ss[n]? = some (.branch conditions whenTrue whenFalse) ∧
      (runAll (run title?) (ss.take n) vs p).result = .ok () ∧
      conditionsHold (runAll (run title?) (ss.take n) vs p).store conditions = .error cause ∧
      runAll (run title?) ss vs p =
        { runAll (run title?) (ss.take n) vs p with result := .error cause } := by
  induction ss generalizing vs p with
  | nil => cases h
  | cons s rest ih =>
    rw [runAll] at h
    by_cases hdone : (s.run title? vs p).result = .ok ()
    · rw [Run.andThen_of_ok hdone] at h
      obtain ⟨n, conditions, whenTrue, whenFalse, hn, hfront, hcause, hrun⟩ := ih h
      refine ⟨n + 1, conditions, whenTrue, whenFalse, hn, ?_, ?_, ?_⟩
      · rw [List.take_succ_cons, runAll, Run.andThen_of_ok hdone]
        exact hfront
      · rw [List.take_succ_cons, runAll, Run.andThen_of_ok hdone]
        exact hcause
      · rw [List.take_succ_cons, runAll, runAll, Run.andThen_of_ok hdone, Run.andThen_of_ok hdone,
          hrun]
    · rw [Run.andThen_of_not_ok hdone] at h
      obtain ⟨conditions, whenTrue, whenFalse, hs, hcause, hrun⟩ := run_failed h hbusy
      refine ⟨0, conditions, whenTrue, whenFalse, congrArg some hs, rfl, hcause, ?_⟩
      rw [runAll, Run.andThen_of_not_ok hdone, hrun]
      rfl

theorem exists_failsAt {cause : Failure} (h : (execute title? ss vs p).completion = .failed cause) :
    ∃ n, FailsAt title? ss vs p n cause := by
  obtain ⟨hstopped, hbusy⟩ := Completion.ofResult_eq_failed.1 h
  obtain ⟨n, conditions, whenTrue, whenFalse, hn, hfront, hcause, hrun⟩ :=
    exists_failing_branch hstopped hbusy
  refine ⟨n, Completion.ofResult_eq_completed.2 hfront,
    ⟨conditions, whenTrue, whenFalse, hn, hcause⟩, ?_⟩
  rw [execute, hrun, Run.outcome, Completion.ofResult_of_ne hbusy]
  rfl

/-! ## At both levels -/

/-- A run comes to a statement, in the circle or in the part of a branch that it takes,
with this store and this player. -/
inductive GetsTo (title? : Option String) (ss : List Statement) (vs : Variables) (p : σ) :
    Statement → Variables → σ → Prop
  | inCircle {s : Statement} {vs' : Variables} {p' : σ}
    (h : Reaches (run title?) ss vs p s vs' p') : GetsTo title? ss vs p s vs' p'
  | inPart {conditions : List Condition} {whenTrue whenFalse : List Statement} {holds : Bool}
    {s : Statement} {vs' vs'' : Variables} {p' p'' : σ}
    (h : Reaches (run title?) ss vs p (branch conditions whenTrue whenFalse) vs' p')
    (hholds : conditionsHold vs' conditions = .ok holds)
    (hpart : Reaches (runInBranch title?) (if holds then whenTrue else whenFalse) vs' p'
      s vs'' p'') :
    GetsTo title? ss vs p s vs'' p''

/-! ## Branches inside branches -/

/-- A run gets to a branch, and in the part that it takes to another branch. -/
def ReachesNested (title? : Option String) (ss : List Statement) (vs : Variables) (p : σ) : Prop :=
  ∃ conditions whenTrue whenFalse vs' p' holds,
    Reaches (run title?) ss vs p (.branch conditions whenTrue whenFalse) vs' p' ∧
    conditionsHold vs' conditions = .ok holds ∧
    ∃ s vs'' p'', s.isBranch = true ∧
      Reaches (runInBranch title?) (if holds then whenTrue else whenFalse) vs' p' s vs'' p''

theorem not_reachesNested (hss : ∀ s ∈ ss, ∀ x ∈ s.parts, x.isBranch = false) :
    ¬ ReachesNested title? ss vs p := by
  intro ⟨conditions, whenTrue, whenFalse, vs', p', holds, hreaches, _, s, vs'', p'', hs, hnested⟩
  have hpart : s ∈ (branch conditions whenTrue whenFalse).parts := by
    cases holds with
    | true => exact List.mem_append_left _ hnested.mem
    | false => exact List.mem_append_right _ hnested.mem
  have hplain := hss _ hreaches.mem s hpart
  rw [hs] at hplain
  cases hplain

end Statement
end AudioWalk
