import AudioWalk.Proofs.Script.Composing
import AudioWalk.Proofs.Script.Straight

/-!
# What a run performs

A run performs the statements that it gets to, one behind the other, and in the
place of a branch those of the part that it takes.  Two kinds of statement are got
to and not performed: a clip for a busy player, and a branch inside of a branch.

The outcome of a run is told by what it performs: the store is the old one with
these changes made in their order, and the effects are what these statements show.
-/

namespace AudioWalk
namespace Statement

variable {σ : Type}

/-- Gathers what is performed of each statement, along a run and as far as it gets. -/
def performedAll (step : Statement → Variables → σ → Run σ)
    (performed : Statement → Variables → σ → List Statement) :
    List Statement → Variables → σ → List Statement
  | [], _, _ => []
  | s :: rest, vs, p =>
    match (step s vs p).result with
    | .ok _ =>
      performed s vs p ++ performedAll step performed rest (step s vs p).store (step s vs p).player
    | .error _ => performed s vs p

variable [Player σ]

def performedInBranch : Statement → Variables → σ → List Statement
  | branch _ _ _, _, _ => []
  | play clip text volume, _, p =>
    if isPlaying (Player.elapse p) then [] else [play clip text volume]
  | s, _, _ => [s]

def performed (title? : Option String) : Statement → Variables → σ → List Statement
  | branch conditions whenTrue whenFalse, vs, p =>
    match conditionsHold vs conditions with
    | .ok holds => performedAll (runInBranch title?) performedInBranch
        (if holds then whenTrue else whenFalse) vs p
    | .error _ => []
  | s, vs, p => performedInBranch s vs p

/-- The statements that a run of a script performs, the first one first. -/
def performedBy (title? : Option String) (ss : List Statement) (vs : Variables) (p : σ) :
    List Statement :=
  performedAll (run title?) (performed title?) ss vs p

/-! ## What is among it -/

section

omit [Player σ] in
theorem mem_performedAll {step : Statement → Variables → σ → Run σ}
    {performed : Statement → Variables → σ → List Statement} {ss : List Statement} {s : Statement}
    {vs : Variables} {p : σ} : s ∈ performedAll step performed ss vs p ↔
      ∃ x vs' p', Reaches step ss vs p x vs' p' ∧ s ∈ performed x vs' p' := by
  induction ss generalizing vs p with
  | nil =>
    refine ⟨fun h => absurd h List.not_mem_nil, ?_⟩
    rintro ⟨x, vs', p', hreaches, _⟩
    exact absurd hreaches not_reaches_nil
  | cons x rest ih =>
    rw [exists_reaches_cons, ← ih, performedAll]
    split
    · next hdone => simp only [List.mem_append, hdone, true_and]
    · next hstopped => simp only [hstopped, reduceCtorEq, false_and, or_false]

theorem performed_of_not_branch {s : Statement} (hs : s.isBranch = false)
    (title? : Option String) (vs : Variables) (p : σ) :
    performed title? s vs p = performedInBranch s vs p := by
  cases s with
  | branch conditions whenTrue whenFalse => cases hs
  | assign name value => rfl
  | increment name delta => rfl
  | play clip text volume => rfl
  | ending => rfl

theorem mem_performedInBranch {s x : Statement} {vs : Variables} {p : σ} :
    s ∈ performedInBranch x vs p ↔ s = x ∧ x.isBranch = false ∧
      (x.isPlay = true → isPlaying (Player.elapse p) = false) := by
  cases x with
  | play clip text volume =>
    rw [performedInBranch]
    split
    · next hbusy => simp [hbusy, isPlay]
    · next hidle => simp [eq_false_of_ne_true hidle, isBranch]
  | branch conditions whenTrue whenFalse => simp [performedInBranch, isBranch]
  | assign name value => simp [performedInBranch, isBranch, isPlay]
  | increment name delta => simp [performedInBranch, isBranch, isPlay]
  | ending => simp [performedInBranch, isBranch, isPlay]

/-- A run performs what it comes to, but no clip for a busy player and no branch. -/
theorem mem_performedBy {title? : Option String} {ss : List Statement} {s : Statement}
    {vs : Variables} {p : σ} : s ∈ performedBy title? ss vs p ↔
      s.isBranch = false ∧ ∃ vs' p', GetsTo title? ss vs p s vs' p' ∧
        (s.isPlay = true → isPlaying (Player.elapse p') = false) := by
  rw [performedBy, mem_performedAll]
  constructor
  · rintro ⟨x, vs', p', hreaches, hs⟩
    cases hbranch : x.isBranch with
    | false =>
      rw [performed_of_not_branch hbranch] at hs
      obtain ⟨rfl, hplain, hidle⟩ := mem_performedInBranch.1 hs
      exact ⟨hplain, vs', p', .inCircle hreaches, hidle⟩
    | true =>
      obtain ⟨conditions, whenTrue, whenFalse, rfl⟩ := exists_of_isBranch hbranch
      rw [performed] at hs
      split at hs
      · next holds hholds =>
        obtain ⟨y, vs'', p'', hinner, hy⟩ := mem_performedAll.1 hs
        obtain ⟨rfl, hplain, hidle⟩ := mem_performedInBranch.1 hy
        exact ⟨hplain, vs'', p'', .inPart hreaches hholds hinner, hidle⟩
      · cases hs
  · rintro ⟨hplain, vs', p', hgets, hidle⟩
    have hs : s ∈ performedInBranch s vs' p' := mem_performedInBranch.2 ⟨rfl, hplain, hidle⟩
    cases hgets with
    | inCircle hreaches =>
      refine ⟨s, vs', p', hreaches, ?_⟩
      rwa [performed_of_not_branch hplain]
    | inPart hreaches hholds hinner =>
      refine ⟨_, _, _, hreaches, ?_⟩
      rw [performed, hholds]
      exact mem_performedAll.2 ⟨s, vs', p', hinner, hs⟩

end

/-- The statements account for a run. -/
structure Accounts (title? : Option String) (vs : Variables) (ss : List Statement)
    (r : Run σ) : Prop where
  store : r.store = updateAll vs ss
  effects : r.effects = shownAll title? ss

variable {title? : Option String}

omit [Player σ] in
theorem accounts_performedAll {step : Statement → Variables → σ → Run σ}
    {performed : Statement → Variables → σ → List Statement}
    (hstep : ∀ s vs p, Accounts title? vs (performed s vs p) (step s vs p))
    (ss : List Statement) (vs : Variables) (p : σ) :
    Accounts title? vs (performedAll step performed ss vs p) (runAll step ss vs p) := by
  induction ss generalizing vs p with
  | nil => exact ⟨rfl, rfl⟩
  | cons s rest ih =>
    have hs := hstep s vs p
    rw [runAll, performedAll]
    split
    · next hdone =>
      have hrest := ih (step s vs p).store (step s vs p).player
      rw [Run.andThen_of_ok hdone]
      constructor
      · rw [hrest.store, hs.store, updateAll_append]
      · rw [hrest.effects, hs.effects, shownAll_append]
    · next hstopped =>
      have hcut : (step s vs p).result ≠ .ok () := by
        intro hok
        cases hstopped.symm.trans hok
      rwa [Run.andThen_of_not_ok hcut]

theorem accounts_runInBranch (s : Statement) (vs : Variables) (p : σ) :
    Accounts title? vs (performedInBranch s vs p) (s.runInBranch title? vs p) := by
  cases s with
  | assign name value => exact ⟨rfl, rfl⟩
  | increment name delta =>
    rw [runInBranch_increment]
    exact ⟨rfl, rfl⟩
  | branch conditions whenTrue whenFalse => exact ⟨rfl, rfl⟩
  | ending => exact ⟨rfl, rfl⟩
  | play clip text volume =>
    simp only [performedInBranch, runInBranch, runPlay]
    split
    · exact ⟨rfl, rfl⟩
    · exact ⟨rfl, (List.append_nil _).symm⟩

theorem accounts_run (s : Statement) (vs : Variables) (p : σ) :
    Accounts title? vs (performed title? s vs p) (s.run title? vs p) := by
  cases hbranch : s.isBranch with
  | false =>
    rw [performed_of_not_branch hbranch, run_of_not_branch hbranch]
    exact accounts_runInBranch s vs p
  | true =>
    obtain ⟨conditions, whenTrue, whenFalse, rfl⟩ := exists_of_isBranch hbranch
    rw [performed]
    cases h : conditionsHold vs conditions with
    | error cause =>
      rw [run_branch_of_error h]
      exact ⟨rfl, rfl⟩
    | ok holds =>
      rw [run_branch h]
      exact accounts_performedAll accounts_runInBranch _ vs p

/-- What a run performs accounts for its store and its effects, however it ends. -/
theorem accounts_runAll (ss : List Statement) (vs : Variables) (p : σ) :
    Accounts title? vs (performedBy title? ss vs p) (runAll (run title?) ss vs p) :=
  accounts_performedAll accounts_run ss vs p

end Statement
end AudioWalk
