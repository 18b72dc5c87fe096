import AudioWalk.Proofs.Script.Inlining

/-!
# Straight lines

The store alone decides which way a run goes.  The title has no say in it, and the
player only in how far the run gets.  So a script and a store come to a `Line`: the
statements that a run gets to where no player stops it, one behind the other and
without branches, and the failure behind the last of them, if there is one.

`follows_execute` is what every run owes to its line: it has done what a front of
the line does, and where that is not all of it, the next statement is a clip and
the player is busy.
-/

namespace AudioWalk

structure Line where
  statements : List Statement
  failure? : Option Failure

namespace Line

/-- Goes on with another line, unless this one ends in a failure. -/
def andThen (l next : Line) : Line :=
  match l.failure? with
  | none => ⟨l.statements ++ next.statements, next.failure?⟩
  | some _ => l

/-- How a run ends that gets to the end of the line. -/
def completion (l : Line) : Completion :=
  match l.failure? with
  | none => .completed
  | some cause => .failed cause

end Line

namespace Statement

def isPlay : Statement → Bool
  | play _ _ _ => true
  | _ => false

/-- What a statement leaves of a store, branches aside. -/
def update (vs : Variables) : Statement → Variables
  | assign name value => vs.set name value
  | increment name delta => vs.set name ((vs.get? name).getD 0 + delta)
  | _ => vs

def updateAll (vs : Variables) (ss : List Statement) : Variables := ss.foldl update vs

/-- What a statement shows that no player stops, branches aside. -/
def shown (title? : Option String) : Statement → List Effect
  | play clip text volume =>
    display (title?.getD "") ++ display text ++ [.playRequest clip volume]
  | ending => [.endOfStory]
  | _ => []

def shownAll (title? : Option String) (ss : List Statement) : List Effect :=
  ss.flatMap (shown title?)

/-- What comes to run in the place of a statement. -/
def line (vs : Variables) : Statement → Line
  | branch conditions whenTrue whenFalse =>
    match conditionsHold vs conditions with
    | .ok holds => ⟨withoutBranches (if holds then whenTrue else whenFalse), none⟩
    | .error cause => ⟨[], some cause⟩
  | s => ⟨[s], none⟩

def straighten (vs : Variables) : List Statement → Line
  | [] => ⟨[], none⟩
  | s :: rest => (s.line vs).andThen (straighten (updateAll vs (s.line vs).statements) rest)

theorem updateAll_append (vs : Variables) (ss ts : List Statement) :
    updateAll vs (ss ++ ts) = updateAll (updateAll vs ss) ts :=
  List.foldl_append

theorem shownAll_append (title? : Option String) (ss ts : List Statement) :
    shownAll title? (ss ++ ts) = shownAll title? ss ++ shownAll title? ts :=
  List.flatMap_append

theorem shownAll_cons (title? : Option String) (s : Statement) (ss : List Statement) :
    shownAll title? (s :: ss) = s.shown title? ++ shownAll title? ss :=
  List.flatMap_cons

/-- The clip and volume that a statement asks for. -/
def request? : Statement → Option (String × Float32)
  | play clip _ volume => some (clip, volume)
  | _ => none

theorem requests_shownAll (title? : Option String) (ss : List Statement) :
    Effect.requests (shownAll title? ss) = ss.filterMap request? := by
  induction ss with
  | nil => rfl
  | cons s rest ih =>
    rw [shownAll_cons, Effect.requests_append, ih]
    cases s with
    | play clip text volume =>
      rw [shown, Effect.requests_append, Effect.requests_append, Effect.requests_display,
        Effect.requests_display]
      rfl
    | assign name value => rfl
    | increment name delta => rfl
    | branch conditions whenTrue whenFalse => rfl
    | ending => rfl

theorem isSome_request? (s : Statement) : s.request?.isSome = s.isPlay := by
  cases s with
  | play clip text volume => rfl
  | assign name value => rfl
  | increment name delta => rfl
  | branch conditions whenTrue whenFalse => rfl
  | ending => rfl

theorem length_requests_shownAll (title? : Option String) (ss : List Statement) :
    (Effect.requests (shownAll title? ss)).length = ss.countP isPlay := by
  rw [requests_shownAll, List.length_filterMap_eq_countP]
  exact congrArg (ss.countP ·) (funext isSome_request?)

variable {σ : Type}

/-- How far along its line a run has got. -/
inductive Follows [Player σ] (title? : Option String) (vs : Variables) (l : Line)
    (o : Outcome σ) : Prop
  | through (heffects : o.effects = shownAll title? l.statements)
    (hstore : o.store = updateAll vs l.statements) (hcompletion : o.completion = l.completion)
  | stopped {ran rest : List Statement} {clip text : String} {volume : Float32}
    (hline : l.statements = ran ++ play clip text volume :: rest)
    (heffects : o.effects = shownAll title? ran) (hstore : o.store = updateAll vs ran)
    (hcompletion : o.completion = .alreadyPlaying) (hbusy : isPlaying o.player = true)

variable [Player σ] {title? : Option String}

theorem Follows.andThen {vs : Variables} {l l' : Line} {r : Run σ}
    {next : Variables → σ → Run σ} (h : Follows title? vs l r.outcome)
    (hnext : ∀ p, Follows title? (updateAll vs l.statements) l'
      (next (updateAll vs l.statements) p).outcome) :
    Follows title? vs (l.andThen l') (r.andThen next).outcome := by
  obtain ⟨effects, result, store, player⟩ := r
  cases h with
  | through heffects hstore hcompletion =>
    cases hfailure : l.failure? with
    | some cause =>
      have hstopped : result ≠ .ok () := by
        rintro rfl
        rw [Line.completion, hfailure] at hcompletion
        cases hcompletion
      rw [Run.andThen_of_not_ok hstopped, Line.andThen, hfailure]
      exact .through heffects hstore hcompletion
    | none =>
      have hdone : result = .ok () := by
        rw [Line.completion, hfailure] at hcompletion
        exact Completion.ofResult_eq_completed.1 hcompletion
      cases (show store = updateAll vs l.statements from hstore)
      cases (show effects = shownAll title? l.statements from heffects)
      rw [Run.andThen_of_ok hdone, Line.andThen, hfailure]
      cases hnext player with
      | through heffects' hstore' hcompletion' =>
        refine .through ?_ ?_ hcompletion'
        · rw [shownAll_append, ← heffects']
          rfl
        · rw [updateAll_append, ← hstore']
          rfl
      | @stopped ran rest clip text volume hline' heffects' hstore' hcompletion' hbusy' =>
        have hline : l.statements ++ l'.statements =
            (l.statements ++ ran) ++ play clip text volume :: rest := by
          rw [hline', List.append_assoc]
        refine .stopped hline ?_ ?_ hcompletion' hbusy'
        · rw [shownAll_append, ← heffects']
          rfl
        · rw [updateAll_append, ← hstore']
          rfl
  | @stopped ran rest clip text volume hline heffects hstore hcompletion hbusy =>
    have hstopped : result ≠ .ok () := by
      rintro rfl
      cases hcompletion
    obtain ⟨more, hmore⟩ : ∃ more, (l.andThen l').statements = l.statements ++ more := by
      unfold Line.andThen
      split
      · exact ⟨_, rfl⟩
      · exact ⟨[], (List.append_nil _).symm⟩
    have hlonger : (l.andThen l').statements =
        ran ++ play clip text volume :: (rest ++ more) := by
      rw [hmore, hline, List.append_assoc, List.cons_append]
    rw [Run.andThen_of_not_ok hstopped]
    exact .stopped hlonger heffects hstore hcompletion hbusy

theorem follows_runInBranch {s : Statement} (hs : s.isBranch = false) (vs : Variables) (p : σ) :
    Follows title? vs ⟨[s], none⟩ (s.runInBranch title? vs p).outcome := by
  cases s with
  | branch conditions whenTrue whenFalse => cases hs
  | assign name value => exact .through rfl rfl rfl
  | increment name delta =>
    rw [runInBranch_increment]
    exact .through rfl rfl rfl
  | ending => exact .through rfl rfl rfl
  | play clip text volume =>
    by_cases hbusy : isPlaying (Player.elapse p) = true
    · have hrun : (play clip text volume).runInBranch title? vs p =
          .stopped .alreadyPlaying vs (Player.elapse p) := by
        simp only [runInBranch, runPlay, if_pos hbusy]
      have hline : [play clip text volume] = [] ++ play clip text volume :: [] := rfl
      rw [hrun]
      exact .stopped hline rfl rfl rfl hbusy
    · have hrun : (play clip text volume).runInBranch title? vs p =
          ⟨(play clip text volume).shown title?, .ok (), vs,
            Player.request (Player.elapse p) clip volume⟩ := by
        simp only [runInBranch, runPlay, if_neg hbusy, shown]
      rw [hrun]
      exact .through (List.append_nil _).symm rfl rfl

theorem follows_plain {ss : List Statement} (hss : ∀ s ∈ ss, s.isBranch = false) (vs : Variables)
    (p : σ) : Follows title? vs ⟨ss, none⟩ (execute title? ss vs p) := by
  induction ss generalizing vs p with
  | nil => exact .through rfl rfl rfl
  | cons s rest ih =>
    have hs := hss s List.mem_cons_self
    have hfirst : Follows title? vs ⟨[s], none⟩ (s.runInBranch title? vs p).outcome :=
      follows_runInBranch hs vs p
    rw [execute, runAll, run_of_not_branch hs]
    exact hfirst.andThen fun q => ih (fun t ht => hss t (List.mem_cons_of_mem s ht)) _ q

theorem line_of_not_branch {s : Statement} (hs : s.isBranch = false) (vs : Variables) :
    s.line vs = ⟨[s], none⟩ := by
  cases s with
  | branch conditions whenTrue whenFalse => cases hs
  | assign name value => rfl
  | increment name delta => rfl
  | play clip text volume => rfl
  | ending => rfl

theorem follows_run (s : Statement) (vs : Variables) (p : σ) :
    Follows title? vs (s.line vs) (s.run title? vs p).outcome := by
  cases hbranch : s.isBranch with
  | false =>
    rw [line_of_not_branch hbranch, run_of_not_branch hbranch]
    exact follows_runInBranch hbranch vs p
  | true =>
    obtain ⟨conditions, whenTrue, whenFalse, rfl⟩ := exists_of_isBranch hbranch
    rw [line]
    cases h : conditionsHold vs conditions with
    | ok holds =>
      rw [run_branch_of_ok h]
      exact follows_plain (fun s hs => isBranch_of_mem_withoutBranches hs) vs p
    | error cause =>
      rw [run_branch_of_error h]
      exact .through rfl rfl (Completion.ofResult_of_ne (ne_alreadyPlaying_of_conditionsHold h))

/-- Whatever the player answers, a run follows the line of its script. -/
theorem follows_execute (ss : List Statement) (vs : Variables) (p : σ) :
    Follows title? vs (straighten vs ss) (execute title? ss vs p) := by
  induction ss generalizing vs p with
  | nil => exact .through rfl rfl rfl
  | cons s rest ih => exact (follows_run s vs p).andThen fun q => ih _ q

end Statement
end AudioWalk
