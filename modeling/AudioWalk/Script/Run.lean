import AudioWalk.Failure
import AudioWalk.Player
import AudioWalk.Text.Whole
import AudioWalk.Script.Variables

/-!
# Running statements

The statements of a circle run from left to right.  Two things stop them: a clip
that is to be played while another is playing, and a condition with an operand
that is neither a variable nor an integer.  Either stops the branch it is in and
the circle around it, and what has happened before stays.

Branches do not nest.  A branch inside a branch is passed over, its conditions
untested.

A run carries along whether something stopped it.  What that was is sorted where the
run is over (`Completion.ofResult`): a busy player is no failure.
-/

namespace AudioWalk

/-! ## Conditions -/

/-- The value of a variable.  The read of one that was never set fails, so it has to be
guarded. -/
def Variables.value (vs : Variables) (name : String) : Except Failure Int64 :=
  match vs.get? name with
  | some v => .ok v
  | none => .error (.undefinedVariable name)

theorem Variables.value_of_contains {vs : Variables} {name : String}
    (h : vs.contains name = true) : vs.value name = .ok ((vs.get? name).getD 0) := by
  obtain ⟨v, hv⟩ := Option.isSome_iff_exists.1 h
  rw [value, hv, Option.getD_some]

/-- The value of an operand.  A variable of that name comes first. -/
def operand (vs : Variables) (token : String) : Except Failure Int64 :=
  if vs.contains token then vs.value token
  else
    match Text.int64? token.toList with
    | some i => .ok i
    | none => .error (.malformedLiteral token)

def Condition.holds (vs : Variables) (c : Condition) : Except Failure Bool := do
  let left ← operand vs c.left
  let right ← operand vs c.right
  return left = right

/-- Conditions are tested in order, up to the first that does not hold. -/
def conditionsHold (vs : Variables) : List Condition → Except Failure Bool
  | [] => .ok true
  | c :: cs => do
    if ← c.holds vs then conditionsHold vs cs else return false

/-! ## Statements -/

/-- What a run has done, whether something stopped it, and what it left behind. -/
structure Run (σ : Type) where
  effects : List Effect
  result : Except Failure Unit
  store : Variables
  player : σ

namespace Run

variable {σ : Type}

/-- Nothing to do. -/
def nothing (vs : Variables) (p : σ) : Run σ := ⟨[], .ok (), vs, p⟩

def stopped (cause : Failure) (vs : Variables) (p : σ) : Run σ := ⟨[], .error cause, vs, p⟩

/-- Goes on with another run, unless this one was stopped. -/
def andThen (r : Run σ) (next : Variables → σ → Run σ) : Run σ :=
  match r.result with
  | .ok _ =>
    let r' := next r.store r.player
    { r' with effects := r.effects ++ r'.effects }
  | .error _ => r

@[simp]
theorem nothing_andThen (vs : Variables) (p : σ) (next : Variables → σ → Run σ) :
    (nothing vs p).andThen next = next vs p := by
  simp [nothing, andThen]

@[simp]
theorem andThen_nothing (r : Run σ) : r.andThen nothing = r := by
  obtain ⟨effects, result, vs, p⟩ := r
  cases result <;> simp [andThen, nothing]

theorem andThen_assoc (r : Run σ) (f g : Variables → σ → Run σ) :
    (r.andThen f).andThen g = r.andThen fun vs p => (f vs p).andThen g := by
  obtain ⟨effects, result, vs, p⟩ := r
  cases result with
  | ok _ =>
    simp only [andThen]
    generalize f vs p = second
    obtain ⟨effects', result', vs', p'⟩ := second
    cases result' <;> simp
  | error cause => simp [andThen]

end Run

/-- A text to show, if there is anything in it. -/
def display (text : String) : List Effect := if text = "" then [] else [.displayText text]

namespace Statement

/-- The value that an increment goes on from.  A variable that is not defined counts
as zero. -/
def current (vs : Variables) (name : String) : Except Failure Int64 :=
  if vs.contains name then vs.value name else .ok 0

variable {σ : Type} [Player σ]

/-- The title and the transcript come before the clip. -/
def runPlay (title? : Option String) (clip text : String) (volume : Float32) (vs : Variables)
    (p : σ) : Run σ :=
  let p := Player.elapse p
  if isPlaying p then .stopped .alreadyPlaying vs p
  else
    ⟨display (title?.getD "") ++ display text ++ [.playRequest clip volume], .ok (), vs,
      Player.request p clip volume⟩

/-- A statement inside a branch. -/
def runInBranch (title? : Option String) : Statement → Variables → σ → Run σ
  | assign name value, vs, p => .nothing (vs.set name value) p
  | increment name delta, vs, p =>
    match current vs name with
    | .ok value => .nothing (vs.set name (value + delta)) p
    | .error cause => .stopped cause vs p
  | play clip text volume, vs, p => runPlay title? clip text volume vs p
  | branch _ _ _, vs, p => .nothing vs p
  | ending, vs, p => ⟨[.endOfStory], .ok (), vs, p⟩

/-- Runs statements one after the other, each by `step`. -/
def runAll (step : Statement → Variables → σ → Run σ) : List Statement → Variables → σ → Run σ
  | [], vs, p => .nothing vs p
  | s :: rest, vs, p => (step s vs p).andThen (runAll step rest)

/-- A statement of a circle. -/
def run (title? : Option String) : Statement → Variables → σ → Run σ
  | branch conditions whenTrue whenFalse, vs, p =>
    match conditionsHold vs conditions with
    | .ok true => runAll (runInBranch title?) whenTrue vs p
    | .ok false => runAll (runInBranch title?) whenFalse vs p
    | .error cause => .stopped cause vs p
  | s, vs, p => runInBranch title? s vs p

/-- A run of two scripts is a run of the first and then, unless it was stopped,
of the second. -/
theorem runAll_append {σ : Type} (step : Statement → Variables → σ → Run σ)
    (xs ys : List Statement) (vs : Variables) (p : σ) :
    runAll step (xs ++ ys) vs p = (runAll step xs vs p).andThen (runAll step ys) := by
  induction xs generalizing vs p with
  | nil => simp [runAll]
  | cons s rest ih =>
    simp only [List.cons_append, runAll, Run.andThen_assoc]
    congr 1
    funext vs p
    exact ih vs p

end Statement

/-! ## Outcomes -/

/-- How a run came to its end, as the host is told. -/
inductive Completion where
  | completed
  | alreadyPlaying
  | failed (cause : Failure)
deriving Repr

/-- A busy player stops a run, but the run has not failed. -/
def Completion.ofResult : Except Failure Unit → Completion
  | .ok _ => .completed
  | .error .alreadyPlaying => .alreadyPlaying
  | .error cause => .failed cause

namespace Completion

variable {result : Except Failure Unit} {cause : Failure}

theorem ofResult_eq_completed : ofResult result = .completed ↔ result = .ok () := by
  cases result with
  | ok _ => exact iff_of_true rfl rfl
  | error cause => cases cause <;> exact iff_of_false nofun nofun

theorem ofResult_eq_alreadyPlaying :
    ofResult result = .alreadyPlaying ↔ result = .error .alreadyPlaying := by
  cases result with
  | ok _ => exact iff_of_false nofun nofun
  | error cause => cases cause <;> simp [ofResult]

theorem ofResult_of_ne (h : cause ≠ .alreadyPlaying) : ofResult (.error cause) = .failed cause := by
  cases cause <;> first | rfl | exact absurd rfl h

theorem ofResult_eq_failed :
    ofResult result = .failed cause ↔ result = .error cause ∧ cause ≠ .alreadyPlaying := by
  constructor
  · intro h
    cases result with
    | ok _ => cases h
    | error other =>
      by_cases hbusy : other = .alreadyPlaying
      · rw [hbusy] at h
        cases h
      · rw [ofResult_of_ne hbusy] at h
        cases h
        exact ⟨rfl, hbusy⟩
  · rintro ⟨rfl, hbusy⟩
    exact ofResult_of_ne hbusy

end Completion

/-- What the host is told of a run, and what the run left behind. -/
structure Outcome (σ : Type) where
  effects : List Effect
  completion : Completion
  store : Variables
  player : σ

namespace Outcome

variable {σ : Type}

def reachedEnd (o : Outcome σ) : Bool := o.effects.any Effect.isEndOfStory

def wasAborted (o : Outcome σ) : Bool :=
  match o.completion with
  | .alreadyPlaying => true
  | _ => false

def failure? (o : Outcome σ) : Option Failure :=
  match o.completion with
  | .failed cause => some cause
  | _ => none

end Outcome

def Run.outcome {σ : Type} (r : Run σ) : Outcome σ :=
  ⟨r.effects, .ofResult r.result, r.store, r.player⟩

/-- Runs the statements of a circle.  Its title, if it has one, is shown before
every clip. -/
def execute {σ : Type} [Player σ] (title? : Option String) (statements : List Statement)
    (vs : Variables) (p : σ) : Outcome σ :=
  (Statement.runAll (Statement.run title?) statements vs p).outcome

end AudioWalk
