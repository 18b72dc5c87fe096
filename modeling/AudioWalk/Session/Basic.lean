import AudioWalk.Geofence.Matching
import AudioWalk.Session.WarmUp
import AudioWalk.Script.Run

/-!
# Sessions

One walk through one story.  A session handles one event at a time (a start, a
reading, the end of a clip, a stop), each to completion, and answers with the
effects it had.
-/

namespace AudioWalk

inductive Status where
  /-- Not started yet. -/
  | ready
  | running
  /-- The story has come to its end, but a clip is still playing. -/
  | ending
  | finished
deriving DecidableEq, Repr

structure Session where
  story : Story
  store : Variables
  tracker : Tracker
  /-- The numbers of the spots of which a circle has run, in ascending order. -/
  triggered : List Nat
  status : Status
deriving Repr

/-- The answer to an event, with the session and the player as they are left. -/
structure Turn (σ : Type) where
  result : Except Failure (List Effect)
  session : Session
  player : σ

/-- Puts a number into an ascending list, once. -/
def insertNumber (n : Nat) : List Nat → List Nat
  | [] => [n]
  | m :: ms => if n < m then n :: m :: ms else if n = m then m :: ms else m :: insertNumber n ms

@[simp]
theorem mem_insertNumber {n m : Nat} {ms : List Nat} :
    m ∈ insertNumber n ms ↔ m = n ∨ m ∈ ms := by
  induction ms with
  | nil => simp [insertNumber]
  | cons k ks ih =>
    unfold insertNumber
    split
    · simp
    · split
      · next heq => simp [heq]
      · simp only [List.mem_cons, ih]
        exact or_left_comm

/-- Effects reach the host whether the run came to its end, was cut short by a
clip, or failed. -/
def answer (effects : List Effect) : Completion → Except Failure (List Effect)
  | .completed => .ok effects
  | .alreadyPlaying => .ok effects
  | .failed cause => .error (.interrupted effects cause)

/-- What runs at the start of a story: its assignments, then its intro. -/
def Story.opening (s : Story) : List Statement :=
  s.init ++
    match s.introClip? with
    | some clip => [.play clip s.introText 1.0]
    | none => []

/-- The intro of a story that has a text, but no clip to go with it. -/
def Story.introDisplay (s : Story) : List Effect :=
  match s.introClip? with
  | some _ => []
  | none => display s.introText

namespace Session

/-- A session that is ready for its story. -/
def new (story : Story) (warmUpReadings : UInt32) : Session :=
  { story, store := .empty, tracker := .new warmUpReadings, triggered := [], status := .ready }

/-- Forgets everything but the story. -/
def reset (s : Session) : Session :=
  { s with store := .empty, tracker := s.tracker.reset, triggered := [] }

/-- The spot that is nearest to the last reading, of those not visited. -/
def nearestUntriggered (s : Session) : Effect :=
  .nearestUntriggered <| s.tracker.last?.bind fun r =>
    (nearest? s.story.spots r.coordinate fun index => s.triggered.contains index).map
      fun (_, spot) => spot.center

/-- The first usable reading is announced. -/
def announce (s : Session) : Fix → List Effect
  | .first => [.firstFixAcquired, s.nearestUntriggered]
  | _ => []

/-- Marks the spot of a circle that has run. -/
def visit (s : Session) (c : Circle) : Session :=
  match c.spot? with
  | some index => { s with triggered := insertNumber index s.triggered }
  | none => s

variable {σ : Type} [Player σ]

/-- Starts the story, or starts it again from the beginning. -/
def start (s : Session) (p : σ) : Turn σ :=
  let s := { s.reset with status := .running }
  let o := execute none s.story.opening s.store p
  { result := answer (o.effects ++ s.story.introDisplay) o.completion
    session := { s with store := o.store }
    player := o.player }

/-- Runs a circle.  An end mark that was reached ends the session, at once if no
clip is playing. -/
def run (s : Session) (c : Circle) (earlier : List Effect) (p : σ) : Turn σ :=
  let o := execute c.title? c.statements s.store p
  let s := ({ s with store := o.store } : Session).visit c
  let result := answer (earlier ++ o.effects) o.completion
  if o.reachedEnd then
    let p := Player.elapse o.player
    ⟨result, { s with status := if isPlaying p then .ending else .finished }, p⟩
  else ⟨result, s, o.player⟩

/-- Takes a reading.  While a clip is playing, positions are not matched. -/
def receive (s : Session) (r : Reading) (p : σ) : Turn σ :=
  if s.status = .running then
    let (fix, tracker) := s.tracker.record r
    let s := { s with tracker }
    if fix.isUsable then
      let announced := s.announce fix
      let p := Player.elapse p
      if isPlaying p then ⟨.ok announced, s, p⟩
      else
        match triggered? s.story.spots r.coordinate with
        | none => ⟨.ok announced, s, p⟩
        | some c => s.run c announced p
    else ⟨.ok [], s, p⟩
  else ⟨.ok [], s, p⟩

/-- Takes the news that the clip has come to its end. -/
def clipFinished (s : Session) : List Effect × Session :=
  match s.status with
  | .ending => ([], { s with status := .finished })
  | .running => ([s.nearestUntriggered], s)
  | .ready => ([], s)
  | .finished => ([], s)

/-- Gives the walk up.  The story can be started again. -/
def stop (s : Session) : Session := { s.reset with status := .finished }

end Session
end AudioWalk
