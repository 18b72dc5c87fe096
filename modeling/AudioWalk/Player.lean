/-!
# Players

The host plays clips.  A story asks a player whether a clip is playing and hands
it requests; it hears nothing else about sound.  Any type of states with these
operations is a player.

The host plays while the story runs, so a player need not be in the state in which
the story left it when it is asked the next time.  `Player.elapse` says what has
become of it by then; every question comes behind one such step.

`Playback` is the player that a request makes busy until its clip is finished.
-/

namespace AudioWalk

class Player (σ : Type) where
  /-- The state in which the next question finds the player. -/
  elapse : σ → σ := fun p => p
  isPlaying : σ → Bool
  /-- The state after a request for a clip at some volume. -/
  request : σ → String → Float32 → σ

export Player (isPlaying)

/-- What a host with one channel is doing. -/
inductive Playback where
  | idle
  | playing (clip : String) (volume : Float32)
deriving Repr

namespace Playback

def busy : Playback → Bool
  | idle => false
  | playing _ _ => true

instance : Player Playback where
  isPlaying := busy
  request _ clip volume := playing clip volume

/-- The clip that is playing has come to its end. -/
def finish : Playback → Option String × Playback
  | playing clip _ => (some clip, idle)
  | idle => (none, idle)

end Playback

/-- A player that gives one answer whatever it is asked to play. -/
structure Constant where
  answer : Bool
deriving DecidableEq, Repr

instance : Player Constant where
  isPlaying c := c.answer
  request c _ _ := c

/-- A player that is never busy. -/
def silent : Constant := ⟨false⟩

/-- A player together with the requests it has received, the first one first. -/
structure Recorded (σ : Type) where
  player : σ
  requests : List (String × Float32)

instance {σ : Type} [Player σ] : Player (Recorded σ) where
  elapse r := { r with player := Player.elapse r.player }
  isPlaying r := isPlaying r.player
  request r clip volume := ⟨Player.request r.player clip volume, r.requests ++ [(clip, volume)]⟩

end AudioWalk
