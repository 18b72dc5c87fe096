import AudioWalk.Session.Basic

/-!
# Replaying a track

A recorded track is run through a session, with a simulated player that finishes
each clip after a set number of further readings.  A clip that is requested at
one reading is finished behind the reading that many places later, and at the
next reading at the latest if the number is zero.
-/

namespace AudioWalk

/-- What a replay has to show, and the failure that ended it, if one did. -/
structure Transcript where
  effects : List Effect
  failure? : Option Failure
deriving Repr

namespace Transcript

def nothing : Transcript := ⟨[], none⟩

def failed (cause : Failure) : Transcript := ⟨[], some cause⟩

/-- Puts effects in front. -/
def behind (t : Transcript) (effects : List Effect) : Transcript :=
  { t with effects := effects ++ t.effects }

/-- A run that stopped part way shows what it had before, and fails for the
reason that stopped it. -/
def ofFailure : Failure → Transcript
  | .interrupted effects source => ⟨effects, some source⟩
  | cause => failed cause

end Transcript

/-- Replays readings.  `remaining?` counts the readings up to the end of the clip
that is playing. -/
def replayFrom (clipReadings : Nat) :
    List Reading → Session → Playback → Option Nat → Transcript
  | [], _, _, _ => .nothing
  | r :: rs, s, p, remaining? =>
    if s.status = .finished then .nothing
    else
      let turn := s.receive r p
      match turn.result with
      | .error cause => .ofFailure cause
      | .ok effects =>
        let next :=
          if !(Effect.requests effects).isEmpty then
            replayFrom clipReadings rs turn.session turn.player (some clipReadings)
          else
            match remaining? with
            | none => replayFrom clipReadings rs turn.session turn.player none
            | some left =>
              if left ≤ 1 then
                let (_, p) := turn.player.finish
                let (told, s) := turn.session.clipFinished
                (replayFrom clipReadings rs s p none).behind told
              else replayFrom clipReadings rs turn.session turn.player (some (left - 1))
        next.behind effects

/-- Replays a whole track from the start of the story. -/
def replay (story : Story) (warmUpReadings : UInt32) (clipReadings : Nat)
    (readings : List Reading) : Transcript :=
  let turn := (Session.new story warmUpReadings).start Playback.idle
  match turn.result with
  | .error cause => .failed cause
  | .ok effects =>
    let remaining? := if isPlaying turn.player then some clipReadings else none
    (replayFrom clipReadings readings turn.session turn.player remaining?).behind effects

end AudioWalk
