import Mathlib.Data.List.DropRight
import AudioWalk.Proofs.Session.Gates
import AudioWalk.Proofs.Session.OneClip

/-!
# Clips that end on time

A run over a track in which the host ends each clip: at the step that comes a set
number of steps behind the one at which the clip was asked for.  `Story.replayed`
tells this run by looking back at what has been asked for so far, without a
countdown.

A countdown can be kept beside it.  `Chronicle.CountsDown` says what it is in front
of a reading, and `CountsDown.due_iff` that it is out where the clip is due; one
more step keeps it (`CountsDown.takeReading`), whatever comes of the reading.
-/

namespace AudioWalk

/-! ## Steps -/

section

variable {σ : Type}

namespace Moment

/-- A clip is asked for. -/
def asks (m : Moment σ) : Bool := !(Effect.requests m.turn.effects).isEmpty

def isReading (m : Moment σ) : Bool :=
  match m.event with
  | .call (.receive _) => true
  | _ => false

end Moment

/-- A step is a reading with what follows it, and step 0 is the start. -/
def stepNumber (ms : List (Moment σ)) : Nat := ms.countP Moment.isReading

/-- The step at which a clip was asked for last. -/
def askedAt? (ms : List (Moment σ)) : Option Nat :=
  match ms.rdropWhile fun m => !m.asks with
  | [] => none
  | upTo => some (stepNumber upTo)

/-- The clip that was asked for last ends at this step. -/
def Due (clipReadings : Nat) (ms : List (Moment σ)) : Prop :=
  (askedAt? ms).map (· + max clipReadings 1) = some (stepNumber ms)

instance (clipReadings : Nat) (ms : List (Moment σ)) : Decidable (Due clipReadings ms) :=
  inferInstanceAs (Decidable (_ = _))

variable {clipReadings : Nat} {ms : List (Moment σ)} {m : Moment σ}

theorem due_iff : Due clipReadings ms ↔
    ∃ asked, askedAt? ms = some asked ∧ asked + max clipReadings 1 = stepNumber ms :=
  Option.map_eq_some_iff

theorem stepNumber_concat :
    stepNumber (ms ++ [m]) = stepNumber ms + if m.isReading then 1 else 0 := by
  rw [stepNumber, List.countP_append, List.countP_singleton]
  rfl

theorem askedAt?_concat :
    askedAt? (ms ++ [m]) =
      if Effect.requests m.turn.effects = [] then askedAt? ms
      else some (stepNumber (ms ++ [m])) := by
  unfold askedAt?
  rw [List.rdropWhile_concat]
  by_cases hquiet : Effect.requests m.turn.effects = []
  · have hasks : m.asks = false := by rw [Moment.asks, hquiet]; rfl
    rw [if_pos hquiet, hasks]
    rfl
  · have hasks : m.asks = true := by simp [Moment.asks, hquiet]
    obtain ⟨x, xs, hms⟩ := List.exists_cons_of_ne_nil (List.concat_ne_nil m ms)
    rw [if_neg hquiet, hasks, hms]
    rfl

end

/-! ## What a run shows -/

/-- What stopped a turn part way. -/
def Turn.failure? {σ : Type} (t : Turn σ) : Option Failure :=
  match t.result with
  | .ok _ => none
  | .error cause => cause.source?

namespace Chronicle

variable {σ : Type}

def told (c : Chronicle σ) : List Effect := c.moments.flatMap fun m => m.turn.effects

/-- What stopped the last turn part way. -/
def failure? (c : Chronicle σ) : Option Failure :=
  c.moments.getLast?.bind fun m => m.turn.failure?

/-- The session has come to its end, or has been interrupted. -/
def Stopped (c : Chronicle σ) : Prop := c.session.status = .finished ∨ c.failure? ≠ none

variable [Player σ] (host : HostAction → σ → σ) (c : Chronicle σ) (e : Event)

theorem told_add : (c.add host e).told = c.told ++ (e.turn host c.session c.player).effects := by
  show (c.moments ++ [e.moment host c.session c.player]).flatMap _ = _
  rw [List.flatMap_append, List.flatMap_singleton]
  rfl

theorem failure?_add : (c.add host e).failure? = (e.turn host c.session c.player).failure? := by
  show (c.moments ++ [e.moment host c.session c.player]).getLast?.bind _ = _
  rw [List.getLast?_concat]
  rfl

end Chronicle

/-! ## A replay told without a countdown -/

namespace Chronicle

variable (clipReadings : Nat) (c : Chronicle Playback) (r : Reading)

def receive : Chronicle Playback := c.add Playback.host (.call (.receive r))

/-- The clip comes to its end, and the session hears of it. -/
def endClip : Chronicle Playback :=
  (c.add Playback.host (.host .finish)).add Playback.host (.call .clipFinished)

/-- One step. -/
def takeReading : Chronicle Playback :=
  if Due clipReadings (c.receive r).moments then (c.receive r).endClip else c.receive r

end Chronicle

/-- A run of a new session: a start, and a step for each reading. -/
def Story.replayed (story : Story) (warmUpReadings : UInt32) (clipReadings : Nat)
    (readings : List Reading) : Chronicle Playback :=
  readings.foldl (Chronicle.takeReading clipReadings)
    (chronicle Playback.host [.call .start] (Session.new story warmUpReadings) .idle)

/-- Only a clip that is playing is finished, the session hears of each once, and
of nothing else. -/
inductive Heralded : List (Moment Playback) → Prop
  | nil : Heralded []
  | other {ms : List (Moment Playback)} {m : Moment Playback} (h : Heralded ms)
    (hfinish : m.event ≠ .host .finish) (hnotice : ¬ m.IsNotice) : Heralded (ms ++ [m])
  | clip {ms : List (Moment Playback)} {finish notice : Moment Playback} {clip : String}
    {volume : Float32} (h : Heralded ms) (hfinish : finish.event = .host .finish)
    (hplaying : finish.player = .playing clip volume) (hnotice : notice.IsNotice) :
    Heralded (ms ++ [finish] ++ [notice])

/-! ## The countdown -/

/-- What the countdown is in front of a reading: it is set while a clip is playing,
and counts the readings from the one at which that clip was asked for. -/
structure Chronicle.CountsDown (clipReadings : Nat) (c : Chronicle Playback)
    (remaining? : Option Nat) : Prop where
  playing : isPlaying c.player = remaining?.isSome
  counting : ∀ left, remaining? = some left → ∃ asked since,
    askedAt? c.moments = some asked ∧ stepNumber c.moments = asked + since ∧
      since + left = clipReadings ∧ since < max clipReadings 1
  expired : remaining? = none → ∀ asked, askedAt? c.moments = some asked →
    asked + max clipReadings 1 ≤ stepNumber c.moments

namespace Chronicle

variable {clipReadings : Nat} {c : Chronicle Playback} {remaining? : Option Nat}

theorem stepNumber_receive (r : Reading) :
    stepNumber (c.receive r).moments = stepNumber c.moments + 1 := stepNumber_concat

theorem askedAt?_receive (r : Reading) :
    askedAt? (c.receive r).moments =
      if Effect.requests (c.session.receive r c.player).effects = [] then askedAt? c.moments
      else some (stepNumber c.moments + 1) := by
  rw [← stepNumber_receive r]
  exact askedAt?_concat

theorem stepNumber_endClip : stepNumber c.endClip.moments = stepNumber c.moments := by
  show stepNumber (c.moments ++ [_] ++ [_]) = _
  rw [stepNumber_concat, stepNumber_concat]
  rfl

theorem told_endClip : c.endClip.told = c.told ++ c.session.clipFinished.1 := by
  rw [endClip, told_add, told_add]
  exact congrArg (· ++ c.session.clipFinished.1) (List.append_nil c.told)

theorem askedAt?_endClip : askedAt? c.endClip.moments = askedAt? c.moments := by
  show askedAt? (c.moments ++ [_] ++ [_]) = _
  rw [askedAt?_concat, askedAt?_concat]
  exact (if_pos c.session.requests_clipFinished).trans (if_pos rfl)

end Chronicle

/-- While a clip is playing, a reading asks for nothing and does not fail. -/
theorem Session.receive_of_busy (s : Session) (r : Reading) {p : Playback}
    (hplaying : isPlaying p = true) :
    (s.receive r p).result = .ok (s.receive r p).effects ∧
      Effect.requests (s.receive r p).effects = [] ∧ (s.receive r p).player = p := by
  obtain ⟨announced, q, hreceive, hq, hannounced⟩ := s.receive_of_playing r (p := p) hplaying
  have hplayer : q = p := hq.elim id id
  rw [hreceive]
  refine ⟨rfl, ?_, hplayer⟩
  show Effect.requests announced = []
  rcases hannounced with h | ⟨told?, h⟩
  · rw [h]
    rfl
  · rw [h]
    rfl

namespace Chronicle.CountsDown

variable {clipReadings : Nat} {c : Chronicle Playback} {remaining? : Option Nat} {left : Nat}

/-- The countdown says when a clip is due. -/
theorem due_iff (hc : c.CountsDown clipReadings remaining?) (r : Reading) :
    Due clipReadings (c.receive r).moments ↔ ∃ left, remaining? = some left ∧ left ≤ 1 := by
  rw [AudioWalk.due_iff, stepNumber_receive, askedAt?_receive]
  cases remaining? with
  | none =>
    -- The last clip is over already, or has been asked for by this very reading.
    refine iff_of_false (fun ⟨asked, hasked, hdue⟩ => ?_) nofun
    split at hasked
    · have hexpired := hc.expired rfl asked hasked
      omega
    · have hnow := Option.some.inj hasked
      omega
  | some left =>
    obtain ⟨_, hquiet, _⟩ := c.session.receive_of_busy r hc.playing
    obtain ⟨asked, since, hasked, hstep, hleft, hsince⟩ := hc.counting left rfl
    rw [if_pos hquiet, hasked]
    constructor
    · intro ⟨asked', hasked', hdue⟩
      have heq := Option.some.inj hasked'
      exact ⟨left, rfl, by omega⟩
    · intro ⟨left', hleft', hle⟩
      have heq := Option.some.inj hleft'
      exact ⟨asked, rfl, by omega⟩

theorem receive_of_asked {r : Reading}
    (hasked : Effect.requests (c.session.receive r c.player).effects ≠ []) :
    (c.receive r).CountsDown clipReadings (some clipReadings) where
  playing := by
    have h := oneClip_law.receive c.session r c.player
    exact h.playing_of_requests_ne_nil hasked
  counting left hleft := by
    refine ⟨stepNumber c.moments + 1, 0, ?_, stepNumber_receive r, ?_, by omega⟩
    · rw [askedAt?_receive, if_neg hasked]
    · rw [← Option.some.inj hleft, Nat.zero_add]
  expired := nofun

theorem receive_of_idle (hc : c.CountsDown clipReadings none) {r : Reading}
    (hquiet : Effect.requests (c.session.receive r c.player).effects = []) :
    (c.receive r).CountsDown clipReadings none where
  playing := by
    have h := oneClip_law.receive c.session r c.player
    show isPlaying (c.session.receive r c.player).player = false
    rw [h.eq_of_requests_eq_nil hquiet]
    exact hc.playing
  counting := nofun
  expired _ asked hasked := by
    rw [askedAt?_receive, if_pos hquiet] at hasked
    have hexpired := hc.expired rfl asked hasked
    rw [stepNumber_receive]
    omega

theorem receive_of_playing (hc : c.CountsDown clipReadings (some left)) (hmore : 1 < left)
    (r : Reading) : (c.receive r).CountsDown clipReadings (some (left - 1)) := by
  obtain ⟨_, hquiet, hplayer⟩ := c.session.receive_of_busy r hc.playing
  obtain ⟨asked, since, hasked, hstep, hleft, hsince⟩ := hc.counting left rfl
  constructor
  · show isPlaying (c.session.receive r c.player).player = true
    rw [hplayer]
    exact hc.playing
  · intro next hnext
    have heq := Option.some.inj hnext
    refine ⟨asked, since + 1, ?_, ?_, by omega, by omega⟩
    · rw [askedAt?_receive, if_pos hquiet, hasked]
    · rw [stepNumber_receive, hstep, Nat.add_assoc]
  · exact nofun

theorem endClip (hc : c.CountsDown clipReadings (some left)) (hlast : left ≤ 1) (r : Reading) :
    (c.receive r).endClip.CountsDown clipReadings none := by
  obtain ⟨asked, since, hasked, hstep, hleft, hsince⟩ := hc.counting left rfl
  obtain ⟨_, hquiet, _⟩ := c.session.receive_of_busy r hc.playing
  constructor
  · show isPlaying (c.session.receive r c.player).player.finish.2 = false
    cases (c.session.receive r c.player).player with
    | idle => rfl
    | playing clip volume => rfl
  · exact nofun
  · intro _ asked' hasked'
    rw [askedAt?_endClip, askedAt?_receive, if_pos hquiet, hasked] at hasked'
    have heq := Option.some.inj hasked'
    rw [stepNumber_endClip, stepNumber_receive]
    omega

theorem takeReading (hc : c.CountsDown clipReadings remaining?) (r : Reading) :
    ∃ next?, (c.takeReading clipReadings r).CountsDown clipReadings next? := by
  rw [Chronicle.takeReading]
  split
  · next hdue =>
    obtain ⟨left, hleft, hlast⟩ := (hc.due_iff r).1 hdue
    rw [hleft] at hc
    exact ⟨none, hc.endClip hlast r⟩
  · next hdue =>
    by_cases hquiet : Effect.requests (c.session.receive r c.player).effects = []
    · cases remaining? with
      | none => exact ⟨none, hc.receive_of_idle hquiet⟩
      | some left =>
        have hmore : ¬ left ≤ 1 := fun hle => hdue ((hc.due_iff r).2 ⟨left, rfl, hle⟩)
        exact ⟨_, hc.receive_of_playing (Nat.lt_of_not_le hmore) r⟩
    · exact ⟨_, receive_of_asked hquiet⟩

theorem heralded (hc : c.CountsDown clipReadings remaining?) (hms : Heralded c.moments)
    (r : Reading) : Heralded (c.takeReading clipReadings r).moments := by
  have hreceived : Heralded (c.receive r).moments := hms.other nofun nofun
  rw [Chronicle.takeReading]
  split
  · next hdue =>
    obtain ⟨left, hleft, _⟩ := (hc.due_iff r).1 hdue
    have hplaying := hc.playing
    rw [hleft] at hplaying
    obtain ⟨_, _, hplayer⟩ := c.session.receive_of_busy r hplaying
    cases hp : c.player with
    | idle =>
      rw [hp] at hplaying
      cases hplaying
    | playing clip volume => exact hreceived.clip rfl (hplayer.trans hp) rfl
  · exact hreceived

end Chronicle.CountsDown

/-! ## The run -/

section

variable (story : Story) (warmUpReadings : UInt32) (clipReadings : Nat)

theorem replayed_concat (readings : List Reading) (r : Reading) :
    story.replayed warmUpReadings clipReadings (readings ++ [r]) =
      (story.replayed warmUpReadings clipReadings readings).takeReading clipReadings r :=
  List.foldl_append

theorem Chronicle.stepNumber_takeReading (c : Chronicle Playback) (r : Reading) :
    stepNumber (c.takeReading clipReadings r).moments = stepNumber c.moments + 1 := by
  rw [takeReading]
  split
  · rw [stepNumber_endClip, stepNumber_receive]
  · exact stepNumber_receive r

theorem stepNumber_replayed (readings : List Reading) :
    stepNumber (story.replayed warmUpReadings clipReadings readings).moments =
      readings.length := by
  induction readings using List.reverseRecOn with
  | nil => rfl
  | append_singleton readings r ih =>
    rw [replayed_concat, Chronicle.stepNumber_takeReading, ih, List.length_append]
    rfl

/-- What the loop sets its countdown to in front of the first reading. -/
theorem countsDown_start :
    let turn := (Session.new story warmUpReadings).start Playback.idle
    (story.replayed warmUpReadings clipReadings []).CountsDown clipReadings
      (if isPlaying turn.player then some clipReadings else none) := by
  intro turn
  have h : OneClip .idle turn.effects turn.player :=
    oneClip_law.start (Session.new story warmUpReadings) .idle
  have hasked : askedAt? (story.replayed warmUpReadings clipReadings []).moments =
      if Effect.requests turn.effects = [] then none else some 0 := by
    show askedAt? ([] ++ [_]) = _
    rw [askedAt?_concat]
    rfl
  cases hplaying : isPlaying turn.player with
  | true =>
    refine ⟨hplaying, fun left hleft => ⟨0, 0, ?_, rfl, ?_, by omega⟩, nofun⟩
    · rw [hasked, if_neg]
      intro hquiet
      rw [h.eq_of_requests_eq_nil hquiet] at hplaying
      cases hplaying
    · rw [← Option.some.inj hleft, Nat.zero_add]
  | false =>
    refine ⟨hplaying, nofun, fun _ asked hat => ?_⟩
    rw [hasked] at hat
    split at hat
    · cases hat
    · next hrequests =>
      rw [h.playing_of_requests_ne_nil hrequests] at hplaying
      cases hplaying

/-- The run is heralded, and has a countdown throughout. -/
theorem heralded_replayed (readings : List Reading) :
    let c := story.replayed warmUpReadings clipReadings readings
    Heralded c.moments ∧ ∃ remaining?, c.CountsDown clipReadings remaining? := by
  induction readings using List.reverseRecOn with
  | nil =>
    exact ⟨Heralded.nil.other nofun nofun, _, countsDown_start story warmUpReadings clipReadings⟩
  | append_singleton readings r ih =>
    obtain ⟨hms, remaining?, hc⟩ := ih
    rw [replayed_concat]
    exact ⟨hc.heralded hms r, hc.takeReading r⟩

end

end AudioWalk
