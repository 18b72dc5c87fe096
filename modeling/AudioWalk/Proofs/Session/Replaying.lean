import AudioWalk.CommandLine
import AudioWalk.Proofs.Session.Countdown
import AudioWalk.Proofs.Session.Safety
import AudioWalk.Proofs.Library.Loading

/-!
# Replays

A replay drives a session over a recorded track, and its loop decides by a
countdown when a clip has come to its end.  It goes through the run that is told
without one: a round of the loop is a step of the run (`CountsDown.round`), so in
front of every reading the loop stands where the run stands (`Comes`), up to the
reading at which both stop (`Comes.run`).
-/

namespace AudioWalk

/-! ## The loop -/

section

variable {clipReadings : Nat} {s : Session} {p : Playback} {r : Reading} {rs : List Reading}
  {remaining? : Option Nat} {effects : List Effect}

theorem replayFrom_of_finished (hs : s.status = .finished) :
    replayFrom clipReadings rs s p remaining? = .nothing := by
  cases rs with
  | nil => rfl
  | cons r rs => rw [replayFrom, if_pos hs]

theorem replayFrom_of_error (hs : s.status ≠ .finished) {cause : Failure}
    (h : (s.receive r p).result = .error cause) :
    replayFrom clipReadings (r :: rs) s p remaining? = .ofFailure cause := by
  rw [replayFrom, if_neg hs]
  simp only [h]

theorem replayFrom_of_asked (hs : s.status ≠ .finished)
    (h : (s.receive r p).result = .ok effects) (hasked : Effect.requests effects ≠ []) :
    replayFrom clipReadings (r :: rs) s p remaining? =
      (replayFrom clipReadings rs (s.receive r p).session (s.receive r p).player
        (some clipReadings)).behind effects := by
  rw [replayFrom, if_neg hs]
  simp [h, hasked]

theorem replayFrom_of_idle (hs : s.status ≠ .finished)
    (h : (s.receive r p).result = .ok effects) (hquiet : Effect.requests effects = []) :
    replayFrom clipReadings (r :: rs) s p none =
      (replayFrom clipReadings rs (s.receive r p).session (s.receive r p).player none).behind
        effects := by
  rw [replayFrom, if_neg hs]
  simp [h, hquiet]

variable {left : Nat}

theorem replayFrom_of_last (hs : s.status ≠ .finished)
    (h : (s.receive r p).result = .ok effects) (hquiet : Effect.requests effects = [])
    (hlast : left ≤ 1) :
    replayFrom clipReadings (r :: rs) s p (some left) =
      ((replayFrom clipReadings rs (s.receive r p).session.clipFinished.2
        (s.receive r p).player.finish.2 none).behind
          (s.receive r p).session.clipFinished.1).behind effects := by
  rw [replayFrom, if_neg hs]
  simp [h, hquiet, hlast]

theorem replayFrom_of_more (hs : s.status ≠ .finished)
    (h : (s.receive r p).result = .ok effects) (hquiet : Effect.requests effects = [])
    (hmore : 1 < left) :
    replayFrom clipReadings (r :: rs) s p (some left) =
      (replayFrom clipReadings rs (s.receive r p).session (s.receive r p).player
        (some (left - 1))).behind effects := by
  rw [replayFrom, if_neg hs]
  simp [h, hquiet, Nat.not_le.2 hmore]

theorem Transcript.behind_behind (t : Transcript) (earlier later : List Effect) :
    (t.behind later).behind earlier = t.behind (earlier ++ later) :=
  congrArg (Transcript.mk · t.failure?) (List.append_assoc earlier later t.effects).symm

namespace Chronicle.CountsDown

variable {c : Chronicle Playback}

/-- A round of the loop is a step of the run. -/
theorem round (hc : c.CountsDown clipReadings remaining?) (hs : c.session.status ≠ .finished)
    (hok : (c.session.receive r c.player).result = .ok (c.session.receive r c.player).effects) :
    let d := c.takeReading clipReadings r
    d.failure? = none ∧ ∃ told, d.told = c.told ++ told ∧
      ∃ next?, d.CountsDown clipReadings next? ∧
      ∀ rs, replayFrom clipReadings (r :: rs) c.session c.player remaining? =
        (replayFrom clipReadings rs d.session d.player next?).behind told := by
  intro d
  have htold : (c.receive r).told = c.told ++ (c.session.receive r c.player).effects :=
    c.told_add Playback.host _
  by_cases hdue : Due clipReadings (c.receive r).moments
  · -- The clip plays still, so the reading has asked for nothing and the count is out.
    have hd : d = (c.receive r).endClip := if_pos hdue
    obtain ⟨left, hleft, hlast⟩ := (hc.due_iff r).1 hdue
    rw [hleft] at hc ⊢
    obtain ⟨_, hquiet, _⟩ := c.session.receive_of_busy r hc.playing
    have hend : d.told = c.told ++ ((c.session.receive r c.player).effects ++
        (c.receive r).session.clipFinished.1) := by
      rw [hd, told_endClip, htold, List.append_assoc]
    rw [hd] at hend ⊢
    refine ⟨failure?_add Playback.host _ _, _, hend, none, hc.endClip hlast r, fun rs => ?_⟩
    exact (replayFrom_of_last hs hok hquiet hlast).trans (Transcript.behind_behind _ _ _)
  · have hd : d = c.receive r := if_neg hdue
    have hnone : (c.receive r).failure? = none := by
      refine (c.failure?_add Playback.host _).trans ?_
      show (c.session.receive r c.player).failure? = none
      rw [Turn.failure?, hok]
    rw [hd]
    refine ⟨hnone, _, htold, ?_⟩
    by_cases hquiet : Effect.requests (c.session.receive r c.player).effects = []
    · cases remaining? with
      | none =>
        exact ⟨none, hc.receive_of_idle hquiet, fun _ => replayFrom_of_idle hs hok hquiet⟩
      | some left =>
        have hmore : 1 < left :=
          Nat.lt_of_not_le fun hle => hdue ((hc.due_iff r).2 ⟨left, rfl, hle⟩)
        exact ⟨some (left - 1), hc.receive_of_playing hmore r,
          fun _ => replayFrom_of_more hs hok hquiet hmore⟩
    · exact ⟨some clipReadings, receive_of_asked hquiet,
        fun _ => replayFrom_of_asked hs hok hquiet⟩

/-- No clip is due where a reading is interrupted. -/
theorem takeReading_of_error (hc : c.CountsDown clipReadings remaining?) {cause : Failure}
    (herror : (c.session.receive r c.player).result = .error cause) :
    c.takeReading clipReadings r = c.receive r := by
  refine if_neg fun hdue => ?_
  obtain ⟨left, hleft, _⟩ := (hc.due_iff r).1 hdue
  rw [hleft] at hc
  obtain ⟨hok, _⟩ := c.session.receive_of_busy r hc.playing
  rw [herror] at hok
  cases hok

end Chronicle.CountsDown

/-- The loop of a replay has come to its head with a run behind it.  What is shown
depends on the readings that are still to come. -/
def Comes (clipReadings : Nat) (shows : List Reading → Transcript) (c : Chronicle Playback) :
    Prop :=
  ∃ remaining?, c.CountsDown clipReadings remaining? ∧
    ∀ rs, shows rs = (replayFrom clipReadings rs c.session c.player remaining?).behind c.told

namespace Comes

variable {shows : List Reading → Transcript} {c : Chronicle Playback}

theorem shows_of_finished (h : Comes clipReadings shows c) (hc : c.failure? = none)
    (hs : c.session.status = .finished) : shows rs = ⟨c.told, c.failure?⟩ := by
  obtain ⟨remaining?, _, hshows⟩ := h
  rw [hshows, replayFrom_of_finished hs, hc]
  exact congrArg (Transcript.mk · none) (List.append_nil c.told)

theorem shows_nil (h : Comes clipReadings shows c) (hc : c.failure? = none) :
    shows [] = ⟨c.told, c.failure?⟩ := by
  obtain ⟨remaining?, _, hshows⟩ := h
  rw [hshows, replayFrom, hc]
  exact congrArg (Transcript.mk · none) (List.append_nil c.told)

/-- A reading takes the loop to its head again, or interrupts it. -/
theorem takeReading (h : Comes clipReadings shows c) (hs : c.session.status ≠ .finished)
    (r : Reading) :
    let d := c.takeReading clipReadings r
    d.failure? = none ∧ Comes clipReadings (fun rs => shows (r :: rs)) d ∨
      d.failure? ≠ none ∧ ∀ rs, shows (r :: rs) = ⟨d.told, d.failure?⟩ := by
  intro d
  obtain ⟨remaining?, hc, hshows⟩ := h
  rcases c.session.receive_answered r c.player with hok | ⟨source, herror⟩
  · obtain ⟨hnone, told, htold, next?, hnext, hround⟩ := hc.round hs hok
    refine Or.inl ⟨hnone, next?, hnext, fun rs => (hshows (r :: rs)).trans ?_⟩
    rw [hround, Transcript.behind_behind, htold]
  · have hd : d = c.receive r := hc.takeReading_of_error herror
    have htold : d.told = c.told ++ (c.session.receive r c.player).effects := by
      rw [hd]
      exact c.told_add Playback.host _
    have hsome : d.failure? = some source := by
      rw [hd]
      refine (c.failure?_add Playback.host _).trans ?_
      show (c.session.receive r c.player).failure? = some source
      rw [Turn.failure?, herror]
      rfl
    rw [hsome]
    refine Or.inr ⟨Option.some_ne_none source, fun rs => ?_⟩
    rw [hshows, replayFrom_of_error hs herror, htold]
    rfl

/-- The loop follows the run up to the end of the readings, or to where it stops. -/
theorem run (h : Comes clipReadings shows c) (hc : c.failure? = none) (readings : List Reading) :
    let d (i : Nat) := (readings.take i).foldl (Chronicle.takeReading clipReadings) c
    ∃ taken ≤ readings.length,
      (∀ i < taken, ¬ (d i).Stopped) ∧ (taken = readings.length ∨ (d taken).Stopped) ∧
      shows readings = ⟨(d taken).told, (d taken).failure?⟩ ∧
      ∀ i ≤ taken, (d i).failure? = none →
        Comes clipReadings (fun rs => shows (readings.take i ++ rs)) (d i) := by
  -- The loop is read from its head on, so a reading that has been taken moves into
  -- the run and into what is shown, and both vary in the induction.
  induction readings generalizing shows c with
  | nil =>
    refine ⟨0, Nat.le_refl 0, fun i hi => absurd hi i.not_lt_zero, Or.inl rfl, h.shows_nil hc, ?_⟩
    intro i hi _
    rw [Nat.le_zero.1 hi]
    exact h
  | cons r rs ih =>
    intro d
    by_cases hs : c.session.status = .finished
    · refine ⟨0, Nat.zero_le _, fun i hi => absurd hi i.not_lt_zero, Or.inr (Or.inl hs),
        h.shows_of_finished hc hs, fun i hi _ => ?_⟩
      rw [Nat.le_zero.1 hi]
      exact h
    · have hgoing : ¬ c.Stopped := fun hstop => hstop.elim hs fun hfailed => hfailed hc
      rcases h.takeReading hs r with ⟨hnone, hnext⟩ | ⟨hfailed, hshows⟩
      · obtain ⟨taken, hle, hbefore, hend, hshown, hheads⟩ := ih hnext hnone
        refine ⟨taken + 1, Nat.succ_le_succ hle, fun i hi => ?_, ?_, hshown, fun i hi hok => ?_⟩
        · cases i with
          | zero => exact hgoing
          | succ i => exact hbefore i (Nat.lt_of_succ_lt_succ hi)
        · exact hend.imp_left (congrArg (· + 1))
        · cases i with
          | zero => exact h
          | succ i => exact hheads i (Nat.le_of_succ_le_succ hi) hok
      · refine ⟨1, Nat.succ_le_succ (Nat.zero_le _), fun i hi => ?_, Or.inr (Or.inr hfailed),
          hshows rs, fun i hi hok => ?_⟩
        · rw [Nat.lt_one_iff.1 hi]
          exact hgoing
        · cases i with
          | zero => exact h
          | succ i =>
            rw [Nat.le_zero.1 (Nat.le_of_succ_le_succ hi)] at hok
            exact absurd hok hfailed

end Comes

/-! ## The command -/

/-- The loop begins behind a start that has succeeded. -/
theorem comes_replay {story : Story} (hstory : story.Sound) (warmUpReadings : UInt32)
    (clipReadings : Nat) :
    let c := story.replayed warmUpReadings clipReadings []
    c.failure? = none ∧ Comes clipReadings (replay story warmUpReadings clipReadings) c := by
  intro c
  have hsound : (Session.new story warmUpReadings).story.Sound := hstory
  obtain ⟨effects, hok, _⟩ := hsound.start Playback.idle
  have htold : c.told = effects := by
    refine (List.append_nil _).trans ?_
    show ((Session.new story warmUpReadings).start Playback.idle).effects = effects
    rw [Turn.effects, hok]
    rfl
  have hnone : c.failure? = none := by
    show ((Session.new story warmUpReadings).start Playback.idle).failure? = none
    rw [Turn.failure?, hok]
  refine ⟨hnone, _, countsDown_start story warmUpReadings clipReadings, fun rs => ?_⟩
  rw [replay, htold]
  simp only [hok]
  rfl

end

/-- What a replay shows is what the run tells, up to the first reading in front of
which the session has finished, or behind which it is interrupted, and the command
prints it line by line.  In front of every reading the loop stands where the run
stands: the countdown is set while a clip is playing, and there are as many
readings left in it as are missing since the clip was asked for. -/
theorem replay_drives_session {at? : String → Option Node} {root title : String}
    {settings : Settings} {library : Library} {story : Story}
    (hlibrary : Library.load at? root settings.library = .ok library)
    (hfind : library.find title = .ok story) (clipReadings : UInt32) (readings : List Reading) :
    let shows := replay story settings.session.warmUpReadings clipReadings.toNat
    let run (i : Nat) := story.replayed settings.session.warmUpReadings clipReadings.toNat
      (readings.take i)
    ∃ taken ≤ readings.length,
      (∀ i < taken, ¬ (run i).Stopped) ∧ (taken = readings.length ∨ (run taken).Stopped) ∧
      shows readings = ⟨(run taken).told, (run taken).failure?⟩ ∧
      (∀ track, CommandLine.loadTrack (at? track) = .ok readings →
        CommandLine.Command.run at? settings (.replay root title track clipReadings) =
          ⟨(run taken).told.map fun e => e.toJson.compact, (run taken).failure?⟩) ∧
      (∀ i ≤ taken, stepNumber (run i).moments = i ∧ Heralded (run i).moments) ∧
      ∀ i ≤ taken, (run i).failure? = none → ∃ remaining?,
        (run i).CountsDown clipReadings.toNat remaining? ∧
        ∀ rs, shows (readings.take i ++ rs) =
          (replayFrom clipReadings.toNat rs (run i).session (run i).player remaining?).behind
            (run i).told := by
  intro shows run
  obtain ⟨hnone, hcomes⟩ := comes_replay (Library.sound_of_find hlibrary hfind)
    settings.session.warmUpReadings clipReadings.toNat
  obtain ⟨taken, hle, hbefore, hend, hfollowed, hheads⟩ := hcomes.run hnone readings
  have hshown : shows readings = ⟨(run taken).told, (run taken).failure?⟩ := hfollowed
  refine ⟨taken, hle, hbefore, hend, hshown, fun track htrack => ?_, fun i hi => ⟨?_, ?_⟩, hheads⟩
  · have hprepared : CommandLine.Command.run at? settings (.replay root title track clipReadings) =
        ⟨(shows readings).effects.map fun e => e.toJson.compact, (shows readings).failure?⟩ := by
      rw [CommandLine.Command.run, hlibrary]
      simp only [bind, Except.bind, hfind, htrack]
      rfl
    rw [hprepared, hshown]
  · rw [stepNumber_replayed, List.length_take, Nat.min_eq_left (Nat.le_trans hi hle)]
  · exact (heralded_replayed story _ _ _).1

/-- A story of one spot, replayed over a track of one reading, at which the intro
ends. -/
theorem replay_drives_bare_story :
    let source := "<story title='Bare' introfile='a'>" ++
      "<spot latitude='0' longitude='0'><circle radius='5'/></spot></story>"
    let story := Story.of "Bare" "walk" (some "a") "" []
      [Spot.of ⟨0, 0⟩ [⟨5, none, [], none⟩]]
    let library : Library := ⟨"lib/stories", [story]⟩
    let r : Reading := ⟨0, 0, 0⟩
    let track := "[\x7b\"latitude\":0,\"longitude\":0\x7d]"
    let files : List (String × Node) := [("a.xml", .file source.toUTF8)]
    let at? (path : String) : Option Node :=
      if path = "lib/stories" then some (.folder [("walk", .folder files)])
      else if path = "track" then some (.file track.toUTF8) else none
    let settings : Settings := {}
    let run := story.replayed 5 0 [r]
    Library.load at? "lib" settings.library = .ok library ∧ library.find "Bare" = .ok story ∧
      run.moments.map Moment.event =
        [.call .start, .call (.receive r), .host .finish, .call .clipFinished] ∧
      CommandLine.Command.run at? settings (.replay "lib" "Bare" "track" 0) =
        ⟨run.told.map fun e => e.toJson.compact, none⟩ := by
  intro source story library r track files at? settings run
  have hread : Story.read source "walk" = .ok story := Story.read_bare
  have hfolder : StoryFolder.story ⟨"walk", files⟩ "xml" = .ok story := by
    have hfiles : (⟨"walk", files⟩ : StoryFolder).markupFiles "xml" = files :=
      List.mergeSort_singleton _
    rw [StoryFolder.story, hfiles]
    exact bind_eq_ok.2 ⟨source, readText_toUTF8 source, hread⟩
  have hstrict : Library.collect "xml" Library.abort
      (StoryFolder.among [("walk", .folder files)]) = .ok [story] := by
    have hfolders : StoryFolder.among [("walk", .folder files)] = [⟨"walk", files⟩] :=
      List.mergeSort_singleton _
    rw [hfolders, Library.collect, hfolder]
    rfl
  have hload : Library.load at? "lib" settings.library = .ok library := by
    have hpath : Path.join "lib" "stories" = "lib/stories" := rfl
    simp only [Library.load, Library.loadWith, settings, hpath]
    exact bind_eq_ok.2 ⟨[story], hstrict, rfl⟩
  have hfind : library.find "Bare" = .ok story := rfl
  have htrack : CommandLine.loadTrack (at? "track") = .ok [r] := by
    have hreadings : readTrack? "[\x7b\"latitude\":0,\"longitude\":0\x7d]" = some [⟨0, 0, 0⟩] := by
      rfl
    refine bind_eq_ok.2 ⟨track, readText_toUTF8 track, ?_⟩
    simp only [track, hreadings]
    rfl
  refine ⟨hload, hfind, rfl, ?_⟩
  obtain ⟨taken, hle, _, hend, _, hprinted, _⟩ := replay_drives_session hload hfind 0 [r]
  cases taken with
  | zero =>
    rcases hend with hnone | hfinished | hfailed
    · cases hnone
    · cases hfinished
    · exact absurd rfl hfailed
  | succ n =>
    rw [Nat.le_zero.1 (Nat.le_of_succ_le_succ hle)] at hprinted
    exact hprinted "track" htrack

end AudioWalk
