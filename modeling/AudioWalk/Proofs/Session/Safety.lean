import AudioWalk.Proofs.Session.Visits

/-!
# Stories from markup run safely

The interpreter and the session leave some things to the reader of stories: they
would pass over a branch in a branch, ask for any volume, and have a start fail
with a condition.  In a run of a story that was read out of markup none of this
comes about, whatever the player does.

`Moment.Runs` are the scripts that run at a moment.  All requests come from them
(`exists_runs_of_request`), and those of a sound story consist of sound statements
(`Moment.Runs.sound`); the rest is said of single moments and holds of all of them
by `forall_moments`.
-/

namespace AudioWalk

/-! ## The start of a story -/

section

variable {story : Story}

theorem Story.Sound.opening (h : story.Sound) {s : Statement} (hs : s ∈ story.opening) :
    s.Plain ∧ s ≠ .ending := by
  rw [Story.opening, List.mem_append] at hs
  rcases hs with hs | hs
  · obtain ⟨name, value, hassign⟩ := h.init s hs
    rw [hassign]
    exact ⟨trivial, nofun⟩
  · split at hs
    · rw [List.mem_singleton.1 hs]
      exact ⟨⟨by decide, by decide⟩, nofun⟩
    · cases hs

theorem Story.Sound.endOfStory_not_mem {σ : Type} [Player σ] (h : story.Sound) (vs : Variables)
    (p : σ) : .endOfStory ∉ (execute none story.opening vs p).effects := by
  intro hend
  obtain ⟨s, hs, x, hx, htells⟩ := Statement.mem_effects_execute hend
  obtain ⟨hplain, hne⟩ := h.opening hs
  rw [hplain.parts_eq, List.mem_singleton] at hx
  cases htells
  exact hne hx.symm

/-- The start of a sound story is answered with its effects, and the end is not
among them. -/
theorem Story.Sound.start {σ : Type} [Player σ] {s : Session} (h : s.story.Sound) (p : σ) :
    ∃ effects, (s.start p).result = .ok effects ∧ .endOfStory ∉ effects := by
  have hfails : ∀ cause, (execute none s.story.opening .empty p).completion ≠ .failed cause :=
    Statement.execute_not_failed fun s hs => (h.opening hs).1.isBranch
  refine ⟨_, (s.result_start p).trans (answer_of_not_failed hfails), fun hend => ?_⟩
  rcases List.mem_append.1 hend with hend | hend
  · exact h.endOfStory_not_mem .empty p hend
  · rw [Story.introDisplay] at hend
    split at hend
    · cases hend
    · cases Statement.eq_displayText_of_mem_display hend

end

/-! ## Scripts that run -/

section

variable {σ : Type} [Player σ]

/-- The scripts that run at a moment, each with its title and with the store and
the player that it begins with. -/
inductive Moment.Runs (m : Moment σ) : Option String → List Statement → Variables → σ → Prop
  | opening (hstart : m.IsStart) : Runs m none m.session.story.opening .empty m.player
  | circle (c : Circle) (henters : m.Enters c) :
    Runs m c.title? c.statements m.session.store (Player.elapse m.player)

theorem Moment.Runs.sound {m : Moment σ} {title? : Option String} {ss : List Statement}
    {vs : Variables} {q : σ} (h : m.Runs title? ss vs q) (hstory : m.session.story.Sound) :
    ∀ s ∈ ss, s.Sound := by
  cases h with
  | opening hstart => exact fun s hs => (hstory.opening hs).1.sound
  | circle c henters =>
    obtain ⟨i, spot, hspot, hc⟩ := henters.exists_spot
    exact hstory.statements spot (List.mem_of_getElem? hspot) c hc

theorem Effect.mem_requests {effects : List Effect} {clip : String} {volume : Float32} :
    (clip, volume) ∈ Effect.requests effects ↔ .playRequest clip volume ∈ effects := by
  rw [Effect.requests, List.mem_filterMap]
  constructor
  · intro ⟨e, he, hrequest⟩
    cases e with
    | playRequest clip' volume' =>
      cases hrequest
      exact he
    | displayText text => cases hrequest
    | endOfStory => cases hrequest
    | firstFixAcquired => cases hrequest
    | nearestUntriggered spot? => cases hrequest
  · intro h
    exact ⟨_, h, rfl⟩

/-- Every request is made by a script that runs. -/
theorem Event.exists_runs_of_request {host : HostAction → σ → σ} {s : Session} {p : σ} {e : Event}
    {clip : String} {volume : Float32}
    (h : .playRequest clip volume ∈ (e.turn host s p).effects) :
    ∃ title? ss vs q, (e.moment host s p).Runs title? ss vs q ∧
      .playRequest clip volume ∈ (execute title? ss vs q).effects := by
  have hrequest := Effect.mem_requests.2 h
  cases e with
  | host a => cases hrequest
  | call c =>
    cases c with
    | start =>
      have hstart : (clip, volume) ∈ Effect.requests (s.start p).effects := hrequest
      rw [Session.effects_start, Effect.requests_append, Story.requests_introDisplay,
        List.append_nil] at hstart
      exact ⟨_, _, _, _, .opening rfl, Effect.mem_requests.1 hstart⟩
    | stop => cases hrequest
    | clipFinished =>
      have hfinished : (clip, volume) ∈ Effect.requests s.clipFinished.1 := hrequest
      rw [Session.requests_clipFinished] at hfinished
      cases hfinished
    | receive r =>
      have hreceive : (clip, volume) ∈ Effect.requests (s.receive r p).effects := hrequest
      cases hc : s.entered? r p with
      | none =>
        rw [(Session.receive_of_not_entered hc).2] at hreceive
        split at hreceive
        · rw [Session.requests_announcement] at hreceive
          cases hreceive
        · cases hreceive
      | some c =>
        rw [Session.receive_of_entered hc, Session.effects_run, Effect.requests_append,
          Session.requests_announcement, List.nil_append] at hreceive
        exact ⟨_, _, _, _, .circle c ⟨r, rfl, hc⟩, Effect.mem_requests.1 hreceive⟩

/-! ## Safe runs -/

/-- What the markup of a story guarantees of a moment in a session on it. -/
structure Moment.Safe (story : Story) (m : Moment σ) : Prop where
  start : m.IsStart → ∃ effects, m.turn.result = .ok effects ∧ .endOfStory ∉ effects
  unnested : ∀ title? ss vs q, m.Runs title? ss vs q → ¬ Statement.ReachesNested title? ss vs q
  volume : ∀ clip volume, .playRequest clip volume ∈ m.turn.effects → 0.0 ≤ volume ∧ volume ≤ 1.0
  /-- A circle that runs belongs to the spot whose number is kept. -/
  entered : ∀ c, m.Enters c → ∃ (i : Nat) (spot : Spot), story.spots[i]? = some spot ∧
    c ∈ spot.circles ∧ c.spot? = some i ∧ i ∈ m.turn.session.triggered

/-- The same of a whole run, and of what it has kept in the end. -/
structure Chronicle.Safe (story : Story) (c : Chronicle σ) : Prop where
  moments : ∀ m ∈ c.moments, m.Safe story
  triggered : ∀ i ∈ c.session.triggered, ∃ spot, story.spots[i]? = some spot ∧
    spot.circles ≠ [] ∧ ∃ circle ∈ spot.circles, ∃ m ∈ c.moments, m.Enters circle

theorem Event.safe (host : HostAction → σ → σ) {s : Session} (hstory : s.story.Sound) (p : σ)
    (e : Event) : (e.moment host s p).Safe s.story where
  start hstart := by
    have he : e = .call .start := hstart
    rw [he]
    exact hstory.start p
  unnested title? ss vs q hruns :=
    Statement.not_reachesNested fun s hs x hx => (hruns.sound hstory s hs x hx).isBranch
  volume clip volume hrequest := by
    obtain ⟨title?, ss, vs, q, hruns, hmem⟩ := Event.exists_runs_of_request hrequest
    obtain ⟨s, hs, x, hx, htells⟩ := Statement.mem_effects_execute hmem
    have hplain := hruns.sound hstory s hs x hx
    cases htells
    exact hplain
  entered c henters := by
    obtain ⟨i, spot, hspot, hc⟩ := henters.exists_spot
    have hreset : ¬ (e.moment host s p).IsReset := by
      obtain ⟨r, hr, _⟩ := henters
      rintro (h | h)
      · cases hr.symm.trans h
      · cases hr.symm.trans h
    refine ⟨i, spot, hspot, hc, hstory.linked i spot hspot c hc, ?_⟩
    exact ((e.marks host s p).mem_triggered hstory.linked).2
      ⟨hreset, Or.inr ⟨spot, c, hspot, hc, henters⟩⟩

variable {host : HostAction → σ → σ} {story : Story}

/-- What holds of every event of a session on a story holds of all moments. -/
theorem forall_moments {P : Moment σ → Prop}
    (h : ∀ s p (e : Event), s.story = story → P (e.moment host s p)) (warmUpReadings : UInt32)
    (p : σ) (events : List Event) :
    ∀ m ∈ (chronicle host events (Session.new story warmUpReadings) p).moments, P m := by
  have hboth : (chronicle host events (Session.new story warmUpReadings) p).session.story = story ∧
      ∀ m ∈ (chronicle host events (Session.new story warmUpReadings) p).moments, P m := by
    refine chronicle_induction (I := fun c => c.session.story = story ∧ ∀ m ∈ c.moments, P m)
      ⟨rfl, List.forall_mem_nil _⟩ (fun c e ⟨hstory, hms⟩ => ⟨?_, ?_⟩) events
    · exact (e.story_turn host c.session c.player).trans hstory
    · exact List.forall_mem_append.2 ⟨hms, List.forall_mem_singleton.2 (h _ _ e hstory)⟩
  exact hboth.2

/-- A session on a story that was read out of markup runs safely, through any
events and with any player. -/
theorem story_of_markup_runs_safely {source folder : String} {story : Story}
    (h : Story.read source folder = .ok story) (host : HostAction → σ → σ)
    (warmUpReadings : UInt32) (p : σ) (events : List Event) :
    (chronicle host events (Session.new story warmUpReadings) p).Safe story := by
  have hsound : story.Sound := Story.sound_of_read h
  constructor
  · refine forall_moments (fun s q e hs => ?_) warmUpReadings p events
    rw [← hs] at hsound ⊢
    exact Event.safe host hsound q e
  · intro i hi
    have hkeeps := keeps_chronicle hsound.linked host warmUpReadings p events
    obtain ⟨reset, since, hlast, m, hm, spot, c, hspot, hc, henters⟩ := (hkeeps.triggered i).1 hi
    obtain ⟨earlier, hsplit⟩ := hlast.split
    refine ⟨spot, hspot, hsound.circles spot (List.mem_of_getElem? hspot), c, hc, m, ?_, henters⟩
    rw [hsplit]
    exact List.mem_append_right _ (List.mem_cons_of_mem _ hm)

/-- A story with an intro, and with a circle that does nothing. -/
theorem bare_story_runs_safely :
    let source := "<story title='Bare' introfile='a'>" ++
      "<spot latitude='0' longitude='0'><circle radius='5'/></spot></story>"
    let story := Story.of "Bare" "walk" (some "a") "" []
      [Spot.of ⟨0, 0⟩ [⟨5, none, [], none⟩]]
    let c := chronicle Playback.host [.call .start] (Session.new story 1) .idle
    Story.read source "walk" = .ok story ∧
      c.moments.map (fun m => m.turn.effects) = [[.playRequest "a" 1.0]] ∧ c.Safe story := by
  intro source story c
  have hread : Story.read source "walk" = .ok story := Story.read_bare
  exact ⟨hread, rfl, story_of_markup_runs_safely hread Playback.host 1 .idle [.call .start]⟩

end
end AudioWalk
