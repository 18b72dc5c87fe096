import AudioWalk.Proofs.Session.Chronicle

/-!
# The life of a session

The status of a session is what its history says: whether it was ever started or
stopped, whether the end of the story has been told since the last start, and
whether a clip was playing then whose end has not been heard of.  `Untouched`,
`Walking` and `PlayingOut` say this of the moments of a chronicle, and each status
is shown to be one of them, by following both through one more moment.

The end of a story is final.  Nothing but a start gets a session out of it.
-/

namespace AudioWalk

/-! ## Marks of moments -/

namespace Moment

variable {σ : Type}

def IsStart (m : Moment σ) : Prop := m.event = .call .start

def IsStop (m : Moment σ) : Prop := m.event = .call .stop

/-- The host tells the session that a clip has come to its end. -/
def IsNotice (m : Moment σ) : Prop := m.event = .call .clipFinished

/-- A reading that brings the story to its end, also where its walk was cut short
or failed behind the end mark. -/
def Ends (m : Moment σ) : Prop :=
  (∃ r, m.event = .call (.receive r)) ∧ .endOfStory ∈ m.turn.effects

end Moment

section

variable {σ : Type}

def Untouched (ms : List (Moment σ)) : Prop := ∀ m ∈ ms, ¬ m.IsStart ∧ ¬ m.IsStop

/-- Since the last start the story has not been stopped and has not ended. -/
def Walking (ms : List (Moment σ)) : Prop :=
  ∃ start since, LastWith Moment.IsStart ms start since ∧ ∀ m ∈ since, ¬ m.IsStop ∧ ¬ m.Ends

/-- The story has ended, and has not been started since. -/
def Over (ms : List (Moment σ)) : Prop :=
  ∃ last late, LastWith Moment.Ends ms last late ∧ ∀ m ∈ late, ¬ m.IsStart

variable [Player σ]

/-- Since the last start the story has ended with a clip in the air, and neither
a notice nor a stop has come behind. -/
def PlayingOut (ms : List (Moment σ)) : Prop :=
  ∃ start since, LastWith Moment.IsStart ms start since ∧
    ∃ last late, LastWith Moment.Ends since last late ∧ isPlaying last.turn.player = true ∧
      ∀ m ∈ late, ¬ m.IsStop ∧ ¬ m.IsNotice

/-! ## One more moment -/

variable {ms : List (Moment σ)} {m : Moment σ}

omit [Player σ] in
theorem untouched_concat :
    Untouched (ms ++ [m]) ↔ Untouched ms ∧ ¬ m.IsStart ∧ ¬ m.IsStop := by
  rw [Untouched, List.forall_mem_append, List.forall_mem_singleton]
  rfl

omit [Player σ] in
theorem walking_concat :
    Walking (ms ++ [m]) ↔
      m.IsStart ∨ ¬ m.IsStart ∧ (¬ m.IsStop ∧ ¬ m.Ends) ∧ Walking ms := by
  rw [Walking, exists_lastWith_concat]
  simp only [List.forall_mem_append, List.forall_mem_singleton]
  constructor
  · intro h
    rcases h with ⟨hstart, _⟩ | ⟨hstart, start, since, hlast, hsince, hm⟩
    · exact Or.inl hstart
    · exact Or.inr ⟨hstart, hm, start, since, hlast, hsince⟩
  · intro h
    rcases h with hstart | ⟨hstart, hm, start, since, hlast, hsince⟩
    · exact Or.inl ⟨hstart, List.forall_mem_nil _⟩
    · exact Or.inr ⟨hstart, start, since, hlast, hsince, hm⟩

theorem playingOut_concat :
    PlayingOut (ms ++ [m]) ↔ ¬ m.IsStart ∧
      (m.Ends ∧ isPlaying m.turn.player = true ∧
          (∃ start since, LastWith Moment.IsStart ms start since) ∨
        ¬ m.Ends ∧ (¬ m.IsStop ∧ ¬ m.IsNotice) ∧ PlayingOut ms) := by
  rw [PlayingOut, exists_lastWith_concat]
  simp only [exists_lastWith_concat, List.forall_mem_append, List.forall_mem_singleton]
  constructor
  · intro h
    rcases h with ⟨_, last, late, hlast, _⟩ | ⟨hstart, start, since, hsince, h⟩
    · exact absurd hlast not_lastWith_nil
    · refine ⟨hstart, ?_⟩
      rcases h with ⟨hends, hplaying, _⟩ | ⟨hends, last, late, hlast, hplaying, hlate, hm⟩
      · exact Or.inl ⟨hends, hplaying, start, since, hsince⟩
      · exact Or.inr ⟨hends, hm, start, since, hsince, last, late, hlast, hplaying, hlate⟩
  · intro ⟨hstart, h⟩
    refine Or.inr ⟨hstart, ?_⟩
    rcases h with ⟨hends, hplaying, start, since, hsince⟩ |
      ⟨hends, hm, start, since, hsince, last, late, hlast, hplaying, hlate⟩
    · exact ⟨start, since, hsince, Or.inl ⟨hends, hplaying, List.forall_mem_nil _⟩⟩
    · exact ⟨start, since, hsince, Or.inr ⟨hends, last, late, hlast, hplaying, hlate, hm⟩⟩

omit [Player σ] in
theorem over_concat :
    Over (ms ++ [m]) ↔ m.Ends ∨ ¬ m.Ends ∧ ¬ m.IsStart ∧ Over ms := by
  rw [Over, exists_lastWith_concat]
  simp only [List.forall_mem_append, List.forall_mem_singleton]
  constructor
  · intro h
    rcases h with ⟨hends, _⟩ | ⟨hends, last, late, hlast, hlate, hm⟩
    · exact Or.inl hends
    · exact Or.inr ⟨hends, hm, last, late, hlast, hlate⟩
  · intro h
    rcases h with hends | ⟨hends, hm, last, late, hlast, hlate⟩
    · exact Or.inl ⟨hends, List.forall_mem_nil _⟩
    · exact Or.inr ⟨hends, last, late, hlast, hlate, hm⟩

/-! ## One more event -/

theorem Effect.any_isEndOfStory {effects : List Effect} :
    effects.any Effect.isEndOfStory = true ↔ .endOfStory ∈ effects := by
  rw [List.any_eq_true]
  constructor
  · intro ⟨e, he, hend⟩
    cases e with
    | endOfStory => exact he
    | displayText text => cases hend
    | playRequest clip volume => cases hend
    | firstFixAcquired => cases hend
    | nearestUntriggered spot? => cases hend
  · intro h
    exact ⟨.endOfStory, h, rfl⟩

namespace Session

theorem endOfStory_not_mem_announcement (s : Session) (r : Reading) :
    .endOfStory ∉ s.announcement r := by
  unfold announcement announce
  split
  · simp [nearestUntriggered]
  · exact List.not_mem_nil

/-- Only a walk can come to the end of its story, and the player then decides
whether the session waits for it. -/
theorem status_receive_of_end {s : Session} {r : Reading} {p : σ}
    (hend : .endOfStory ∈ (s.receive r p).effects) :
    s.status = .running ∧ (s.receive r p).session.status =
      if isPlaying (s.receive r p).player then .ending else .finished := by
  cases hc : s.entered? r p with
  | none =>
    rw [(receive_of_not_entered hc).2] at hend
    split at hend
    · exact absurd hend (endOfStory_not_mem_announcement s r)
    · exact absurd hend List.not_mem_nil
  | some c =>
    rw [receive_of_entered hc] at hend ⊢
    rw [effects_run, List.mem_append,
      or_iff_right (endOfStory_not_mem_announcement s r)] at hend
    have hreached : (execute c.title? c.statements (s.heard r).store
        (Player.elapse p)).reachedEnd = true := Effect.any_isEndOfStory.2 hend
    rw [session_run]
    exact ⟨(entered?_eq_some.1 hc).1, if_pos hreached⟩

theorem status_receive_of_no_end {s : Session} {r : Reading} {p : σ}
    (hend : .endOfStory ∉ (s.receive r p).effects) :
    (s.receive r p).session.status = s.status := by
  cases hc : s.entered? r p with
  | none =>
    rw [(receive_of_not_entered hc).1]
    split
    · rfl
    · rfl
  | some c =>
    rw [receive_of_entered hc] at hend ⊢
    rw [effects_run, List.mem_append, not_or] at hend
    have hreached : ¬ (execute c.title? c.statements (s.heard r).store
        (Player.elapse p)).reachedEnd = true := mt Effect.any_isEndOfStory.1 hend.2
    rw [session_run]
    exact if_neg hreached

theorem receive_of_not_running {s : Session} (hs : s.status ≠ .running) (r : Reading) (p : σ) :
    s.receive r p = ⟨.ok [], s, p⟩ := by
  rw [receive, if_neg hs]

end Session

/-- What becomes of the status at a moment.  The marks exclude one another. -/
inductive Moment.Turns (m : Moment σ) : Prop
  | start (hstart : m.IsStart) (hstop : ¬ m.IsStop) (hends : ¬ m.Ends)
    (hstatus : m.turn.session.status = .running)
  | stop (hstart : ¬ m.IsStart) (hstop : m.IsStop) (hends : ¬ m.Ends)
    (hstatus : m.turn.session.status = .finished)
  | ends (hstart : ¬ m.IsStart) (hstop : ¬ m.IsStop) (hends : m.Ends)
    (hbefore : m.session.status = .running) (hstatus : m.turn.session.status =
      if isPlaying m.turn.player then .ending else .finished)
  | notice (hstart : ¬ m.IsStart) (hstop : ¬ m.IsStop) (hends : ¬ m.Ends) (hnotice : m.IsNotice)
    (hstatus : m.turn.session.status =
      if m.session.status = .ending then .finished else m.session.status)
  | other (hstart : ¬ m.IsStart) (hstop : ¬ m.IsStop) (hends : ¬ m.Ends) (hnotice : ¬ m.IsNotice)
    (hstatus : m.turn.session.status = m.session.status)

theorem Event.turns (host : HostAction → σ → σ) (s : Session) (p : σ) (e : Event) :
    (e.moment host s p).Turns := by
  cases e with
  | host a => exact .other nofun nofun (fun ⟨⟨r, hr⟩, _⟩ => nomatch hr) nofun rfl
  | call c =>
    cases c with
    | start => exact .start rfl nofun (fun ⟨⟨r, hr⟩, _⟩ => nomatch hr) rfl
    | stop => exact .stop nofun rfl (fun ⟨⟨r, hr⟩, _⟩ => nomatch hr) rfl
    | clipFinished =>
      have hstatus := congrArg Session.status s.session_clipFinished
      exact .notice nofun nofun (fun ⟨⟨r, hr⟩, _⟩ => nomatch hr) rfl hstatus
    | receive r =>
      by_cases hend : .endOfStory ∈ (s.receive r p).effects
      · obtain ⟨hbefore, hstatus⟩ := Session.status_receive_of_end hend
        exact .ends nofun nofun ⟨⟨r, rfl⟩, hend⟩ hbefore hstatus
      · exact .other nofun nofun (fun h => hend h.2) nofun
          (Session.status_receive_of_no_end hend)

namespace Moment.Turns

variable {m : Moment σ}

theorem running_of_ends (h : m.Turns) (hends : m.Ends) : m.session.status = .running := by
  cases h with
  | start hstart hstop hno hstatus => exact absurd hends hno
  | stop hstart hstop hno hstatus => exact absurd hends hno
  | ends hstart hstop hends hbefore hstatus => exact hbefore
  | notice hstart hstop hno hnotice hstatus => exact absurd hends hno
  | other hstart hstop hno hnotice hstatus => exact absurd hends hno

theorem ready_iff (h : m.Turns) :
    m.turn.session.status = .ready ↔
      m.session.status = .ready ∧ ¬ m.IsStart ∧ ¬ m.IsStop := by
  cases h with
  | start hstart hstop hends hstatus => simp [hstart, hstatus]
  | stop hstart hstop hends hstatus => simp [hstop, hstatus]
  | ends hstart hstop hends hbefore hstatus =>
    rw [hstatus, hbefore]
    split <;> simp
  | notice hstart hstop hends hnotice hstatus =>
    rw [hstatus]
    split
    · next hending => simp [hending]
    · simp [hstart, hstop]
  | other hstart hstop hends hnotice hstatus => simp [hstatus, hstart, hstop]

theorem running_iff (h : m.Turns) :
    m.turn.session.status = .running ↔
      m.IsStart ∨ ¬ m.IsStart ∧ (¬ m.IsStop ∧ ¬ m.Ends) ∧ m.session.status = .running := by
  cases h with
  | start hstart hstop hends hstatus => simp [hstart, hstatus]
  | stop hstart hstop hends hstatus => simp [hstart, hstop, hstatus]
  | ends hstart hstop hends hbefore hstatus =>
    rw [hstatus]
    split <;> simp [hstart, hends]
  | notice hstart hstop hends hnotice hstatus =>
    rw [hstatus]
    split
    · next hending => simp [hstart, hending]
    · simp [hstart, hstop, hends]
  | other hstart hstop hends hnotice hstatus => simp [hstatus, hstart, hstop, hends]

theorem ending_iff (h : m.Turns) :
    m.turn.session.status = .ending ↔ ¬ m.IsStart ∧
      (m.Ends ∧ isPlaying m.turn.player = true ∨
        ¬ m.Ends ∧ (¬ m.IsStop ∧ ¬ m.IsNotice) ∧ m.session.status = .ending) := by
  cases h with
  | start hstart hstop hends hstatus => simp [hstart, hstatus]
  | stop hstart hstop hends hstatus => simp [hstop, hends, hstatus]
  | ends hstart hstop hends hbefore hstatus =>
    rw [hstatus]
    split
    · next hplaying => simp [hstart, hends, hplaying]
    · next hplaying => simp [hends, hplaying]
  | notice hstart hstop hends hnotice hstatus =>
    rw [hstatus]
    split
    · simp [hends, hnotice]
    · next hending => simp [hends, hnotice, hending]
  | other hstart hstop hends hnotice hstatus => simp [hstatus, hstart, hstop, hends, hnotice]

/-- Where the story has ended, a session plays out or has finished. -/
theorem at_end (h : m.Turns) (hbefore : m.Ends ∨ ¬ m.Ends ∧ ¬ m.IsStart ∧
      (m.session.status = .ending ∨ m.session.status = .finished)) :
    m.turn.session.status = .ending ∨ m.turn.session.status = .finished := by
  cases h with
  | start hstart hstop hends hstatus => simp [hstart, hends] at hbefore
  | stop hstart hstop hends hstatus => exact Or.inr hstatus
  | ends hstart hstop hends hrunning hstatus =>
    rw [hstatus]
    split <;> simp
  | notice hstart hstop hends hnotice hstatus =>
    rw [hstatus]
    split
    · exact Or.inr rfl
    · simpa [hends, hstart] using hbefore
  | other hstart hstop hends hnotice hstatus =>
    rw [hstatus]
    simpa [hends, hstart] using hbefore

end Moment.Turns

/-! ## The status of a chronicle -/

variable {host : HostAction → σ → σ}

/-- The status is what the moments say. -/
structure Chronicle.Tallies (c : Chronicle σ) : Prop where
  ready : c.session.status = .ready ↔ Untouched c.moments
  running : c.session.status = .running ↔ Walking c.moments
  ending : c.session.status = .ending ↔ PlayingOut c.moments
  ended : Over c.moments → c.session.status = .ending ∨ c.session.status = .finished

theorem tallies_new (story : Story) (warmUpReadings : UInt32) (p : σ) :
    (⟨[], Session.new story warmUpReadings, p⟩ : Chronicle σ).Tallies where
  ready := ⟨fun _ => List.forall_mem_nil _, fun _ => rfl⟩
  running := ⟨fun h => Status.noConfusion h, fun ⟨_, _, hlast, _⟩ => absurd hlast not_lastWith_nil⟩
  ending := ⟨fun h => Status.noConfusion h, fun ⟨_, _, hlast, _⟩ => absurd hlast not_lastWith_nil⟩
  ended := fun ⟨_, _, hlast, _⟩ => absurd hlast not_lastWith_nil

theorem Chronicle.Tallies.add {c : Chronicle σ} (hc : c.Tallies) (e : Event) :
    (c.add host e).Tallies := by
  have hturns := e.turns host c.session c.player
  generalize hm : e.moment host c.session c.player = m at hturns
  have hbefore : c.session = m.session := by rw [← hm]; rfl
  have hadd : c.add host e = ⟨c.moments ++ [m], m.turn.session, m.turn.player⟩ := by
    rw [← hm]
    rfl
  obtain ⟨hready, hrunning, hending, hover⟩ := hc
  rw [hbefore] at hready hrunning hending hover
  rw [hadd]
  constructor
  · rw [untouched_concat, ← hready]
    exact hturns.ready_iff
  · rw [walking_concat, ← hrunning]
    exact hturns.running_iff
  · refine hturns.ending_iff.trans ?_
    rw [playingOut_concat, hending]
    refine and_congr_right fun _ => or_congr_left (and_congr_right fun hends => ?_)
    -- An end is reached by a walk, so there is a start in front of it.
    obtain ⟨start, since, hlast, _⟩ := hrunning.1 (hturns.running_of_ends hends)
    exact (and_iff_left ⟨start, since, hlast⟩).symm
  · intro h
    refine hturns.at_end ((over_concat.1 h).imp_right fun ⟨hends, hstart, hms⟩ => ?_)
    exact ⟨hends, hstart, hover hms⟩

theorem tallies_chronicle (host : HostAction → σ → σ) (story : Story) (warmUpReadings : UInt32)
    (p : σ) (events : List Event) :
    (chronicle host events (Session.new story warmUpReadings) p).Tallies :=
  chronicle_induction (tallies_new story warmUpReadings p) (fun _ e hc => hc.add e) events

/-! ## The end is final -/

/-- Behind the end a call is answered with nothing, the player is left alone, and
a stop alone forgets what the walk has left. -/
theorem Session.call_at_end {s : Session} (hs : s.status = .ending ∨ s.status = .finished) (p : σ)
    {c : Call} (hstart : c ≠ .start) :
    (s.call p c).result = .ok [] ∧ (s.call p c).player = p ∧
      (c ≠ .stop → (s.call p c).session.store = s.store ∧
        (s.call p c).session.triggered = s.triggered) ∧
      (c = .stop → (s.call p c).session.store = .empty ∧ (s.call p c).session.triggered = []) := by
  cases c with
  | start => exact absurd rfl hstart
  | stop => exact ⟨rfl, rfl, fun hstop => absurd rfl hstop, fun _ => ⟨rfl, rfl⟩⟩
  | receive r =>
    have hrunning : s.status ≠ .running := by
      rcases hs with hs | hs <;> simp [hs]
    have hcall : s.call p (.receive r) = ⟨.ok [], s, p⟩ := receive_of_not_running hrunning r p
    rw [hcall]
    exact ⟨rfl, rfl, fun _ => ⟨rfl, rfl⟩, nofun⟩
  | clipFinished =>
    have heffects : s.clipFinished.1 = [] := by
      unfold clipFinished
      rcases hs with hs | hs <;> simp [hs]
    have hstore := congrArg store s.session_clipFinished
    have htriggered := congrArg triggered s.session_clipFinished
    exact ⟨congrArg Except.ok heffects, rfl, fun _ => ⟨hstore, htriggered⟩, nofun⟩

/-- The status of a session is determined by its history, whatever the player does
and whatever the host does in between; and once the end of the story has been
told, it stays told until the next start. -/
theorem status_by_history (host : HostAction → σ → σ) (story : Story) (warmUpReadings : UInt32)
    (p : σ) (events : List Event) :
    let c := chronicle host events (Session.new story warmUpReadings) p
    (c.session.status = .ready ↔ Untouched c.moments) ∧
    (c.session.status = .running ↔ Walking c.moments) ∧
    (c.session.status = .ending ↔ PlayingOut c.moments) ∧
    (c.session.status = .finished ↔
      ¬ Untouched c.moments ∧ ¬ Walking c.moments ∧ ¬ PlayingOut c.moments) ∧
    (Over c.moments → ∀ call : Call, call ≠ .start →
      let t := c.session.call c.player call
      t.result = .ok [] ∧ t.player = c.player ∧
        (call ≠ .stop → t.session.store = c.session.store ∧
          t.session.triggered = c.session.triggered) ∧
        (call = .stop → t.session.store = .empty ∧ t.session.triggered = [])) := by
  intro c
  obtain ⟨hready, hrunning, hending, hover⟩ :=
    tallies_chronicle host story warmUpReadings p events
  refine ⟨hready, hrunning, hending, ?_, fun h call hstart => ?_⟩
  · rw [← hready, ← hrunning, ← hending]
    cases c.session.status <;> simp
  · exact Session.call_at_end (hover h) c.player hstart

end

end AudioWalk
