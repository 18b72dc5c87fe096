import AudioWalk.Proofs.Session.Visits
import AudioWalk.Proofs.Session.WarmUp

/-!
# The gates of a reading

Four gates stand in front of a circle: somebody must walk, the tracker must have
warmed up, no clip may be playing, and a circle must hold the position.  Which of
the readings are held back, and which one is announced, follows from their numbers
since the last start alone.

`HeardSince` numbers the readings by the moments of a chronicle.  The tracker
counts them in a word that does not overflow, so the number it has is the true one
up to the greatest word, and a setting below that is met once.
-/

namespace AudioWalk

/-! ## The readings since the last start -/

/-- The reading that is heard at a moment, if one is. -/
def Moment.heard? {σ : Type} (m : Moment σ) : Option Reading :=
  match m.event with
  | .call (.receive r) => if m.session.status = .running then some r else none
  | _ => none

section

variable {σ : Type} {ms : List (Moment σ)} {m : Moment σ} {heard : List Reading}

theorem Moment.heard?_eq_some {r : Reading} : m.heard? = some r ↔ m.Hears r := by
  unfold Moment.heard? Moment.Hears
  cases m.event with
  | host a => simp
  | call c => cases c <;> simp [and_comm]

theorem Moment.heard?_eq_none (h : ∀ r, ¬ m.Hears r) : m.heard? = none :=
  Option.eq_none_iff_forall_ne_some.2 fun r hr => h r (heard?_eq_some.1 hr)

/-- The readings that have been heard since the last start, the first one first. -/
def HeardSince (ms : List (Moment σ)) (heard : List Reading) : Prop :=
  ∃ start since, LastWith Moment.IsStart ms start since ∧ since.filterMap Moment.heard? = heard

theorem heardSince_concat :
    HeardSince (ms ++ [m]) heard ↔ m.IsStart ∧ heard = [] ∨
      ¬ m.IsStart ∧ ∃ earlier, HeardSince ms earlier ∧ heard = earlier ++ m.heard?.toList := by
  have hone : [m].filterMap Moment.heard? = m.heard?.toList := by
    cases h : m.heard? <;> simp [h]
  rw [HeardSince, exists_lastWith_concat]
  simp only [List.filterMap_append, hone]
  constructor
  · rintro (⟨hstart, hnil⟩ | ⟨hstart, start, since, hlast, hheard⟩)
    · exact Or.inl ⟨hstart, hnil.symm⟩
    · exact Or.inr ⟨hstart, _, ⟨start, since, hlast, rfl⟩, hheard.symm⟩
  · rintro (⟨hstart, hnil⟩ | ⟨hstart, earlier, ⟨start, since, hlast, hearlier⟩, hheard⟩)
    · exact Or.inl ⟨hstart, hnil.symm⟩
    · rw [← hearlier] at hheard
      exact Or.inr ⟨hstart, start, since, hlast, hheard.symm⟩

/-- The number of readings since the last start is determined. -/
theorem HeardSince.unique {heard' : List Reading} (h : HeardSince ms heard)
    (h' : HeardSince ms heard') : heard = heard' := by
  induction ms using List.reverseRecOn generalizing heard heard' with
  | nil =>
    obtain ⟨_, _, hlast, _⟩ := h
    exact absurd hlast not_lastWith_nil
  | append_singleton ms m ih =>
    rcases heardSince_concat.1 h with ⟨hstart, hnil⟩ | ⟨hstart, earlier, hearlier, hheard⟩
    · rcases heardSince_concat.1 h' with ⟨_, hnil'⟩ | ⟨hno, _⟩
      · rw [hnil, hnil']
      · exact absurd hstart hno
    · rcases heardSince_concat.1 h' with ⟨hyes, _⟩ | ⟨_, earlier', hearlier', hheard'⟩
      · exact absurd hyes hstart
      · rw [hheard, hheard', ih hearlier hearlier']

end

/-! ## What the tracker has counted -/

section

variable {σ : Type}

/-- While somebody walks, the tracker has counted the readings since the start. -/
structure Chronicle.Counts (warmUpReadings : UInt32) (c : Chronicle σ) : Prop where
  tracker : ∃ n, c.session.tracker.Counts warmUpReadings n
  heard : c.session.status = .running →
    ∃ heard, HeardSince c.moments heard ∧
      c.session.tracker.Counts warmUpReadings heard.length

theorem counts_new_session (story : Story) (warmUpReadings : UInt32) (p : σ) :
    (⟨[], Session.new story warmUpReadings, p⟩ : Chronicle σ).Counts warmUpReadings where
  tracker := ⟨0, Tracker.counts_new warmUpReadings⟩
  heard := nofun

variable [Player σ] {host : HostAction → σ → σ} {warmUpReadings : UInt32}

theorem Chronicle.Counts.add {c : Chronicle σ} (hc : c.Counts warmUpReadings) (e : Event) :
    (c.add host e).Counts warmUpReadings := by
  obtain ⟨⟨n, hn⟩, hheard⟩ := hc
  have htracks := e.tracks host c.session c.player
  generalize hm : e.moment host c.session c.player = m at htracks
  have hbefore : c.session = m.session := by rw [← hm]; rfl
  have hadd : c.add host e = ⟨c.moments ++ [m], m.turn.session, m.turn.player⟩ := by
    rw [← hm]
    rfl
  rw [hbefore] at hn hheard
  rw [hadd]
  cases htracks with
  | start hstart htracker =>
    have hnone : m.turn.session.tracker.Counts warmUpReadings 0 := by
      rw [htracker]
      exact hn.reset
    exact ⟨⟨0, hnone⟩, fun _ => ⟨[], heardSince_concat.2 (Or.inl ⟨hstart, rfl⟩), hnone⟩⟩
  | stop hstatus htracker =>
    refine ⟨⟨0, ?_⟩, fun hrunning => absurd hrunning hstatus⟩
    show m.turn.session.tracker.Counts warmUpReadings 0
    rw [htracker]
    exact hn.reset
  | hears r hstart hhears htracker =>
    obtain ⟨heard, hsince, hcounts⟩ := hheard hhears.2
    have hone : m.turn.session.tracker.Counts warmUpReadings (heard ++ [r]).length := by
      rw [htracker, List.length_append]
      exact hcounts.record r
    refine ⟨⟨_, hone⟩, fun _ => ⟨_, heardSince_concat.2 (Or.inr ⟨hstart, heard, hsince, ?_⟩), hone⟩⟩
    rw [Moment.heard?_eq_some.2 hhears]
    rfl
  | quiet hstart hnone hstatus htracker =>
    rw [← htracker] at hn hheard
    refine ⟨⟨n, hn⟩, fun hrunning => ?_⟩
    obtain ⟨heard, hsince, hcounts⟩ := hheard (hstatus hrunning)
    refine ⟨heard, heardSince_concat.2 (Or.inr ⟨hstart, heard, hsince, ?_⟩), hcounts⟩
    rw [Moment.heard?_eq_none hnone, Option.toList_none, List.append_nil]

theorem counts_chronicle (host : HostAction → σ → σ) (story : Story) (warmUpReadings : UInt32)
    (p : σ) (events : List Event) :
    (chronicle host events (Session.new story warmUpReadings) p).Counts warmUpReadings :=
  chronicle_induction (counts_new_session story warmUpReadings p) (fun _ e hc => hc.add e) events

end

/-! ## The gates -/

namespace Session

theorem announcement_of_first {s : Session} {r : Reading} (h : s.fix r = .first) :
    ∃ told?, s.announcement r = [.firstFixAcquired, .nearestUntriggered told?] := by
  rw [announcement, h]
  exact ⟨_, rfl⟩

theorem announcement_of_not_first {s : Session} {r : Reading} (h : s.fix r ≠ .first) :
    s.announcement r = [] := by
  unfold announcement announce
  split
  · next hfirst => exact absurd hfirst h
  · rfl

theorem firstFixAcquired_mem_announcement {s : Session} {r : Reading} :
    .firstFixAcquired ∈ s.announcement r ↔ s.fix r = .first := by
  by_cases h : s.fix r = .first
  · obtain ⟨told?, hannounced⟩ := announcement_of_first h
    simp [h, hannounced]
  · simp [h, announcement_of_not_first h]

/-- While a clip is playing, a reading is heard and perhaps announced, and that is
all. -/
theorem receive_of_playing {σ : Type} [Player σ] (s : Session) (r : Reading) {p : σ}
    (hplaying : isPlaying (Player.elapse p) = true) :
    ∃ announced q, s.receive r p = ⟨.ok announced,
        { s with tracker := (s.receive r p).session.tracker }, q⟩ ∧
      (q = p ∨ q = Player.elapse p) ∧
      (announced = [] ∨ ∃ told?, announced = [.firstFixAcquired, .nearestUntriggered told?]) := by
  have h := s.received r p
  generalize s.receive r p = t at h ⊢
  cases h with
  | ignored hstatus => exact ⟨[], p, rfl, Or.inl rfl, Or.inl rfl⟩
  | heldBack hstatus hfix => exact ⟨[], p, rfl, Or.inl rfl, Or.inl rfl⟩
  | unmatched hstatus hfix hbusy =>
    refine ⟨_, _, rfl, Or.inr rfl, ?_⟩
    by_cases hfirst : s.fix r = .first
    · exact Or.inr (announcement_of_first hfirst)
    · exact Or.inl (announcement_of_not_first hfirst)
  | outside hstatus hfix hidle hnone => exact absurd (hidle.symm.trans hplaying) Bool.false_ne_true
  | entered c hstatus hfix hidle hcircle =>
    exact absurd (hidle.symm.trans hplaying) Bool.false_ne_true

theorem receive_of_warmingUp {σ : Type} [Player σ] {s : Session} {r : Reading}
    (hs : s.status = .running) (hfix : s.fix r = .warmingUp) (p : σ) :
    s.receive r p = ⟨.ok [], s.heard r, p⟩ := by
  have h := s.received r p
  generalize s.receive r p = t at h ⊢
  cases h with
  | ignored hstatus => exact absurd hs hstatus
  | heldBack hstatus hfix => rfl
  | unmatched hstatus hno hbusy => exact absurd hfix hno
  | outside hstatus hno hidle hnone => exact absurd hfix hno
  | entered c hstatus hno hidle hcircle => exact absurd hfix hno

end Session

/-- What the announcement consists of. -/
def Effect.isAnnounced : Effect → Bool
  | firstFixAcquired => true
  | nearestUntriggered _ => true
  | _ => false

theorem Statement.Tells.isAnnounced {x : Statement} {e : Effect} (h : x.Tells e) :
    e.isAnnounced = false := by
  cases h with
  | text clip text volume shown => rfl
  | request clip text volume => rfl
  | ending => rfl

section

variable {σ : Type} [Player σ]

/-- What the gates make of a reading, by what has been heard since the last start. -/
structure Gated (warmUpReadings : UInt32) (c : Chronicle σ) (r : Reading) (t : Turn σ) : Prop where
  ignored : c.session.status ≠ .running → t = ⟨.ok [], c.session, c.player⟩
  numbered : c.session.status = .running → ∃ heard, HeardSince c.moments heard
  heldBack : c.session.status = .running → ∀ heard, HeardSince c.moments heard →
    heard.length + 1 < max warmUpReadings.toNat 1 →
      t = ⟨.ok [], { c.session with tracker := t.session.tracker }, c.player⟩
  announced : c.session.status = .running → ∀ heard, HeardSince c.moments heard →
    heard.length + 1 = max warmUpReadings.toNat 1 →
      ∃ told? later, t.effects = .firstFixAcquired :: .nearestUntriggered told? :: later ∧
        ∀ e ∈ later, e.isAnnounced = false
  playing : isPlaying (Player.elapse c.player) = true →
    ∃ announced q, t = ⟨.ok announced, { c.session with tracker := t.session.tracker }, q⟩ ∧
      (q = c.player ∨ q = Player.elapse c.player) ∧
      (announced = [] ∨ ∃ told?, announced = [.firstFixAcquired, .nearestUntriggered told?])

variable {warmUpReadings : UInt32}

theorem Chronicle.Counts.gated {c : Chronicle σ} (hc : c.Counts warmUpReadings)
    (hw : warmUpReadings.toNat < UInt32.size - 1) (r : Reading) :
    Gated warmUpReadings c r (c.session.receive r c.player) := by
  have hfix (hs : c.session.status = .running) {heard : List Reading}
      (hheard : HeardSince c.moments heard) :
      (c.session.fix r = .warmingUp ↔ heard.length + 1 < Tracker.firstUsable warmUpReadings) ∧
        (c.session.fix r = .first ↔ heard.length + 1 = Tracker.firstUsable warmUpReadings) := by
    obtain ⟨heard', hheard', hcounts⟩ := hc.heard hs
    rw [hheard'.unique hheard] at hcounts
    exact hcounts.fix_of_lt_limit hw r
  constructor
  · exact fun hs => Session.receive_of_not_running hs r c.player
  · intro hs
    obtain ⟨heard, hheard, _⟩ := hc.heard hs
    exact ⟨heard, hheard⟩
  · intro hs heard hheard hnumber
    rw [Session.receive_of_warmingUp hs ((hfix hs hheard).1.2 hnumber) c.player]
    rfl
  · intro hs heard hheard hnumber
    obtain ⟨told?, hannounced⟩ := Session.announcement_of_first ((hfix hs hheard).2.2 hnumber)
    obtain ⟨later, heffects, hlater⟩ := c.session.effects_receive r c.player
    rw [if_pos hs, hannounced] at heffects
    refine ⟨told?, later, heffects, fun e he => ?_⟩
    obtain ⟨x, htells⟩ := hlater e he
    exact htells.isAnnounced
  · exact fun hplaying => c.session.receive_of_playing r hplaying

/-- In every run, and at every setting that a tracker can count beyond, the first
fix is announced by one reading since each start, the one with the number that was
set, and by nothing else; and the gates deal with each reading by its number, the
status and the player. -/
theorem readings_gated (hw : warmUpReadings.toNat < UInt32.size - 1) (host : HostAction → σ → σ)
    (story : Story) (p : σ) (events : List Event) :
    let c := chronicle host events (Session.new story warmUpReadings) p
    (∀ e : Event, .firstFixAcquired ∈ (e.moment host c.session c.player).turn.effects ↔
      (∃ r, (e.moment host c.session c.player).Hears r) ∧
        ∃ heard, HeardSince c.moments heard ∧ heard.length + 1 = max warmUpReadings.toNat 1) ∧
    ∀ r, Gated warmUpReadings c r (c.session.receive r c.player) := by
  intro c
  have hc : c.Counts warmUpReadings := counts_chronicle host story warmUpReadings p events
  refine ⟨fun e => ⟨fun h => ?_, ?_⟩, hc.gated hw⟩
  · have huntold : ∀ x : Statement, ¬ x.Tells .firstFixAcquired := nofun
    obtain ⟨hs, hcases⟩ := Event.turn_tells huntold h
    rcases hcases with ⟨r, he, hannounced⟩ | ⟨_, htold⟩
    · obtain ⟨heard, hheard, hcounts⟩ := hc.heard hs
      have hfirst := Session.firstFixAcquired_mem_announcement.1 hannounced
      exact ⟨⟨r, he, hs⟩, heard, hheard, (hcounts.fix_of_lt_limit hw r).2.1 hfirst⟩
    · cases htold
  · intro ⟨⟨r, he, hs⟩, heard, hheard, hnumber⟩
    obtain ⟨told?, later, heffects, _⟩ := (hc.gated hw r).announced hs heard hheard hnumber
    have hreceive : e = .call (.receive r) := he
    show .firstFixAcquired ∈ (e.turn host c.session c.player).effects
    rw [hreceive]
    show .firstFixAcquired ∈ (c.session.receive r c.player).effects
    rw [heffects]
    exact List.mem_cons_self

/-- The first reading of a walk without a warm-up, behind an intro that is still
playing. -/
theorem first_reading_announced_during_intro :
    let story := Story.of "Bare" "walk" (some "a.ogg") "" []
      [Spot.of ⟨0, 0⟩ [⟨5, none, [], none⟩]]
    let c := chronicle Playback.host [.call .start] (Session.new story 1) .idle
    let r : Reading := ⟨0, 0, 0⟩
    (1 : UInt32).toNat < UInt32.size - 1 ∧ isPlaying c.player = true ∧
      .firstFixAcquired ∈ (c.session.receive r c.player).effects ∧
      Gated 1 c r (c.session.receive r c.player) := by
  intro story c r
  have hbelow : (1 : UInt32).toNat < UInt32.size - 1 := by decide
  have hgates := readings_gated hbelow Playback.host story .idle [.call .start]
  have hheard : HeardSince c.moments [] := heardSince_concat.2 (Or.inl ⟨rfl, rfl⟩)
  have hfirst := (hgates.1 (.call (.receive r))).2 ⟨⟨r, rfl, rfl⟩, [], hheard, rfl⟩
  exact ⟨hbelow, rfl, hfirst, hgates.2 r⟩

end
end AudioWalk
