import AudioWalk.Proofs.Geofence.Nearest
import AudioWalk.Proofs.Geofence.Triggering
import AudioWalk.Proofs.Session.Lifecycle
import AudioWalk.Proofs.Story.Sound

/-!
# Visited spots

A session keeps the numbers of the spots that have been visited and the last
reading it has heard, and tells from them which spot to go to next.  The moments
of a chronicle say the same without the session: `Visited` are the spots of which
a circle has run since the last start or stop, `LastHeard` is the last reading
that came while somebody walked, and `TellsNearest` is what there is to tell.
-/

namespace AudioWalk

/-! ## Marks of moments -/

namespace Moment

variable {σ : Type}

/-- Behind a start or a stop nothing counts as visited. -/
def IsReset (m : Moment σ) : Prop := m.IsStart ∨ m.IsStop

/-- A reading comes while somebody walks. -/
def Hears (m : Moment σ) (r : Reading) : Prop :=
  m.event = .call (.receive r) ∧ m.session.status = .running

/-- A reading that runs a circle.  It is told by the gate in front of the run: behind it
the circle does run (`Session.receive_of_entered`), and a reading that does not pass it
runs nothing (`Session.receive_of_not_entered`). -/
def Enters [Player σ] (m : Moment σ) (c : Circle) : Prop :=
  ∃ r, m.event = .call (.receive r) ∧ m.session.entered? r m.player = some c

def EntersSpot [Player σ] (spots : List Spot) (m : Moment σ) (i : Nat) : Prop :=
  ∃ s c, spots[i]? = some s ∧ c ∈ s.circles ∧ m.Enters c

end Moment

section

variable {σ : Type}

/-- A circle of the spot has run since the last start or stop. -/
def Visited [Player σ] (spots : List Spot) (ms : List (Moment σ)) (i : Nat) : Prop :=
  ∃ reset since, LastWith Moment.IsReset ms reset since ∧ ∃ m ∈ since, m.EntersSpot spots i

/-- The last reading that was heard since the last start. -/
def LastHeard (ms : List (Moment σ)) (r : Reading) : Prop :=
  ∃ start since, LastWith Moment.IsStart ms start since ∧
    ∃ last late, LastWith (fun m => ∃ r, m.Hears r) since last late ∧ last.Hears r

/-- What there is to tell: nothing where all spots are visited or no reading has
been heard, else the centre of a spot that is not visited, and no such spot is
nearer to the last reading, provided that their distances are defined. -/
structure TellsNearest (spots : List Spot) (visited : Nat → Prop) (heard : Reading → Prop)
    (told? : Option Coordinate) : Prop where
  none_iff : told? = none ↔ (∀ i < spots.length, visited i) ∨ ∀ r, ¬ heard r
  nearest : ∀ center, told? = some center → ∃ (i : Nat) (s : Spot), spots[i]? = some s ∧
    ¬ visited i ∧ center = s.center ∧ ∀ r, heard r →
      (∀ (j : Nat) s', spots[j]? = some s' → ¬ visited j →
        (haversine s'.center r.coordinate).isNaN = false) →
      ∀ (j : Nat) s', spots[j]? = some s' → ¬ visited j →
        ¬ haversine s'.center r.coordinate < haversine s.center r.coordinate

/-! ## One more moment -/

variable {ms : List (Moment σ)} {m : Moment σ} {spots : List Spot} {i : Nat} {r : Reading}

theorem visited_concat [Player σ] :
    Visited spots (ms ++ [m]) i ↔ ¬ m.IsReset ∧ (Visited spots ms i ∨
      (∃ reset since, LastWith Moment.IsReset ms reset since) ∧ m.EntersSpot spots i) := by
  rw [Visited, exists_lastWith_concat]
  constructor
  · intro h
    rcases h with ⟨_, x, hx, _⟩ | ⟨hreset, reset, since, hlast, x, hx, hspot⟩
    · exact absurd hx List.not_mem_nil
    · refine ⟨hreset, ?_⟩
      rcases List.mem_append.1 hx with hx | hx
      · exact Or.inl ⟨reset, since, hlast, x, hx, hspot⟩
      · rw [List.mem_singleton.1 hx] at hspot
        exact Or.inr ⟨⟨reset, since, hlast⟩, hspot⟩
  · intro ⟨hreset, h⟩
    refine Or.inr ⟨hreset, ?_⟩
    rcases h with ⟨reset, since, hlast, x, hx, hspot⟩ | ⟨⟨reset, since, hlast⟩, hspot⟩
    · exact ⟨reset, since, hlast, x, List.mem_append_left _ hx, hspot⟩
    · exact ⟨reset, since, hlast, m, List.mem_concat_self, hspot⟩

theorem lastHeard_concat :
    LastHeard (ms ++ [m]) r ↔ ¬ m.IsStart ∧
      (m.Hears r ∧ (∃ start since, LastWith Moment.IsStart ms start since) ∨
        (∀ r', ¬ m.Hears r') ∧ LastHeard ms r) := by
  rw [LastHeard, exists_lastWith_concat]
  simp only [exists_lastWith_concat, not_exists]
  constructor
  · intro h
    rcases h with ⟨_, last, late, hlast, _⟩ | ⟨hstart, start, since, hsince, h⟩
    · exact absurd hlast not_lastWith_nil
    · refine ⟨hstart, ?_⟩
      rcases h with ⟨_, hr⟩ | ⟨hnone, last, late, hlast, hr⟩
      · exact Or.inl ⟨hr, start, since, hsince⟩
      · exact Or.inr ⟨hnone, start, since, hsince, last, late, hlast, hr⟩
  · intro ⟨hstart, h⟩
    refine Or.inr ⟨hstart, ?_⟩
    rcases h with ⟨hr, start, since, hsince⟩ | ⟨hnone, start, since, hsince, last, late, hlast, hr⟩
    · exact ⟨start, since, hsince, Or.inl ⟨⟨r, hr⟩, hr⟩⟩
    · exact ⟨start, since, hsince, Or.inr ⟨hnone, last, late, hlast, hr⟩⟩

/-- Where somebody walks, the last reset is the last start. -/
theorem Walking.exists_start (h : Walking ms) :
    (∃ start since, LastWith Moment.IsStart ms start since) ∧
      ∃ reset since, LastWith Moment.IsReset ms reset since := by
  obtain ⟨start, since, hlast, hsince⟩ := h
  refine ⟨⟨start, since, hlast⟩, start, since, hlast.split, Or.inl hlast.marked, fun x hx => ?_⟩
  rintro (hstart | hstop)
  · exact hlast.unmarked x hx hstart
  · exact (hsince x hx).1 hstop

/-! ## One more event -/

theorem mem_mark {c : Circle} {numbers : List Nat} :
    i ∈ c.mark numbers ↔ c.spot? = some i ∨ i ∈ numbers := by
  rw [Circle.mark]
  cases c.spot? with
  | none => simp
  | some j => simp [eq_comm]

theorem pairwise_insertNumber {numbers : List Nat} (h : numbers.Pairwise (· < ·)) :
    (insertNumber i numbers).Pairwise (· < ·) := by
  induction numbers with
  | nil => exact List.pairwise_singleton _ i
  | cons n ns ih =>
    obtain ⟨hn, hns⟩ := List.pairwise_cons.1 h
    rw [insertNumber]
    split
    · next hlt =>
      refine List.pairwise_cons.2 ⟨fun j hj => ?_, h⟩
      rcases List.mem_cons.1 hj with hj | hj
      · rw [hj]
        exact hlt
      · exact Nat.lt_trans hlt (hn j hj)
    · split
      · exact h
      · refine List.pairwise_cons.2 ⟨fun j hj => ?_, ih hns⟩
        rcases mem_insertNumber.1 hj with hj | hj
        · omega
        · exact hn j hj

theorem pairwise_mark (c : Circle) {numbers : List Nat} (h : numbers.Pairwise (· < ·)) :
    (c.mark numbers).Pairwise (· < ·) := by
  rw [Circle.mark]
  split
  · exact pairwise_insertNumber h
  · exact h

theorem exists_spot_of_triggered? {spots : List Spot} {position : Coordinate} {c : Circle}
    (hc : triggered? spots position = some c) :
    ∃ (i : Nat) (s : Spot), spots[i]? = some s ∧ c ∈ s.circles := by
  obtain ⟨i, s, hs, hfind, _⟩ := exists_of_triggeredBy? hc
  exact ⟨i, s, hs, List.mem_of_find?_eq_some hfind⟩

/-- What becomes of the visited spots at a moment. -/
inductive Moment.Marks [Player σ] (m : Moment σ) : Prop
  | reset (hreset : m.IsReset) (htriggered : m.turn.session.triggered = [])
  | entered (c : Circle) (hreset : ¬ m.IsReset) (henters : ∀ c', m.Enters c' ↔ c' = c)
    (htriggered : m.turn.session.triggered = c.mark m.session.triggered)
  | other (hreset : ¬ m.IsReset) (henters : ∀ c, ¬ m.Enters c)
    (htriggered : m.turn.session.triggered = m.session.triggered)

section

variable [Player σ] (host : HostAction → σ → σ) (s : Session) (p : σ) (e : Event)

theorem Event.marks : (e.moment host s p).Marks := by
  cases e with
  | host a => exact .other (by rintro (h | h) <;> cases h) (fun _ ⟨_, hr, _⟩ => nomatch hr) rfl
  | call c =>
    cases c with
    | start => exact .reset (Or.inl rfl) rfl
    | stop => exact .reset (Or.inr rfl) rfl
    | clipFinished =>
      have htriggered := congrArg Session.triggered s.session_clipFinished
      exact .other (by rintro (h | h) <;> cases h) (fun _ ⟨_, hr, _⟩ => nomatch hr) htriggered
    | receive r =>
      have hreset : ¬ (Event.moment host s p (.call (.receive r))).IsReset := by
        rintro (h | h) <;> cases h
      obtain ⟨_, _, hsession⟩ := s.session_receive r p
      have htriggered := congrArg Session.triggered hsession
      cases hc : s.entered? r p with
      | none =>
        rw [hc] at htriggered
        refine .other hreset ?_ htriggered
        intro c ⟨r', hr, hc'⟩
        cases hr
        cases hc.symm.trans hc'
      | some c =>
        rw [hc] at htriggered
        refine .entered c hreset (fun c' => ⟨?_, fun h => ?_⟩) htriggered
        · intro ⟨r', hr, hc'⟩
          cases hr
          exact Option.some.inj (hc'.symm.trans hc)
        · rw [h]
          exact ⟨r, rfl, hc⟩

theorem Event.story_turn : (e.turn host s p).session.story = s.story := by
  cases e with
  | host a => rfl
  | call c =>
    cases c with
    | start => rfl
    | receive r =>
      obtain ⟨_, _, hsession⟩ := s.session_receive r p
      have hstory := congrArg Session.story hsession
      exact hstory
    | clipFinished =>
      have hstory := congrArg Session.story s.session_clipFinished
      exact hstory
    | stop => rfl

omit e in
/-- No event exchanges the story. -/
theorem story_chronicle (events : List Event) :
    (chronicle host events s p).session.story = s.story :=
  chronicle_induction (I := fun c => c.session.story = s.story) rfl
    (fun c e hc => (e.story_turn host c.session c.player).trans hc) events

theorem Moment.Enters.exists_spot {m : Moment σ} {c : Circle} (h : m.Enters c) :
    ∃ (i : Nat) (s : Spot), m.session.story.spots[i]? = some s ∧ c ∈ s.circles := by
  obtain ⟨r, _, hc⟩ := h
  exact exists_spot_of_triggered? (Session.entered?_eq_some.1 hc).2.2.2

end

namespace Moment.Marks

variable [Player σ] {m : Moment σ}

/-- A moment adds the spot of the circle it runs, and a reset forgets all. -/
theorem mem_triggered (h : m.Marks) (hlinked : Linked m.session.story.spots) :
    i ∈ m.turn.session.triggered ↔ ¬ m.IsReset ∧
      (i ∈ m.session.triggered ∨ m.EntersSpot m.session.story.spots i) := by
  cases h with
  | reset hreset htriggered => simp [htriggered, hreset]
  | other hreset henters htriggered =>
    have hspot : ¬ m.EntersSpot m.session.story.spots i :=
      fun ⟨_, c, _, _, hc⟩ => henters c hc
    rw [htriggered, and_iff_right hreset, or_iff_left hspot]
  | entered c hreset henters htriggered =>
    rw [htriggered, mem_mark, and_iff_right hreset, or_comm]
    refine or_congr_right ⟨fun hi => ?_, fun ⟨s, c', hs, hmem, hc'⟩ => ?_⟩
    · have hc := (henters c).2 rfl
      obtain ⟨j, s, hs, hmem⟩ := hc.exists_spot
      have hj := hlinked j s hs c hmem
      rw [Option.some.inj (hi.symm.trans hj)]
      exact ⟨s, c, hs, hmem, hc⟩
    · rw [← (henters c').1 hc']
      exact hlinked i s hs c' hmem

theorem ascending (h : m.Marks) (hbefore : m.session.triggered.Pairwise (· < ·)) :
    m.turn.session.triggered.Pairwise (· < ·) := by
  cases h with
  | reset hreset htriggered =>
    rw [htriggered]
    exact .nil
  | other hreset henters htriggered => rwa [htriggered]
  | entered c hreset henters htriggered =>
    rw [htriggered]
    exact pairwise_mark c hbefore

theorem subset (h : m.Marks) (hreset : ¬ m.IsReset) :
    m.session.triggered ⊆ m.turn.session.triggered := by
  cases h with
  | reset hreset' htriggered => exact absurd hreset' hreset
  | other hreset henters htriggered =>
    rw [htriggered]
    exact List.Subset.refl _
  | entered c hreset henters htriggered =>
    rw [htriggered]
    exact fun i hi => mem_mark.2 (Or.inr hi)

theorem exists_added (h : m.Marks) :
    ∃ i, ∀ j ∈ m.turn.session.triggered, j ∈ m.session.triggered ∨ j = i := by
  cases h with
  | reset hreset htriggered =>
    rw [htriggered]
    exact ⟨0, List.forall_mem_nil _⟩
  | other hreset henters htriggered =>
    rw [htriggered]
    exact ⟨0, fun j hj => Or.inl hj⟩
  | entered c hreset henters htriggered =>
    rw [htriggered]
    refine ⟨c.spot?.getD 0, fun j hj => ?_⟩
    rcases mem_mark.1 hj with hj | hj
    · rw [hj]
      exact Or.inr rfl
    · exact Or.inl hj

end Moment.Marks

/-! ## The last reading -/

/-- What becomes of the tracker at a moment. -/
inductive Moment.Tracks (m : Moment σ) : Prop
  | start (hstart : m.IsStart) (htracker : m.turn.session.tracker = m.session.tracker.reset)
  | stop (hstatus : m.turn.session.status ≠ .running)
    (htracker : m.turn.session.tracker = m.session.tracker.reset)
  | hears (r : Reading) (hstart : ¬ m.IsStart) (hhears : m.Hears r)
    (htracker : m.turn.session.tracker = (m.session.tracker.record r).2)
  | quiet (hstart : ¬ m.IsStart) (hnone : ∀ r, ¬ m.Hears r)
    (hstatus : m.turn.session.status = .running → m.session.status = .running)
    (htracker : m.turn.session.tracker = m.session.tracker)

theorem Event.tracks [Player σ] (host : HostAction → σ → σ) (s : Session) (p : σ) (e : Event) :
    (e.moment host s p).Tracks := by
  cases e with
  | host a => exact .quiet nofun (fun _ h => nomatch h.1) id rfl
  | call c =>
    cases c with
    | start => exact .start rfl rfl
    | stop => exact .stop nofun rfl
    | clipFinished =>
      have htracker := congrArg Session.tracker s.session_clipFinished
      have hstatus := congrArg Session.status s.session_clipFinished
      refine .quiet nofun (fun _ h => nomatch h.1) (fun hafter => ?_) htracker
      have hrunning := hstatus.symm.trans hafter
      dsimp only at hrunning
      split at hrunning
      · cases hrunning
      · exact hrunning
    | receive r =>
      by_cases hrunning : s.status = .running
      · obtain ⟨_, _, hsession⟩ := s.session_receive r p
        refine .hears r nofun ⟨rfl, hrunning⟩ ?_
        show (s.receive r p).session.tracker = _
        rw [hsession, if_pos hrunning]
        rfl
      · have hsame : (s.receive r p).session = s :=
          congrArg Turn.session (Session.receive_of_not_running hrunning r p)
        refine .quiet nofun (fun _ h => hrunning h.2) (fun hafter => ?_)
          (congrArg Session.tracker hsame)
        exact (congrArg Session.status hsame).symm.trans hafter

theorem Moment.Hears.unique {r' : Reading} (h : m.Hears r) (h' : m.Hears r') : r = r' := by
  cases h.1.symm.trans h'.1
  rfl

/-- While somebody walks, the tracker has the last reading since the start. -/
theorem Moment.Tracks.last? (h : m.Tracks) (hs : m.turn.session.status = .running) :
    m.turn.session.tracker.last? = some r ↔
      ¬ m.IsStart ∧ (m.Hears r ∨ (∀ r', ¬ m.Hears r') ∧ m.session.tracker.last? = some r) := by
  cases h with
  | start hstart htracker =>
    rw [htracker]
    exact ⟨nofun, fun h => absurd hstart h.1⟩
  | stop hstatus htracker => exact absurd hs hstatus
  | hears r' hstart hhears htracker =>
    rw [htracker, and_iff_right hstart, or_iff_left fun h => h.1 r' hhears]
    constructor
    · intro h
      rw [← Option.some.inj h]
      exact hhears
    · intro h
      rw [h.unique hhears]
      rfl
  | quiet hstart hnone hstatus htracker =>
    rw [htracker, and_iff_right hstart, or_iff_right (hnone r), and_iff_right hnone]

/-! ## What a chronicle keeps -/

/-- The session has kept what the moments say. -/
structure Chronicle.Keeps [Player σ] (story : Story) (c : Chronicle σ) : Prop where
  same : c.session.story = story
  triggered : ∀ i, i ∈ c.session.triggered ↔ Visited story.spots c.moments i
  ascending : c.session.triggered.Pairwise (· < ·)
  heard : c.session.status = .running →
    ∀ r, c.session.tracker.last? = some r ↔ LastHeard c.moments r

section

variable [Player σ] {host : HostAction → σ → σ} {story : Story} {c : Chronicle σ}

theorem keeps_new (story : Story) (warmUpReadings : UInt32) (p : σ) :
    (⟨[], Session.new story warmUpReadings, p⟩ : Chronicle σ).Keeps story where
  same := rfl
  triggered _ := ⟨nofun, fun ⟨_, _, hlast, _⟩ => absurd hlast not_lastWith_nil⟩
  ascending := .nil
  heard := nofun

theorem Chronicle.Keeps.add (hc : c.Keeps story) (hlinked : Linked story.spots)
    (htallies : c.Tallies) (e : Event) : (c.add host e).Keeps story := by
  have hmarks := e.marks host c.session c.player
  have hturns := e.turns host c.session c.player
  obtain ⟨hsame, htriggered, hascending, hheard⟩ := hc
  constructor
  · exact (e.story_turn host c.session c.player).trans hsame
  · intro i
    have hlinked' : Linked c.session.story.spots := by rwa [hsame]
    refine (hmarks.mem_triggered hlinked').trans ?_
    rw [Chronicle.add, visited_concat, ← htriggered]
    show _ ∧ (_ ∨ (e.moment host c.session c.player).EntersSpot c.session.story.spots i) ↔ _
    rw [hsame]
    refine and_congr_right fun _ => or_congr_right (iff_and_self.2 ?_)
    -- A circle runs in a walk only, so there is a start in front of it.
    rintro ⟨_, _, _, _, r, _, hc'⟩
    exact (htallies.running.1 (Session.entered?_eq_some.1 hc').1).exists_start.2
  · exact hmarks.ascending hascending
  · intro hrunning r
    refine ((e.tracks host c.session c.player).last? hrunning).trans ?_
    rw [Chronicle.add, lastHeard_concat]
    refine and_congr_right fun hstart => ?_
    rcases hturns.running_iff.1 hrunning with h | ⟨_, _, hbefore⟩
    · exact absurd h hstart
    · rw [and_iff_left (htallies.running.1 hbefore).exists_start.1]
      exact or_congr_right (and_congr_right fun _ => hheard hbefore r)

theorem keeps_chronicle (hlinked : Linked story.spots) (host : HostAction → σ → σ)
    (warmUpReadings : UInt32) (p : σ) (events : List Event) :
    (chronicle host events (Session.new story warmUpReadings) p).Keeps story := by
  have hboth : (chronicle host events (Session.new story warmUpReadings) p).Tallies ∧
      (chronicle host events (Session.new story warmUpReadings) p).Keeps story :=
    chronicle_induction (I := fun c => c.Tallies ∧ c.Keeps story)
      ⟨tallies_new story warmUpReadings p, keeps_new story warmUpReadings p⟩
      (fun _ e ⟨htallies, hkeeps⟩ => ⟨htallies.add e, hkeeps.add hlinked htallies e⟩) events
  exact hboth.2

end

/-! ## What is told of the nearest spot -/

theorem Session.tellsNearest {s : Session} {told? : Option Coordinate}
    (h : .nearestUntriggered told? = s.nearestUntriggered) :
    TellsNearest s.story.spots (· ∈ s.triggered) (fun r => s.tracker.last? = some r) told? := by
  have htold := Effect.nearestUntriggered.inj h
  cases hlast : s.tracker.last? with
  | none =>
    rw [hlast, Option.bind_none] at htold
    rw [htold]
    exact ⟨⟨fun _ => Or.inr nofun, fun _ => rfl⟩, nofun⟩
  | some r =>
    rw [hlast, Option.bind_some, nearest?] at htold
    rw [htold]
    constructor
    · rw [Option.map_eq_none_iff, nearestBy?_eq_none_iff, or_iff_left fun h => h r rfl]
      simp only [List.contains_iff_mem]
    · intro center hcenter
      obtain ⟨⟨i, spot⟩, hfound, hcenter⟩ := Option.map_eq_some_iff.1 hcenter
      obtain ⟨hat, hvisited⟩ := eligible_of_nearestBy? hfound
      refine ⟨i, spot, hat, by simpa using hvisited, hcenter.symm, ?_⟩
      intro r' hr' hdefined j s' hs' hj
      rw [← Option.some.inj hr'] at hdefined ⊢
      have hall : AllDefined (fun t => haversine t.center r.coordinate) s.story.spots
          s.triggered.contains := by
        intro k s'' ⟨hs'', hk⟩
        exact hdefined k s'' hs'' (by simpa using hk)
      have hnearest := firstNearest_of_nearestBy? hall hfound
      exact float_not_lt_of_le (hnearest.least j s' ⟨hs', by simpa using hj⟩)

/-- Something is told of the nearest spot at two kinds of moments: a reading that
is the first one to be used, and the end of a clip. -/
theorem Event.nearestUntriggered_turn [Player σ] {host : HostAction → σ → σ} {s : Session} {p : σ}
    {e : Event} {told? : Option Coordinate}
    (h : .nearestUntriggered told? ∈ (e.turn host s p).effects) :
    s.status = .running ∧
      ((∃ r, e = .call (.receive r) ∧ .nearestUntriggered told? = (s.heard r).nearestUntriggered) ∨
        e = .call .clipFinished ∧ .nearestUntriggered told? = s.nearestUntriggered) := by
  have huntold : ∀ x : Statement, ¬ x.Tells (.nearestUntriggered told?) := nofun
  obtain ⟨hs, hcases⟩ := Event.turn_tells huntold h
  refine ⟨hs, ?_⟩
  rcases hcases with ⟨r, he, htold⟩ | ⟨he, htold⟩
  · refine Or.inl ⟨r, he, ?_⟩
    unfold Session.announcement Session.announce at htold
    split at htold
    · rcases List.mem_cons.1 htold with htold | htold
      · cases htold
      · exact List.mem_singleton.1 htold
    · cases htold
  · exact Or.inr ⟨he, htold⟩

/-- What is told of the nearest spot is right by what had been visited before and
has been heard up to now. -/
theorem Chronicle.Keeps.tellsNearest [Player σ] {host : HostAction → σ → σ} {story : Story}
    {c : Chronicle σ} (hc : c.Keeps story) (htallies : c.Tallies) {e : Event}
    {told? : Option Coordinate}
    (htold : .nearestUntriggered told? ∈ (e.turn host c.session c.player).effects) :
    TellsNearest story.spots (Visited story.spots c.moments) (LastHeard (c.add host e).moments)
      told? := by
  obtain ⟨hrunning, hcases⟩ := Event.nearestUntriggered_turn htold
  have hstarted := (htallies.running.1 hrunning).exists_start.1
  have hvisited : (· ∈ c.session.triggered) = Visited story.spots c.moments :=
    funext fun i => propext (hc.triggered i)
  rcases hcases with ⟨r, he, hnearest⟩ | ⟨he, hnearest⟩
  · have hheard : (fun r' => some r = some r') = LastHeard (c.add host e).moments := by
      have hhears : (e.moment host c.session c.player).Hears r := ⟨he, hrunning⟩
      have hstart : ¬ (e.moment host c.session c.player).IsStart := by
        intro h
        cases he.symm.trans h
      funext r'
      rw [Chronicle.add, lastHeard_concat, and_iff_right hstart, and_iff_left hstarted,
        or_iff_left fun h => h.1 r hhears]
      refine propext ⟨fun h => ?_, fun h => ?_⟩
      · rw [← Option.some.inj h]
        exact hhears
      · cases he.symm.trans h.1
        rfl
    have htells : TellsNearest c.session.story.spots (· ∈ c.session.triggered)
        (fun r' => some r = some r') told? := Session.tellsNearest hnearest
    rwa [hc.same, hvisited, hheard] at htells
  · have hheard : (fun r => c.session.tracker.last? = some r) =
        LastHeard (c.add host e).moments := by
      have hquiet : ∀ r, ¬ (e.moment host c.session c.player).Hears r := by
        intro r h
        cases he.symm.trans h.1
      have hstart : ¬ (e.moment host c.session c.player).IsStart := by
        intro h
        cases he.symm.trans h
      funext r
      rw [Chronicle.add, lastHeard_concat, and_iff_right hstart, and_iff_right hquiet,
        or_iff_right fun h => hquiet r h.1, hc.heard hrunning]
    have htells := Session.tellsNearest hnearest
    rwa [hc.same, hvisited, hheard] at htells

/-- In every run of a story, the spots that a session has kept are those visited
since the last start or stop, that is, those of which a reading has run a circle
(`Moment.Enters`); only a reset forgets any, and an event adds one at most.  And
whatever is told of the nearest spot is right by what has been visited before that
moment and heard up to it. -/
theorem visits_by_history [Player σ] (host : HostAction → σ → σ) (title folder : String)
    (introClip? : Option String) (introText : String) (init : List Statement) (spots : List Spot)
    (warmUpReadings : UInt32) (p : σ) (events : List Event) :
    let story := Story.of title folder introClip? introText init spots
    let c := chronicle host events (Session.new story warmUpReadings) p
    (∀ i, i ∈ c.session.triggered ↔ Visited story.spots c.moments i) ∧
    c.session.triggered.Pairwise (· < ·) ∧
    ∀ e : Event, let m := e.moment host c.session c.player
      (¬ m.IsReset → c.session.triggered ⊆ m.turn.session.triggered) ∧
      (∃ i, ∀ j ∈ m.turn.session.triggered, j ∈ c.session.triggered ∨ j = i) ∧
      ∀ told?, .nearestUntriggered told? ∈ m.turn.effects →
        TellsNearest story.spots (Visited story.spots c.moments) (LastHeard (c.moments ++ [m]))
          told? := by
  intro story c
  have hlinked : Linked story.spots := linked_of title folder introClip? introText init spots
  have hkeeps : c.Keeps story := keeps_chronicle hlinked host warmUpReadings p events
  have htallies : c.Tallies := tallies_chronicle host story warmUpReadings p events
  refine ⟨hkeeps.triggered, hkeeps.ascending, fun e => ?_⟩
  have hmarks := e.marks host c.session c.player
  exact ⟨hmarks.subset, hmarks.exists_added, fun told? htold => hkeeps.tellsNearest htallies htold⟩

end
end AudioWalk
