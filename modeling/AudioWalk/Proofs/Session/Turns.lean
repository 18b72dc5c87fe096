import AudioWalk.Proofs.Script.Runs
import AudioWalk.Session.Basic

/-!
# Turns of a session

What a session does with one event, said once.  `effects_start` and
`effects_run` give the effects of the two turns that run a script, whether the
script came to its end, met a busy player or failed.  `Session.received` lists
the five things that can become of a reading, each with the gate that decides
for it; no other module opens `Session.receive`.
-/

namespace AudioWalk

/-- The effects that reach the host, those that an interruption carries
included. -/
def effectsOf : Except Failure (List Effect) → List Effect
  | .ok effects => effects
  | .error (.interrupted effects _) => effects
  | .error _ => []

@[simp]
theorem effectsOf_answer (effects : List Effect) (completion : Completion) :
    effectsOf (answer effects completion) = effects := by
  cases completion <;> rfl

/-- A script that ran is answered in one of two ways. -/
theorem answer_cases (effects : List Effect) (completion : Completion) :
    answer effects completion = .ok effects ∨
      ∃ cause, answer effects completion = .error (.interrupted effects cause) := by
  cases completion with
  | completed => exact Or.inl rfl
  | alreadyPlaying => exact Or.inl rfl
  | failed cause => exact Or.inr ⟨cause, rfl⟩

theorem answer_of_not_failed {effects : List Effect} {completion : Completion}
    (h : ∀ cause, completion ≠ .failed cause) : answer effects completion = .ok effects := by
  cases completion with
  | completed => rfl
  | alreadyPlaying => rfl
  | failed cause => exact absurd rfl (h cause)

namespace Turn

variable {σ τ : Type}

def effects (t : Turn σ) : List Effect := effectsOf t.result

def mapPlayer (f : σ → τ) (t : Turn σ) : Turn τ := ⟨t.result, t.session, f t.player⟩

end Turn

@[simp]
theorem Story.requests_introDisplay (s : Story) : Effect.requests s.introDisplay = [] := by
  unfold Story.introDisplay
  split
  · rfl
  · exact Effect.requests_display s.introText

/-- Some numbers with that of the circle's spot among them. -/
def Circle.mark (c : Circle) (numbers : List Nat) : List Nat :=
  match c.spot? with
  | some index => insertNumber index numbers
  | none => numbers

namespace Session

/-- The session once it has taken note of a reading. -/
def heard (s : Session) (r : Reading) : Session := { s with tracker := (s.tracker.record r).2 }

/-- What a reading counts as. -/
def fix (s : Session) (r : Reading) : Fix := (s.tracker.record r).1

/-- What a reading has to tell before positions are matched. -/
def announcement (s : Session) (r : Reading) : List Effect := (s.heard r).announce (s.fix r)

@[simp]
theorem requests_announcement (s : Session) (r : Reading) :
    Effect.requests (s.announcement r) = [] := by
  unfold announcement announce
  split <;> rfl

theorem visit_eq (s : Session) (c : Circle) :
    s.visit c = { s with triggered := c.mark s.triggered } := by
  unfold visit Circle.mark
  cases c.spot? with
  | none => rfl
  | some index => rfl

variable {σ τ : Type} [Player σ] [Player τ]

/-! ## Starting -/

theorem result_start (s : Session) (p : σ) :
    (s.start p).result =
      answer ((execute none s.story.opening .empty p).effects ++ s.story.introDisplay)
        (execute none s.story.opening .empty p).completion := rfl

theorem effects_start (s : Session) (p : σ) :
    (s.start p).effects =
      (execute none s.story.opening .empty p).effects ++ s.story.introDisplay :=
  effectsOf_answer _ _

theorem player_start (s : Session) (p : σ) :
    (s.start p).player = (execute none s.story.opening .empty p).player := rfl

theorem session_start (s : Session) (p : σ) :
    (s.start p).session =
      { s.reset with
        store := (execute none s.story.opening .empty p).store
        status := .running } := rfl

theorem start_map {f : σ → τ} (hf : PlayerMap f) (s : Session) (p : σ) :
    s.start (f p) = (s.start p).mapPlayer f := by
  simp only [start, execute_map hf]
  rfl

/-! ## Running a circle -/

theorem result_run (s : Session) (c : Circle) (earlier : List Effect) (p : σ) :
    (s.run c earlier p).result =
      answer (earlier ++ (execute c.title? c.statements s.store p).effects)
        (execute c.title? c.statements s.store p).completion := by
  unfold run
  extract_lets o s' result
  split <;> rfl

theorem effects_run (s : Session) (c : Circle) (earlier : List Effect) (p : σ) :
    (s.run c earlier p).effects =
      earlier ++ (execute c.title? c.statements s.store p).effects := by
  rw [Turn.effects, result_run]
  exact effectsOf_answer _ _

/-- The player is asked once more where the story has come to its end. -/
theorem player_run (s : Session) (c : Circle) (earlier : List Effect) (p : σ) :
    (s.run c earlier p).player =
      let o := execute c.title? c.statements s.store p
      if o.reachedEnd then Player.elapse o.player else o.player := by
  unfold run
  extract_lets o s' result
  split <;> rfl

/-- The session behind a circle.  The status changes only where the end was
reached, and then the player decides. -/
theorem session_run (s : Session) (c : Circle) (earlier : List Effect) (p : σ) :
    (s.run c earlier p).session =
      let o := execute c.title? c.statements s.store p
      { s with
        store := o.store
        triggered := c.mark s.triggered
        status :=
          if o.reachedEnd then
            if isPlaying (s.run c earlier p).player then .ending else .finished
          else s.status } := by
  rw [player_run]
  unfold run
  extract_lets o s' result
  have hs' : s' = { s with store := o.store, triggered := c.mark s.triggered } := visit_eq _ c
  rw [hs']
  split
  · rfl
  · rfl

theorem run_map {f : σ → τ} (hf : PlayerMap f) (s : Session) (c : Circle) (earlier : List Effect)
    (p : σ) : s.run c earlier (f p) = (s.run c earlier p).mapPlayer f := by
  simp only [run, execute_map hf, Outcome.mapPlayer, Outcome.reachedEnd]
  generalize execute c.title? c.statements s.store p = o
  by_cases hend : o.effects.any Effect.isEndOfStory = true
  · simp only [hend, if_true, hf.elapse, hf.isPlaying]
    rfl
  · simp only [hend, if_false, Bool.false_eq_true]
    rfl

/-! ## Taking a reading -/

/-- What can become of a reading. -/
inductive Received (s : Session) (r : Reading) (p : σ) : Turn σ → Prop
  /-- Nobody walks. -/
  | ignored (hstatus : s.status ≠ .running) : Received s r p ⟨.ok [], s, p⟩
  | heldBack (hstatus : s.status = .running) (hfix : s.fix r = .warmingUp) :
    Received s r p ⟨.ok [], s.heard r, p⟩
  /-- A clip is playing. -/
  | unmatched (hstatus : s.status = .running) (hfix : s.fix r ≠ .warmingUp)
    (hbusy : isPlaying (Player.elapse p) = true) :
    Received s r p ⟨.ok (s.announcement r), s.heard r, Player.elapse p⟩
  /-- No circle holds the position. -/
  | outside (hstatus : s.status = .running) (hfix : s.fix r ≠ .warmingUp)
    (hidle : isPlaying (Player.elapse p) = false)
    (hnone : triggered? s.story.spots r.coordinate = none) :
    Received s r p ⟨.ok (s.announcement r), s.heard r, Player.elapse p⟩
  | entered (c : Circle) (hstatus : s.status = .running) (hfix : s.fix r ≠ .warmingUp)
    (hidle : isPlaying (Player.elapse p) = false)
    (hcircle : triggered? s.story.spots r.coordinate = some c) :
    Received s r p ((s.heard r).run c (s.announcement r) (Player.elapse p))

theorem received (s : Session) (r : Reading) (p : σ) : Received s r p (s.receive r p) := by
  have husable : (s.fix r).isUsable = true ↔ s.fix r ≠ .warmingUp := by
    cases s.fix r <;> simp [Fix.isUsable]
  unfold receive
  by_cases hstatus : s.status = .running
  · rw [if_pos hstatus]
    by_cases hfix : s.fix r = .warmingUp
    · have hheld : ((s.tracker.record r).1.isUsable) = false := by
        rw [← fix, hfix]
        rfl
      simp only [hheld, Bool.false_eq_true, if_false]
      exact .heldBack hstatus hfix
    · have hshown : ((s.tracker.record r).1.isUsable) = true := husable.2 hfix
      simp only [hshown, if_true]
      cases hbusy : isPlaying (Player.elapse p) with
      | true => exact .unmatched hstatus hfix hbusy
      | false =>
        simp only [Bool.false_eq_true, if_false]
        split
        · next hnone => exact .outside hstatus hfix hbusy hnone
        · next c hcircle => exact .entered c hstatus hfix hbusy hcircle
  · rw [if_neg hstatus]
    exact .ignored hstatus

/-- The circle that a reading runs, if it runs one. -/
def entered? (s : Session) (r : Reading) (p : σ) : Option Circle :=
  if s.status = .running ∧ s.fix r ≠ .warmingUp ∧ isPlaying (Player.elapse p) = false then
    triggered? s.story.spots r.coordinate
  else none

theorem entered?_eq_some {s : Session} {r : Reading} {p : σ} {c : Circle} :
    s.entered? r p = some c ↔ s.status = .running ∧ s.fix r ≠ .warmingUp ∧
      isPlaying (Player.elapse p) = false ∧ triggered? s.story.spots r.coordinate = some c := by
  rw [entered?, Option.ite_none_right_eq_some]
  simp only [and_assoc]

theorem receive_of_entered {s : Session} {r : Reading} {p : σ} {c : Circle}
    (hc : s.entered? r p = some c) :
    s.receive r p = (s.heard r).run c (s.announcement r) (Player.elapse p) := by
  obtain ⟨hrunning, hfix, hidle, hcircle⟩ := entered?_eq_some.1 hc
  have h := s.received r p
  generalize s.receive r p = t at h ⊢
  cases h with
  | ignored hstatus => exact absurd hrunning hstatus
  | heldBack hstatus hwarming => exact absurd hwarming hfix
  | unmatched hstatus hfix hbusy => exact absurd (hidle.symm.trans hbusy) Bool.false_ne_true
  | outside hstatus hfix hidle hnone => exact absurd (hnone.symm.trans hcircle) nofun
  | entered c' hstatus hfix hidle hcircle' =>
    rw [Option.some.inj (hcircle'.symm.trans hcircle)]

/-- A reading that runs no circle is heard, if somebody walks, and nothing else
comes of it. -/
theorem receive_of_not_entered {s : Session} {r : Reading} {p : σ}
    (hnone : s.entered? r p = none) :
    (s.receive r p).session = (if s.status = .running then s.heard r else s) ∧
      (s.receive r p).effects = if s.status = .running then s.announcement r else [] := by
  have h := s.received r p
  generalize s.receive r p = t at h ⊢
  cases h with
  | ignored hstatus =>
    rw [if_neg hstatus, if_neg hstatus]
    exact ⟨rfl, rfl⟩
  | heldBack hstatus hfix =>
    have hquiet : s.announcement r = [] := by
      rw [announcement, hfix]
      rfl
    rw [if_pos hstatus, if_pos hstatus, hquiet]
    exact ⟨rfl, rfl⟩
  | unmatched hstatus hfix hbusy =>
    rw [if_pos hstatus, if_pos hstatus]
    exact ⟨rfl, rfl⟩
  | outside hstatus hfix hidle hnone =>
    rw [if_pos hstatus, if_pos hstatus]
    exact ⟨rfl, rfl⟩
  | entered c hstatus hfix hidle hcircle =>
    have hsome := entered?_eq_some.2 ⟨hstatus, hfix, hidle, hcircle⟩
    exact absurd (hnone.symm.trans hsome) nofun

theorem result_of_not_entered {s : Session} {r : Reading} {p : σ} (hnone : s.entered? r p = none) :
    (s.receive r p).result = .ok (s.receive r p).effects := by
  have h := s.received r p
  generalize s.receive r p = t at h ⊢
  cases h with
  | ignored hstatus => rfl
  | heldBack hstatus hfix => rfl
  | unmatched hstatus hfix hbusy => rfl
  | outside hstatus hfix hidle hnone => rfl
  | entered c hstatus hfix hidle hcircle =>
    have hsome := entered?_eq_some.2 ⟨hstatus, hfix, hidle, hcircle⟩
    exact absurd (hnone.symm.trans hsome) nofun

/-- A reading changes the tracker if somebody walks, and the spots if it runs a
circle.  It never changes the story. -/
theorem session_receive (s : Session) (r : Reading) (p : σ) :
    ∃ store status, (s.receive r p).session =
      { s with
        store
        status
        tracker := if s.status = .running then (s.tracker.record r).2 else s.tracker
        triggered :=
          match s.entered? r p with
          | some c => c.mark s.triggered
          | none => s.triggered } := by
  cases hc : s.entered? r p with
  | none =>
    refine ⟨s.store, s.status, ?_⟩
    rw [(receive_of_not_entered hc).1]
    split
    · rfl
    · rfl
  | some c =>
    rw [receive_of_entered hc, session_run, if_pos (entered?_eq_some.1 hc).1]
    exact ⟨_, _, rfl⟩

omit [Player σ] in
theorem session_clipFinished (s : Session) :
    s.clipFinished.2 =
      { s with status := if s.status = .ending then .finished else s.status } := by
  obtain ⟨story, store, tracker, triggered, status⟩ := s
  cases status <;> rfl

theorem receive_map {f : σ → τ} (hf : PlayerMap f) (s : Session) (r : Reading) (p : σ) :
    s.receive r (f p) = (s.receive r p).mapPlayer f := by
  simp only [receive, hf.elapse, hf.isPlaying]
  split
  · split
    · split
      · rfl
      · split
        · rfl
        · exact run_map hf _ _ _ _
    · rfl
  · rfl

end Session
end AudioWalk
