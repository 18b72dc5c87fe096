import AudioWalk.Proofs.Script.Reached
import AudioWalk.Proofs.Session.Turns

/-!
# Histories

A host calls a session and works its player in between, in any order.  A history
is the list of the turns that a list of such events leads to, one for each event;
what the host does by itself is a turn without effects.

The host's own actions are a parameter, so that a history can be told over any
type of players; `history_map` compares two of them.
-/

namespace AudioWalk

/-- What a host asks of a session. -/
inductive Call where
  | start
  | receive (r : Reading)
  | clipFinished
  | stop

/-- What a host does to a player of its own accord. -/
inductive HostAction where
  | finish
  | request (clip : String) (volume : Float32)

inductive Event where
  | call (c : Call)
  | host (a : HostAction)

def Playback.host : HostAction → Playback → Playback
  | .finish, p => p.finish.2
  | .request clip volume, p => Player.request p clip volume

section

variable {σ τ : Type} [Player σ] [Player τ]

def Session.call (s : Session) (p : σ) : Call → Turn σ
  | .start => s.start p
  | .receive r => s.receive r p
  | .clipFinished => ⟨.ok s.clipFinished.1, s.clipFinished.2, p⟩
  | .stop => ⟨.ok [], s.stop, p⟩

def Event.turn (host : HostAction → σ → σ) (s : Session) (p : σ) : Event → Turn σ
  | .call c => s.call p c
  | .host a => ⟨.ok [], s, host a p⟩

def history (host : HostAction → σ → σ) : List Event → Session → σ → List (Turn σ)
  | [], _, _ => []
  | e :: es, s, p =>
    e.turn host s p :: history host es (e.turn host s p).session (e.turn host s p).player

@[simp]
theorem Session.requests_clipFinished (s : Session) :
    Effect.requests s.clipFinished.1 = [] := by
  unfold clipFinished
  split <;> rfl

theorem Session.call_map {f : σ → τ} (hf : PlayerMap f) (s : Session) (p : σ) (c : Call) :
    s.call (f p) c = (s.call p c).mapPlayer f := by
  cases c with
  | start => exact start_map hf s p
  | receive r => exact receive_map hf s r p
  | clipFinished => rfl
  | stop => rfl

/-! ## Laws of calls -/

namespace EffectLaw

variable {R : σ → List Effect → σ → Prop}

theorem start (law : EffectLaw R) (s : Session) (p : σ) :
    R p (s.start p).effects (s.start p).player := by
  rw [Session.effects_start, Session.player_start]
  exact law.append (law.execute none s.story.opening .empty p)
    (law.quiet _ (Story.requests_introDisplay s.story))

theorem run (law : EffectLaw R) (s : Session) (c : Circle) {earlier : List Effect}
    (hearlier : Effect.requests earlier = []) (p : σ) :
    R p (s.run c earlier p).effects (s.run c earlier p).player := by
  have hexecuted := law.append (law.quiet p hearlier)
    (law.execute c.title? c.statements s.store p)
  rw [Session.effects_run, Session.player_run]
  dsimp only
  split
  · have helapsed := law.append hexecuted (law.elapse _)
    rwa [List.append_nil] at helapsed
  · exact hexecuted

theorem receive (law : EffectLaw R) (s : Session) (r : Reading) (p : σ) :
    R p (s.receive r p).effects (s.receive r p).player := by
  have hannounced := s.requests_announcement r
  have hunmatched : R p (s.announcement r) (Player.elapse p) :=
    law.append (law.elapse p) (law.quiet (Player.elapse p) hannounced)
  have h := s.received r p
  generalize s.receive r p = t at h ⊢
  cases h with
  | ignored hstatus => exact law.quiet p rfl
  | heldBack hstatus hfix => exact law.quiet p rfl
  | unmatched hstatus hfix hbusy => exact hunmatched
  | outside hstatus hfix hidle hnone => exact hunmatched
  | entered c hstatus hfix hidle hcircle =>
    exact law.append (law.elapse p) (law.run _ c hannounced (Player.elapse p))

/-- A law of the operations of a player is a law of what a session asks of it. -/
theorem call (law : EffectLaw R) (s : Session) (p : σ) (c : Call) :
    R p (s.call p c).effects (s.call p c).player := by
  cases c with
  | start => exact law.start s p
  | receive r => exact law.receive s r p
  | clipFinished => exact law.quiet p (Session.requests_clipFinished s)
  | stop => exact law.quiet p rfl

end EffectLaw

/-! ## What is told -/

/-- A reading is answered with the announcement, if somebody walks, and then with
what the statements of a circle tell. -/
theorem Session.effects_receive (s : Session) (r : Reading) (p : σ) :
    ∃ told, (s.receive r p).effects =
        (if s.status = .running then s.announcement r else []) ++ told ∧
      ∀ e ∈ told, ∃ x : Statement, x.Tells e := by
  cases hc : s.entered? r p with
  | none =>
    rw [(receive_of_not_entered hc).2]
    exact ⟨[], (List.append_nil _).symm, List.forall_mem_nil _⟩
  | some c =>
    rw [receive_of_entered hc, effects_run, if_pos (entered?_eq_some.1 hc).1]
    refine ⟨_, rfl, fun e he => ?_⟩
    obtain ⟨_, _, x, _, htells⟩ := Statement.mem_effects_execute he
    exact ⟨x, htells⟩

/-- What no statement tells comes from the session: in front of a circle, or at
the end of a clip. -/
theorem Event.turn_tells {host : HostAction → σ → σ} {s : Session} {p : σ} {e : Event}
    {effect : Effect} (huntold : ∀ x : Statement, ¬ x.Tells effect)
    (h : effect ∈ (e.turn host s p).effects) :
    s.status = .running ∧ ((∃ r, e = .call (.receive r) ∧ effect ∈ s.announcement r) ∨
      e = .call .clipFinished ∧ effect = s.nearestUntriggered) := by
  cases e with
  | host a => cases h
  | call c =>
    cases c with
    | start =>
      have hstart : effect ∈ (s.start p).effects := h
      rw [Session.effects_start, List.mem_append] at hstart
      rcases hstart with hscript | hdisplay
      · obtain ⟨_, _, x, _, htells⟩ := Statement.mem_effects_execute hscript
        exact absurd htells (huntold x)
      · rw [Story.introDisplay] at hdisplay
        split at hdisplay
        · cases hdisplay
        · have htext := Statement.eq_displayText_of_mem_display hdisplay
          rw [htext] at huntold
          exact absurd (.text "" "" 0 _) (huntold _)
    | stop => cases h
    | clipFinished =>
      have hfinished : effect ∈ s.clipFinished.1 := h
      unfold Session.clipFinished at hfinished
      split at hfinished
      · cases hfinished
      · next hs => exact ⟨hs, Or.inr ⟨rfl, List.mem_singleton.1 hfinished⟩⟩
      · cases hfinished
      · cases hfinished
    | receive r =>
      have hreceive : effect ∈ (s.receive r p).effects := h
      obtain ⟨told, heffects, htold⟩ := s.effects_receive r p
      rw [heffects, List.mem_append] at hreceive
      rcases hreceive with hannounced | hscript
      · split at hannounced
        · next hs => exact ⟨hs, Or.inl ⟨r, rfl, hannounced⟩⟩
        · cases hannounced
      · obtain ⟨x, htells⟩ := htold effect hscript
        exact absurd htells (huntold x)

/-! ## Laws of histories -/

variable {host : HostAction → σ → σ} {host' : HostAction → τ → τ}

theorem Event.turn_map {f : σ → τ} (hf : PlayerMap f) (hhost : ∀ a p, host' a (f p) = f (host a p))
    (s : Session) (p : σ) (e : Event) : e.turn host' s (f p) = (e.turn host s p).mapPlayer f := by
  cases e with
  | call c => exact s.call_map hf p c
  | host a =>
    simp only [Event.turn, hhost]
    rfl

/-- The history on the image of a player is the image of the history. -/
theorem history_map {f : σ → τ} (hf : PlayerMap f) (hhost : ∀ a p, host' a (f p) = f (host a p))
    (events : List Event) (s : Session) (p : σ) :
    history host' events s (f p) = (history host events s p).map (Turn.mapPlayer f) := by
  induction events generalizing s p with
  | nil => rfl
  | cons e es ih =>
    simp only [history, Event.turn_map hf hhost, List.map_cons]
    congr 1
    exact ih _ _

/-- What every single turn keeps of the player, and what it shows on top, holds
of every turn of a history. -/
theorem history_forall {I : σ → Prop} {Q : Turn σ → Prop}
    (hturn : ∀ e s p, I p → I (Event.turn host s p e).player ∧ Q (Event.turn host s p e))
    (events : List Event) (s : Session) (p : σ) (hp : I p) :
    ∀ t ∈ history host events s p, Q t := by
  induction events generalizing s p with
  | nil => exact fun t ht => absurd ht List.not_mem_nil
  | cons e es ih =>
    obtain ⟨hnext, hQ⟩ := hturn e s p hp
    intro t ht
    rcases List.mem_cons.1 ht with rfl | ht
    · exact hQ
    · exact ih _ _ hnext t ht

end
end AudioWalk
