import AudioWalk.Proofs.Session.History

/-!
# Delivery of requests

The requests that a player receives while a script or a session has the word are
the requests among the effects the host is told of, in the same order, and none
is missing where a run is cut short or fails.  The player is an arbitrary one and
keeps a record beside its state; the record changes nothing about the run.
-/

namespace AudioWalk

variable {σ : Type} [Player σ]

/-- What is put into the record of a player is what the effects say. -/
theorem recorded_law : EffectLaw fun (p : Recorded σ) effects (q : Recorded σ) =>
    q.requests = p.requests ++ Effect.requests effects where
  quiet p _ h := by rw [h, List.append_nil]
  elapse p := (List.append_nil p.requests).symm
  request _ h := by
    rw [h]
    rfl
  append hp hq := by rw [hq, hp, Effect.requests_append, List.append_assoc]

/-! ## Turns -/

/-- The effects of a turn are its result, or are carried by an interruption; no
other failure holds effects back. -/
def Turn.Answered {σ : Type} (t : Turn σ) : Prop :=
  t.result = .ok t.effects ∨ ∃ cause, t.result = .error (.interrupted t.effects cause)

/-- A turn of a session whose player kept a record, beside the same turn without
one. -/
structure Delivered (earlier : List (String × Float32)) (t : Turn (Recorded σ)) (plain : Turn σ) :
    Prop where
  unseen : t.mapPlayer Recorded.player = plain
  requests : t.player.requests = earlier ++ Effect.requests t.effects
  answered : t.Answered

namespace Session

theorem start_answered (s : Session) (p : σ) : (s.start p).Answered := by
  rw [Turn.Answered, effects_start]
  exact answer_cases _ _

theorem run_answered (s : Session) (c : Circle) (earlier : List Effect) (p : σ) :
    (s.run c earlier p).Answered := by
  rw [Turn.Answered, effects_run, result_run]
  exact answer_cases _ _

theorem receive_answered (s : Session) (r : Reading) (p : σ) : (s.receive r p).Answered := by
  have h := s.received r p
  generalize s.receive r p = t at h ⊢
  cases h with
  | ignored hstatus => exact Or.inl rfl
  | heldBack hstatus hfix => exact Or.inl rfl
  | unmatched hstatus hfix hbusy => exact Or.inl rfl
  | outside hstatus hfix hidle hnone => exact Or.inl rfl
  | entered c hstatus hfix hidle hcircle => exact run_answered _ _ _ _

theorem delivered_start (s : Session) (p : σ) (earlier : List (String × Float32)) :
    Delivered earlier (s.start (⟨p, earlier⟩ : Recorded σ)) (s.start p) where
  unseen := (start_map Recorded.playerMap s _).symm
  requests := recorded_law.start s _
  answered := start_answered s _

theorem delivered_receive (s : Session) (r : Reading) (p : σ)
    (earlier : List (String × Float32)) :
    Delivered earlier (s.receive r (⟨p, earlier⟩ : Recorded σ)) (s.receive r p) where
  unseen := (receive_map Recorded.playerMap s r _).symm
  requests := recorded_law.receive s r _
  answered := receive_answered s r _

end Session

/-- No request is lost, made up or moved: whatever the player answers, it has
received the requests that are among the effects, at the end of a script, of a
start and of a reading, and however these ended. -/
theorem requests_delivered (p : σ) (earlier : List (String × Float32)) :
    (∀ title? ss vs,
      (execute title? ss vs (⟨p, earlier⟩ : Recorded σ)).mapPlayer Recorded.player =
        execute title? ss vs p ∧
      (execute title? ss vs (⟨p, earlier⟩ : Recorded σ)).player.requests =
        earlier ++ Effect.requests (execute title? ss vs p).effects) ∧
    (∀ s : Session,
      Delivered earlier (s.start (⟨p, earlier⟩ : Recorded σ)) (s.start p)) ∧
    ∀ (s : Session) (r : Reading),
      Delivered earlier (s.receive r (⟨p, earlier⟩ : Recorded σ)) (s.receive r p) := by
  refine ⟨fun title? ss vs => ?_, fun s => s.delivered_start p earlier,
    fun s r => s.delivered_receive r p earlier⟩
  have hunseen : execute title? ss vs p =
      (execute title? ss vs (⟨p, earlier⟩ : Recorded σ)).mapPlayer Recorded.player :=
    execute_map Recorded.playerMap ss vs ⟨p, earlier⟩
  refine ⟨hunseen.symm, ?_⟩
  rw [hunseen]
  exact recorded_law.execute title? ss vs ⟨p, earlier⟩

end AudioWalk
