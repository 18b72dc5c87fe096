import AudioWalk.Proofs.Geofence.Editing
import AudioWalk.Proofs.Session.Turns
import AudioWalk.Proofs.Script.Reached

/-!
# Interrupted readings

A condition that cannot be tested stops a circle part way.  Such a reading is the
reading of another story, in which the circle ends in front of the branch with
that condition: both have the same effects and leave the same session and player,
and they differ in the answer alone.

The two stories are compared by `Story.edit`, which shortens the circle where it
stands.  The announcement and the choice of the circle do not see the difference
(`announcement_edit`, `entered?_edit`), and the run of the shortened circle is the
part of the other run that was completed (`Statement.FailsAt`).
-/

namespace AudioWalk
namespace Session

/-- The same session in an edited story. -/
def edit (number place : Nat) (f : List Statement → List Statement) (s : Session) : Session :=
  { s with story := s.story.edit number place f }

variable {f : List Statement → List Statement}

theorem announcement_edit (s : Session) (number place : Nat) (r : Reading) :
    (s.edit number place f).announcement r = s.announcement r := by
  have hnearest : ((s.edit number place f).heard r).nearestUntriggered =
      (s.heard r).nearestUntriggered := by
    unfold nearestUntriggered
    congr 2
    funext position
    exact center_nearest?_edit number place f s.story.spots position.coordinate _
  unfold announcement announce
  rw [hnearest]
  rfl

variable {σ : Type} [Player σ]

/-- A circle that a reading runs has a place in the story, and edited there it is
run edited. -/
theorem entered?_edit {s : Session} {r : Reading} {p : σ} {c : Circle}
    (hc : s.entered? r p = some c) :
    ∃ number spot place, s.story.spots[number]? = some spot ∧ spot.circles[place]? = some c ∧
      (s.edit number place f).entered? r p = some (c.edit f) := by
  obtain ⟨hrunning, hfix, hidle, hcircle⟩ := entered?_eq_some.1 hc
  obtain ⟨number, spot, place, hspot, hplace, hfound⟩ := triggered?_edit f hcircle
  exact ⟨number, spot, place, hspot, hplace, entered?_eq_some.2 ⟨hrunning, hfix, hidle, hfound⟩⟩

/-- Where a circle fails, its statements in front of the failing branch would have
been answered with the same effects, and would have left the same. -/
theorem run_failsAt {s : Session} {c : Circle} {p : σ} {n : Nat} {cause : Failure}
    (h : Statement.FailsAt c.title? c.statements s.store p n cause) (earlier : List Effect)
    (number place : Nat) :
    let t := s.run c earlier p
    let cut := (s.edit number place (List.take n)).run (c.edit (List.take n)) earlier p
    t.result = .error (.interrupted t.effects cause) ∧
      cut = ⟨.ok t.effects, t.session.edit number place (List.take n), t.player⟩ := by
  intro t cut
  obtain ⟨hcompleted, _, houtcome⟩ := h
  have heffects : t.effects =
      earlier ++ (execute c.title? (c.statements.take n) s.store p).effects := by
    rw [effects_run, houtcome]
  have hanswered : t.result = .error (.interrupted t.effects cause) := by
    rw [heffects, result_run, houtcome]
    rfl
  refine ⟨hanswered, ?_⟩
  have hplayer : cut.player = t.player := by
    rw [player_run, player_run, houtcome]
    rfl
  have hsession : cut.session = t.session.edit number place (List.take n) := by
    rw [session_run, session_run, hplayer, houtcome]
    rfl
  have hresult : cut.result = .ok t.effects := by
    rw [heffects, result_run]
    exact congrArg (answer _) hcompleted
  rw [← hresult, ← hsession, ← hplayer]

end Session

variable {σ : Type} [Player σ]

/-- Every reading is answered with its effects, or it is interrupted by the
conditions of a branch in the circle that it runs.  Then the circle without that
branch and what stands behind it, in a session that is otherwise the same, takes
the reading with the same effects and leaves the same store, tracker, visited
spots, status and player. -/
theorem interrupted_reading_is_shortened (s : Session) (r : Reading) (p : σ) :
    let t := s.receive r p
    t.result = .ok t.effects ∨
    ∃ cause number spot place c n, t.result = .error (.interrupted t.effects cause) ∧
      s.story.spots[number]? = some spot ∧ spot.circles[place]? = some c ∧
      s.entered? r p = some c ∧
      Statement.FailsAt c.title? c.statements s.store (Player.elapse p) n cause ∧
      (s.edit number place (List.take n)).entered? r p = some (c.edit (List.take n)) ∧
      (s.edit number place (List.take n)).receive r p =
        ⟨.ok t.effects, t.session.edit number place (List.take n), t.player⟩ := by
  intro t
  cases hc : s.entered? r p with
  | none => exact Or.inl (Session.result_of_not_entered hc)
  | some c =>
    have hreceive : t = (s.heard r).run c (s.announcement r) (Player.elapse p) :=
      Session.receive_of_entered hc
    by_cases hfailed : ∃ cause,
        (execute c.title? c.statements s.store (Player.elapse p)).completion = .failed cause
    · obtain ⟨cause, hfailed⟩ := hfailed
      obtain ⟨n, hfails⟩ := Statement.exists_failsAt hfailed
      obtain ⟨number, spot, place, hspot, hplace, hentered⟩ := Session.entered?_edit hc
      have hrun := Session.run_failsAt (s := s.heard r) hfails (s.announcement r) number place
      rw [← hreceive] at hrun
      refine Or.inr ⟨cause, number, spot, place, c, n, hrun.1, hspot, hplace, rfl, hfails,
        hentered, ?_⟩
      rw [Session.receive_of_entered hentered, Session.announcement_edit]
      exact hrun.2
    · refine Or.inl ?_
      rw [hreceive, Session.result_run, Session.effects_run]
      exact answer_of_not_failed fun cause h => hfailed ⟨cause, h⟩

end AudioWalk
