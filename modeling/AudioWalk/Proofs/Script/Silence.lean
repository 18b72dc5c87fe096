import AudioWalk.Proofs.Script.Straight
import AudioWalk.Proofs.Session.OneClip

/-!
# Players only cut runs short

Beside a run with some player stands the run with a player that is never busy.
That run gets through its whole line, so the run with the player has done what a
front of the line does: the effects are the same up to where the player was busy,
and all is the same if it never was.

On a playback that a request makes busy the second clip is where this happens.
-/

namespace AudioWalk
namespace Statement

theorem constant_law : EffectLaw fun (c : Constant) _ c' => c' = c where
  quiet _ _ _ := rfl
  elapse _ := rfl
  request _ _ := rfl
  append hp hq := hq.trans hp

/-- Nothing keeps a silent run from the end of its line. -/
theorem silent_through (title? : Option String) (ss : List Statement) (vs : Variables) :
    let l := straighten vs ss
    let o := execute title? ss vs silent
    o.effects = shownAll title? l.statements ∧ o.store = updateAll vs l.statements ∧
      o.completion = l.completion := by
  intro l o
  have hfollows : Follows title? vs l o := follows_execute ss vs silent
  cases hfollows with
  | through heffects hstore hcompletion => exact ⟨heffects, hstore, hcompletion⟩
  | stopped hline heffects hstore hcompletion hbusy =>
    have hplayer : o.player = silent := constant_law.execute title? ss vs silent
    rw [hplayer] at hbusy
    cases hbusy

/-- With any player a run has a part of the effects of the silent run, from the
first one on, and unless the player stopped it, it comes to the same effects, end
and store.  A playback that is idle at first lets no more than one clip pass: the
run is the silent run if that gets to one clip at most, and otherwise it stops at
the second clip, in front of the texts that go with it. -/
theorem player_only_cuts_short {σ : Type} [Player σ] {title? : Option String}
    (ss : List Statement) (vs : Variables) (p : σ) :
    let whole := execute title? ss vs silent
    let cut := execute title? ss vs p
    let latched := execute title? ss vs Playback.idle
    let line := (straighten vs ss).statements
    (cut.effects <+: whole.effects ∧ (cut.completion ≠ .alreadyPlaying →
      cut.effects = whole.effects ∧ cut.completion = whole.completion ∧
        cut.store = whole.store)) ∧
    whole.effects = shownAll title? line ∧
    (Effect.requests whole.effects).length = line.countP isPlay ∧
    (line.countP isPlay ≤ 1 → latched.effects = whole.effects ∧
      latched.completion = whole.completion ∧ latched.store = whole.store) ∧
    (1 < line.countP isPlay → latched.completion = .alreadyPlaying ∧
      ∃ ran clip text volume rest, line = ran ++ .play clip text volume :: rest ∧
        ran.countP isPlay = 1 ∧ latched.effects = shownAll title? ran ∧
        whole.effects = latched.effects ++
          (display (title?.getD "") ++ display text ++ [.playRequest clip volume]) ++
          shownAll title? rest) := by
  intro whole cut latched line
  obtain ⟨heffects, hstore, hcompletion⟩ := silent_through title? ss vs
  have hcut : Follows title? vs (straighten vs ss) cut := follows_execute ss vs p
  have hlatched : Follows title? vs (straighten vs ss) latched :=
    follows_execute ss vs Playback.idle
  have honeClip : OneClip .idle latched.effects latched.player :=
    oneClip_law.execute title? ss vs Playback.idle
  have hcount : (Effect.requests whole.effects).length = line.countP isPlay := by
    rw [heffects, length_requests_shownAll]
  refine ⟨?_, heffects, hcount, ?_⟩
  · cases hcut with
    | through heffects' hstore' hcompletion' =>
      have hsame : cut.effects = whole.effects := heffects'.trans heffects.symm
      exact ⟨hsame ▸ List.prefix_rfl, fun _ =>
        ⟨hsame, hcompletion'.trans hcompletion.symm, hstore'.trans hstore.symm⟩⟩
    | stopped hline heffects' hstore' hcompletion' hbusy =>
      refine ⟨?_, fun hne => absurd hcompletion' hne⟩
      rw [heffects', heffects, hline, shownAll_append]
      exact List.prefix_append _ _
  · cases hlatched with
    | through heffects' hstore' hcompletion' =>
      have hfew : line.countP isPlay ≤ 1 := by
        rw [← length_requests_shownAll title?, ← heffects']
        exact honeClip.length_requests_le
      exact ⟨fun _ => ⟨heffects'.trans heffects.symm, hcompletion'.trans hcompletion.symm,
        hstore'.trans hstore.symm⟩, fun hmany => absurd hmany (Nat.not_lt.2 hfew)⟩
    | @stopped ran rest clip text volume hline heffects' hstore' hcompletion' hbusy =>
      -- The playback was idle at first, so the clip that keeps it busy is one of the run.
      have hasked : Effect.requests latched.effects ≠ [] := by
        intro hnone
        rw [honeClip.eq_of_requests_eq_nil hnone] at hbusy
        cases hbusy
      have hone : ran.countP isPlay = 1 := by
        rw [← length_requests_shownAll title?, ← heffects']
        have hpositive := List.length_pos_iff.2 hasked
        have hle := honeClip.length_requests_le
        omega
      have hmany : 1 < line.countP isPlay := by
        rw [show line = _ from hline, List.countP_append, hone,
          List.countP_cons_of_pos (by rfl)]
        omega
      refine ⟨fun hfew => absurd hmany (Nat.not_lt.2 hfew), fun _ => ⟨hcompletion', ran, clip,
        text, volume, rest, hline, hone, heffects', ?_⟩⟩
      rw [heffects, hline, shownAll_append, shownAll_cons, heffects', List.append_assoc]
      rfl

end Statement
end AudioWalk
