import AudioWalk.Proofs.Session.Delivery

/-!
# One clip at a time

On a playback that a request makes busy, a story never asks for a clip while
another one is playing.  `OneClip` says what a stretch of a story may do to a
playback; two stretches in a row may do no more than one (`OneClip.append`), so
what holds of a single statement holds of a script, and what holds of a script
holds of a turn.

That a request meets an idle playback is read off a player that notes the state
in which each request meets it.
-/

namespace AudioWalk

/-! ## What a stretch of a story does to a playback -/

/-- Nothing, or one request that meets an idle playback. -/
inductive OneClip : Playback → List Effect → Playback → Prop
  | unasked {p : Playback} {effects : List Effect} (h : Effect.requests effects = []) :
    OneClip p effects p
  | asked {effects : List Effect} {clip : String} {volume : Float32}
    (h : Effect.requests effects = [(clip, volume)]) :
    OneClip .idle effects (.playing clip volume)

namespace OneClip

theorem append {p q r : Playback} {es fs : List Effect} (h : OneClip p es q)
    (h' : OneClip q fs r) : OneClip p (es ++ fs) r := by
  cases h with
  | unasked hes =>
    cases h' with
    | unasked hfs => exact .unasked (by rw [Effect.requests_append, hes, hfs]; rfl)
    | asked hfs => exact .asked (by rw [Effect.requests_append, hes, hfs]; rfl)
  | asked hes =>
    -- The playback is busy from here on, so the second stretch asks for nothing.
    cases h' with
    | unasked hfs => exact .asked (by rw [Effect.requests_append, hes, hfs]; rfl)

theorem length_requests_le {p q : Playback} {es : List Effect} (h : OneClip p es q) :
    (Effect.requests es).length ≤ 1 := by
  cases h with
  | unasked hes => simp [hes]
  | asked hes => simp [hes]

theorem playing_of_mem {p q : Playback} {es : List Effect} (h : OneClip p es q) {clip : String}
    {volume : Float32} (hmem : (clip, volume) ∈ Effect.requests es) :
    p = .idle ∧ q = .playing clip volume := by
  cases h with
  | unasked hes =>
    rw [hes] at hmem
    exact absurd hmem List.not_mem_nil
  | asked hes =>
    rw [hes, List.mem_singleton] at hmem
    cases hmem
    exact ⟨rfl, rfl⟩

/-- A clip that is playing is left alone. -/
theorem eq_of_playing {q : Playback} {es : List Effect} {clip : String} {volume : Float32}
    (h : OneClip (.playing clip volume) es q) :
    Effect.requests es = [] ∧ q = .playing clip volume := by
  cases h with
  | unasked hes => exact ⟨hes, rfl⟩

theorem playing_of_requests_ne_nil {p q : Playback} {es : List Effect} (h : OneClip p es q)
    (hes : Effect.requests es ≠ []) : isPlaying q = true := by
  cases h with
  | unasked hquiet => exact absurd hquiet hes
  | asked _ => rfl

theorem eq_of_requests_eq_nil {p q : Playback} {es : List Effect} (h : OneClip p es q)
    (hes : Effect.requests es = []) : q = p := by
  cases h with
  | unasked _ => rfl
  | asked hasked => exact absurd (hes.symm.trans hasked) nofun

end OneClip

theorem oneClip_law : EffectLaw OneClip where
  quiet _ _ h := .unasked h
  elapse _ := .unasked rfl
  request {p _ _ _} hidle h := by
    cases p with
    | idle => exact .asked h
    | playing current loudness => cases hidle
  append hp hq := hp.append hq

/-! ## The states that requests meet -/

/-- A player with the requests it has received, each beside the state it met. -/
structure Watched (σ : Type) where
  player : σ
  met : List (σ × String × Float32)

namespace Watched

variable {σ : Type} [Player σ]

instance : Player (Watched σ) where
  elapse w := { w with player := Player.elapse w.player }
  isPlaying w := isPlaying w.player
  request w clip volume :=
    ⟨Player.request w.player clip volume, w.met ++ [(w.player, clip, volume)]⟩

def record (w : Watched σ) : Recorded σ := ⟨w.player, w.met.map Prod.snd⟩

theorem playerMap : PlayerMap (player : Watched σ → σ) :=
  ⟨fun _ => rfl, fun _ => rfl, fun _ _ _ => rfl⟩

theorem playerMap_record : PlayerMap (record : Watched σ → Recorded σ) where
  elapse _ := rfl
  isPlaying _ := rfl
  request w clip volume := by
    show (⟨_, w.met.map Prod.snd ++ [(clip, volume)]⟩ : Recorded σ) =
      ⟨_, (w.met ++ [(w.player, clip, volume)]).map Prod.snd⟩
    rw [List.map_append]
    rfl

def host (a : HostAction) (w : Watched Playback) : Watched Playback :=
  { w with player := Playback.host a w.player }

def AllIdle (w : Watched Playback) : Prop := ∀ m ∈ w.met, m.1 = .idle

theorem allIdle_law : EffectLaw fun (w : Watched Playback) _ w' => w.AllIdle → w'.AllIdle where
  quiet _ _ _ := id
  elapse _ := id
  request {w _ clip volume} hidle _ := by
    obtain ⟨p, met⟩ := w
    intro hw m hm
    rcases List.mem_append.1 hm with hm | hm
    · exact hw m hm
    · rw [List.mem_singleton.1 hm]
      cases p with
      | idle => rfl
      | playing current loudness => cases hidle
  append hv hw := hw ∘ hv

theorem allIdle_turn (e : Event) (s : Session) {w : Watched Playback} (hw : w.AllIdle) :
    (e.turn host s w).player.AllIdle := by
  cases e with
  | host a => exact hw
  | call c => exact allIdle_law.call s w c hw

/-- What has been noted grows by the requests among the effects of a turn. -/
theorem met_turn (e : Event) (s : Session) (w : Watched Playback) :
    (e.turn host s w).player.met.map Prod.snd =
      w.met.map Prod.snd ++ Effect.requests (e.turn host s w).effects := by
  cases e with
  | host a => exact (List.append_nil _).symm
  | call c =>
    have hcall := s.call_map playerMap_record w c
    have hrecorded := recorded_law.call s w.record c
    rw [hcall] at hrecorded
    exact hrecorded

theorem met_history (events : List Event) (s : Session) (w : Watched Playback) (i : Nat)
    (t : Turn (Watched Playback)) (ht : (history host events s w)[i]? = some t) :
    t.player.met.map Prod.snd = w.met.map Prod.snd ++
      ((history host events s w).take (i + 1)).flatMap fun t => Effect.requests t.effects := by
  induction events generalizing s w i with
  | nil => cases ht
  | cons e es ih =>
    rw [history, List.take_succ_cons, List.flatMap_cons, ← List.append_assoc, ← met_turn]
    cases i with
    | zero =>
      cases ht
      exact (List.append_nil _).symm
    | succ i => exact ih _ _ i ht

end Watched

/-! ## Histories -/

theorem oneClip_turn_requests (e : Event) (s : Session) (p : Playback) :
    (Effect.requests (e.turn Playback.host s p).effects).length ≤ 1 ∧
      ∀ clip volume, (clip, volume) ∈ Effect.requests (e.turn Playback.host s p).effects →
        (e.turn Playback.host s p).player = .playing clip volume := by
  cases e with
  | host a => exact ⟨Nat.zero_le 1, fun _ _ hmem => absurd hmem List.not_mem_nil⟩
  | call c =>
    have h := oneClip_law.call s p c
    exact ⟨h.length_requests_le, fun _ _ hmem => (h.playing_of_mem hmem).2⟩

/-- Turn number `i` asks for a clip. -/
def AsksAt (turns : List (Turn Playback)) (i : Nat) : Prop :=
  ∃ t, turns[i]? = some t ∧ Effect.requests t.effects ≠ []

/-- While a clip is playing nothing is asked for, up to the host's finish. -/
theorem exists_finish_of_playing {events : List Event} {s : Session} {clip : String}
    {volume : Float32} {j : Nat}
    (hj : AsksAt (history Playback.host events s (.playing clip volume)) j) :
    ∃ k, k < j ∧ events[k]? = some (.host .finish) := by
  induction events generalizing s clip volume j with
  | nil =>
    obtain ⟨t, ht, -⟩ := hj
    cases ht
  | cons e es ih =>
    obtain ⟨t, ht, hasks⟩ := hj
    cases j with
    | zero =>
      cases ht
      cases e with
      | host a => exact absurd rfl hasks
      | call c => exact absurd (oneClip_law.call s _ c).eq_of_playing.1 hasks
    | succ j =>
      cases e with
      | host a =>
        cases a with
        | finish => exact ⟨0, Nat.succ_pos j, rfl⟩
        | request clip' volume' =>
          obtain ⟨k, hk, hfinish⟩ := ih ⟨t, ht, hasks⟩
          exact ⟨k + 1, Nat.succ_lt_succ hk, hfinish⟩
      | call c =>
        have hplayer := (oneClip_law.call s (.playing clip volume) c).eq_of_playing.2
        have hrest : (history Playback.host es (s.call (Playback.playing clip volume) c).session
            (s.call (Playback.playing clip volume) c).player)[j]? = some t := ht
        rw [hplayer] at hrest
        obtain ⟨k, hk, hfinish⟩ := ih ⟨t, hrest, hasks⟩
        exact ⟨k + 1, Nat.succ_lt_succ hk, hfinish⟩

theorem exists_finish_between {events : List Event} {s : Session} {p : Playback} {i j : Nat}
    (hij : i < j) (hi : AsksAt (history Playback.host events s p) i)
    (hj : AsksAt (history Playback.host events s p) j) :
    ∃ k, i < k ∧ k < j ∧ events[k]? = some (.host .finish) := by
  induction events generalizing s p i j with
  | nil =>
    obtain ⟨t, ht, -⟩ := hi
    cases ht
  | cons e es ih =>
    cases j with
    | zero => exact absurd hij (Nat.not_lt_zero i)
    | succ j =>
      cases i with
      | succ i =>
        obtain ⟨k, hik, hkj, hfinish⟩ := ih (Nat.lt_of_succ_lt_succ hij) hi hj
        exact ⟨k + 1, Nat.succ_lt_succ hik, Nat.succ_lt_succ hkj, hfinish⟩
      | zero =>
        obtain ⟨t, ht, hasks⟩ := hi
        cases ht
        obtain ⟨⟨clip, volume⟩, hmem⟩ := List.exists_mem_of_ne_nil _ hasks
        have hplayer := (oneClip_turn_requests e s p).2 clip volume hmem
        have hrest : AsksAt (history Playback.host es (e.turn Playback.host s p).session
            (e.turn Playback.host s p).player) j := hj
        rw [hplayer] at hrest
        obtain ⟨k, hkj, hfinish⟩ := exists_finish_of_playing hrest
        exact ⟨k + 1, Nat.succ_pos k, Nat.succ_lt_succ hkj, hfinish⟩

/-- A story never cuts a clip off.  Its requests, which are those among the
effects, all meet an idle playback; a turn makes one at most, and leaves the
playback with that clip; and between two of them the host has finished a clip. -/
theorem one_clip_at_a_time (story : Story) (warmUpReadings : UInt32) (p : Playback)
    (events : List Event) :
    let turns := history Playback.host events (Session.new story warmUpReadings) p
    let watched := history Watched.host events (Session.new story warmUpReadings) ⟨p, []⟩
    watched.map (Turn.mapPlayer Watched.player) = turns ∧
    (∀ t ∈ watched, ∀ m ∈ t.player.met, m.1 = .idle) ∧
    (∀ i t, watched[i]? = some t → t.player.met.map Prod.snd =
      (turns.take (i + 1)).flatMap fun t => Effect.requests t.effects) ∧
    (∀ t ∈ turns, (Effect.requests t.effects).length ≤ 1 ∧
      ∀ clip volume, (clip, volume) ∈ Effect.requests t.effects →
        t.player = .playing clip volume) ∧
    ∀ i j, i < j → AsksAt turns i → AsksAt turns j →
      ∃ k, i < k ∧ k < j ∧ events[k]? = some (.host .finish) := by
  intro turns watched
  have hunseen : turns = watched.map (Turn.mapPlayer Watched.player) :=
    history_map Watched.playerMap (fun _ _ => rfl) events _ ⟨p, []⟩
  refine ⟨hunseen.symm, ?_, ?_, ?_, ?_⟩
  · refine history_forall (I := Watched.AllIdle) (Q := fun t => t.player.AllIdle)
      (fun e s w hw => ?_) events _ _ (fun m hm => absurd hm List.not_mem_nil)
    exact ⟨Watched.allIdle_turn e s hw, Watched.allIdle_turn e s hw⟩
  · intro i t ht
    rw [Watched.met_history events _ _ i t ht, hunseen, ← List.map_take, List.flatMap_map]
    rfl
  · exact history_forall (I := fun _ => True)
      (fun e s p _ => ⟨trivial, oneClip_turn_requests e s p⟩) events _ _ trivial
  · exact fun i j hij hi hj => exists_finish_between hij hi hj

end AudioWalk
