import AudioWalk.Script.Run

/-!
# Laws of runs

What holds of every run of a script follows from what holds of its single
statements.  `RunLaw.runScript` is that argument, made once: a relation between the
store and the player a run begins with and the run itself is a law of all runs as
soon as it holds of the five things a statement can come to, and goes over from
two runs to the one behind the other.

`EffectLaw` is the special case of a relation that sees the player and the
effects only.  It holds of runs as soon as it holds of the three operations of a
player.

The last part compares players.  Where a map of players agrees with the three
operations, running and mapping commute (`execute_map`), so a player that keeps a
record beside its state runs a script as the player without the record does.
-/

namespace AudioWalk

namespace Run

variable {σ : Type}

theorem andThen_of_ok {r : Run σ} (h : r.result = .ok ()) (next : Variables → σ → Run σ) :
    r.andThen next =
      { next r.store r.player with effects := r.effects ++ (next r.store r.player).effects } := by
  simp only [andThen, h]

theorem andThen_of_not_ok {r : Run σ} (h : r.result ≠ .ok ()) (next : Variables → σ → Run σ) :
    r.andThen next = r := by
  obtain ⟨effects, result, vs, p⟩ := r
  cases result with
  | ok _ => exact absurd rfl h
  | error cause => rfl

end Run

/-! ## Single statements -/

namespace Statement

/-- The read of an increment is guarded, so it has a value. -/
theorem current_eq (vs : Variables) (name : String) :
    current vs name = .ok ((vs.get? name).getD 0) := by
  unfold current
  split
  · next hdefined => exact Variables.value_of_contains hdefined
  · next hundefined =>
    rw [Variables.contains_eq_false.1 (eq_false_of_ne_true hundefined), Option.getD_none]

theorem runInBranch_increment {σ : Type} [Player σ] (title? : Option String) (name : String)
    (delta : Int64) (vs : Variables) (p : σ) :
    (increment name delta).runInBranch title? vs p =
      .nothing (vs.set name ((vs.get? name).getD 0 + delta)) p := by
  rw [runInBranch, current_eq]

def isBranch : Statement → Bool
  | branch _ _ _ => true
  | _ => false

theorem exists_of_isBranch {s : Statement} (h : s.isBranch = true) :
    ∃ conditions whenTrue whenFalse, s = branch conditions whenTrue whenFalse := by
  cases s with
  | branch conditions whenTrue whenFalse => exact ⟨conditions, whenTrue, whenFalse, rfl⟩
  | assign name value => cases h
  | increment name delta => cases h
  | play clip text volume => cases h
  | ending => cases h

/-- Outside of branches a statement is run as it is inside. -/
theorem run_of_not_branch {σ : Type} [Player σ] {title? : Option String} {s : Statement}
    (hs : s.isBranch = false) (vs : Variables) (p : σ) :
    s.run title? vs p = s.runInBranch title? vs p := by
  cases s with
  | branch conditions whenTrue whenFalse => cases hs
  | assign name value => rfl
  | increment name delta => rfl
  | play clip text volume => rfl
  | ending => rfl

end Statement

/-! ## From statements to scripts -/

/-- A relation between the beginning of a run and the run that the parts of a script
hand on to the whole. -/
structure RunLaw {σ : Type} [Player σ] (title? : Option String)
    (R : Variables → σ → Run σ → Prop) : Prop where
  nothing : ∀ vs p, R vs p (.nothing vs p)
  /-- One run behind another.  The second one is known to obey the law also where
  the first one stops and the second never happens. -/
  andThen : ∀ {vs p r} {next : Variables → σ → Run σ}, R vs p r →
    R r.store r.player (next r.store r.player) → R vs p (r.andThen next)
  set : ∀ vs p name value, R vs p (.nothing (vs.set name value) p)
  play : ∀ vs p clip text volume, R vs p (Statement.runPlay title? clip text volume vs p)
  ending : ∀ vs p, R vs p ⟨[.endOfStory], .ok (), vs, p⟩
  fail : ∀ vs p conditions cause, conditionsHold vs conditions = .error cause →
    R vs p (.stopped cause vs p)

namespace RunLaw

variable {σ : Type} [Player σ] {title? : Option String} {R : Variables → σ → Run σ → Prop}

theorem runInBranch (law : RunLaw title? R) (s : Statement) (vs : Variables) (p : σ) :
    R vs p (s.runInBranch title? vs p) := by
  cases s with
  | assign name value => exact law.set vs p name value
  | increment name delta =>
    rw [Statement.runInBranch_increment]
    exact law.set vs p name _
  | play clip text volume => exact law.play vs p clip text volume
  | branch conditions whenTrue whenFalse => exact law.nothing vs p
  | ending => exact law.ending vs p

theorem runAll (law : RunLaw title? R) {step : Statement → Variables → σ → Run σ}
    (hstep : ∀ s vs p, R vs p (step s vs p)) (ss : List Statement) (vs : Variables) (p : σ) :
    R vs p (Statement.runAll step ss vs p) := by
  induction ss generalizing vs p with
  | nil => exact law.nothing vs p
  | cons s rest ih => exact law.andThen (hstep s vs p) (ih _ _)

theorem run (law : RunLaw title? R) (s : Statement) (vs : Variables) (p : σ) :
    R vs p (s.run title? vs p) := by
  cases hbranch : s.isBranch with
  | false =>
    rw [Statement.run_of_not_branch hbranch]
    exact law.runInBranch s vs p
  | true =>
    obtain ⟨conditions, whenTrue, whenFalse, rfl⟩ := Statement.exists_of_isBranch hbranch
    rw [Statement.run]
    split
    · exact law.runAll law.runInBranch whenTrue vs p
    · exact law.runAll law.runInBranch whenFalse vs p
    · next cause hcause => exact law.fail vs p conditions cause hcause

/-- A law of single statements is a law of scripts. -/
theorem runScript (law : RunLaw title? R) (ss : List Statement) (vs : Variables) (p : σ) :
    R vs p (Statement.runAll (Statement.run title?) ss vs p) :=
  law.runAll law.run ss vs p

end RunLaw

/-! ## What a player goes through -/

@[simp]
theorem Effect.requests_display (text : String) : Effect.requests (display text) = [] := by
  unfold display
  split <;> rfl

/-- A relation between a player, the effects that come about, and the player
afterwards, that the operations of a player hand on to every stretch of a story. -/
structure EffectLaw {σ : Type} [Player σ] (R : σ → List Effect → σ → Prop) : Prop where
  quiet : ∀ p {effects}, Effect.requests effects = [] → R p effects p
  elapse : ∀ p, R p [] (Player.elapse p)
  request : ∀ {p effects clip volume}, isPlaying p = false →
    Effect.requests effects = [(clip, volume)] → R p effects (Player.request p clip volume)
  append : ∀ {p q r es fs}, R p es q → R q fs r → R p (es ++ fs) r

namespace EffectLaw

variable {σ : Type} [Player σ] {R : σ → List Effect → σ → Prop}

theorem runPlay (law : EffectLaw R) (title? : Option String) (clip text : String)
    (volume : Float32) (vs : Variables) (p : σ) :
    R p (Statement.runPlay title? clip text volume vs p).effects
      (Statement.runPlay title? clip text volume vs p).player := by
  have helapsed := law.elapse p
  unfold Statement.runPlay
  dsimp only
  by_cases hbusy : isPlaying (Player.elapse p) = true
  · rw [if_pos hbusy]
    exact helapsed
  · have hrequests : Effect.requests (display (title?.getD "") ++ display text ++
        [.playRequest clip volume]) = [(clip, volume)] := by
      rw [Effect.requests_append, Effect.requests_append, Effect.requests_display,
        Effect.requests_display]
      rfl
    rw [if_neg hbusy]
    have hplayed := law.append helapsed (law.request (eq_false_of_ne_true hbusy) hrequests)
    exact hplayed

theorem runLaw (law : EffectLaw R) (title? : Option String) :
    RunLaw title? fun (_ : Variables) (p : σ) r => R p r.effects r.player where
  nothing _ p := law.quiet p rfl
  andThen {vs p r next} h hnext := by
    by_cases hdone : r.result = .ok ()
    · rw [Run.andThen_of_ok hdone]
      exact law.append h hnext
    · rw [Run.andThen_of_not_ok hdone]
      exact h
  set _ p _ _ := law.quiet p rfl
  play vs p clip text volume := law.runPlay title? clip text volume vs p
  ending _ p := law.quiet p rfl
  fail _ p _ _ _ := law.quiet p rfl

theorem execute (law : EffectLaw R) (title? : Option String) (ss : List Statement)
    (vs : Variables) (p : σ) :
    R p (AudioWalk.execute title? ss vs p).effects (AudioWalk.execute title? ss vs p).player :=
  (law.runLaw title?).runScript ss vs p

end EffectLaw

/-! ## Maps of players -/

/-- A map that a run cannot tell from doing nothing. -/
structure PlayerMap {σ τ : Type} [Player σ] [Player τ] (f : σ → τ) : Prop where
  elapse : ∀ p, Player.elapse (f p) = f (Player.elapse p)
  isPlaying : ∀ p, isPlaying (f p) = isPlaying p
  request : ∀ p clip volume, Player.request (f p) clip volume = f (Player.request p clip volume)

theorem Recorded.playerMap {σ : Type} [Player σ] :
    PlayerMap (Recorded.player : Recorded σ → σ) :=
  ⟨fun _ => rfl, fun _ => rfl, fun _ _ _ => rfl⟩

section

variable {σ τ : Type}

def Outcome.mapPlayer (f : σ → τ) (o : Outcome σ) : Outcome τ :=
  ⟨o.effects, o.completion, o.store, f o.player⟩

def Run.mapPlayer (f : σ → τ) (r : Run σ) : Run τ := ⟨r.effects, r.result, r.store, f r.player⟩

theorem Run.mapPlayer_andThen (f : σ → τ) (r : Run σ) {next : Variables → σ → Run σ}
    {next' : Variables → τ → Run τ} (h : ∀ vs p, next' vs (f p) = (next vs p).mapPlayer f) :
    (r.mapPlayer f).andThen next' = (r.andThen next).mapPlayer f := by
  obtain ⟨effects, result, vs, p⟩ := r
  cases result with
  | ok _ => simp [andThen, mapPlayer, h]
  | error cause => rfl

end

section Map

variable {σ τ : Type} {f : σ → τ} {title? : Option String}

theorem runAll_map {step : Statement → Variables → σ → Run σ}
    {step' : Statement → Variables → τ → Run τ}
    (hstep : ∀ s vs p, step' s vs (f p) = (step s vs p).mapPlayer f)
    (ss : List Statement) (vs : Variables) (p : σ) :
    Statement.runAll step' ss vs (f p) = (Statement.runAll step ss vs p).mapPlayer f := by
  induction ss generalizing vs p with
  | nil => rfl
  | cons s rest ih =>
    simp only [Statement.runAll, hstep]
    exact Run.mapPlayer_andThen f _ ih

variable [Player σ] [Player τ]

theorem runPlay_map (hf : PlayerMap f) (clip text : String) (volume : Float32) (vs : Variables)
    (p : σ) :
    Statement.runPlay title? clip text volume vs (f p) =
      (Statement.runPlay title? clip text volume vs p).mapPlayer f := by
  simp only [Statement.runPlay, hf.elapse, hf.isPlaying, hf.request]
  split <;> rfl

theorem runInBranch_map (hf : PlayerMap f) (s : Statement) (vs : Variables) (p : σ) :
    s.runInBranch title? vs (f p) = (s.runInBranch title? vs p).mapPlayer f := by
  cases s with
  | play clip text volume => exact runPlay_map hf clip text volume vs p
  | assign name value => rfl
  | increment name delta =>
    rw [Statement.runInBranch_increment, Statement.runInBranch_increment]
    rfl
  | branch conditions whenTrue whenFalse => rfl
  | ending => rfl

theorem run_map (hf : PlayerMap f) (s : Statement) (vs : Variables) (p : σ) :
    s.run title? vs (f p) = (s.run title? vs p).mapPlayer f := by
  cases hbranch : s.isBranch with
  | false =>
    rw [Statement.run_of_not_branch hbranch, Statement.run_of_not_branch hbranch]
    exact runInBranch_map hf s vs p
  | true =>
    obtain ⟨conditions, whenTrue, whenFalse, rfl⟩ := Statement.exists_of_isBranch hbranch
    simp only [Statement.run]
    split
    · exact runAll_map (runInBranch_map hf) whenTrue vs p
    · exact runAll_map (runInBranch_map hf) whenFalse vs p
    · rfl

/-- A run on the image of a player is the image of the run. -/
theorem execute_map (hf : PlayerMap f) (ss : List Statement) (vs : Variables) (p : σ) :
    execute title? ss vs (f p) = (execute title? ss vs p).mapPlayer f :=
  congrArg Run.outcome (runAll_map (run_map hf) ss vs p)

end Map
end AudioWalk
